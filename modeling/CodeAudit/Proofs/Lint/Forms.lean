import CodeAudit.Lint
import CodeAudit.Pattern.Match

namespace CodeAudit

theorem Lint.bind_ok {α β : Type} {x : Lint β} {f : β → Lint α} {b : β} {c c' : Context}
    (hx : x c = (.ok b, c')) : (x >>= f) c = f b c' := by
  have hbind : (x >>= f) c = ExceptT.bindCont f (x c).1 (x c).2 := rfl
  rw [hbind, hx]
  rfl

theorem Lint.lift_ok_bind {α β : Type} (b : β) (f : β → Lint α) :
    (liftM (Except.ok b : Scan β) : Lint β) >>= f = f b := rfl

theorem Lint.setLine_bind {α : Type} (line : Int) (f : Unit → Lint α) (c : Context) :
    (setLine line >>= f) c = f () { c with line } := rfl

namespace Form

variable {f : Form} {s : Text} {i : Int} {c c' : Context} {x : Finding}

def Absent (f : Form) (s : Text) (i : Int) : Prop :=
  ∀ c, f s i c = (.ok none, c)

theorem absent_ofSpan {f : Text → Int → Option Span} (h : f s i = none) :
    (ofSpan f).Absent s i := by
  intro c
  simp only [ofSpan, h]
  rfl

theorem counted_of_absent (h : f.Absent s i) : f.counted s i c = (.ok none, c) :=
  Lint.bind_ok (h c)

theorem counted_of_found (h : f s i c = (.ok (some x), c')) (hx : x.start ≠ -1) :
    f.counted s i c = (.ok (some x), c') := by
  have hf : Option.filter (·.start != -1) (some x) = some x := by simp [Option.filter, hx]
  rw [counted, Lint.bind_ok h, hf]
  rfl

theorem first_cons_of_absent (h : f.Absent s i) (fs : List Form) :
    first (f :: fs) s i c = first fs s i c := by
  rw [first, Lint.bind_ok (counted_of_absent h)]

theorem first_of_absent {fs : List Form} (h : ∀ f ∈ fs, f.Absent s i) :
    first fs s i c = (.ok none, c) := by
  induction fs with
  | nil => rfl
  | cons f fs ih =>
    rw [first_cons_of_absent (h f List.mem_cons_self)]
    exact ih fun g hg => h g (List.mem_cons_of_mem _ hg)

theorem first_of_found {fs gs : List Form} (habsent : ∀ g ∈ fs, g.Absent s i)
    (hf : f s i c = (.ok (some x), c')) (hx : x.start ≠ -1) :
    first (fs ++ f :: gs) s i c = (.ok (some x), c') := by
  induction fs with
  | nil =>
    rw [List.nil_append, first, Lint.bind_ok (counted_of_found hf hx)]
    rfl
  | cons g fs ih =>
    rw [List.cons_append, first_cons_of_absent (habsent g List.mem_cons_self)]
    exact ih fun g hg => habsent g (List.mem_cons_of_mem _ hg)

theorem first_append (fs gs : List Form) (s : Text) (i : Int) :
    first (fs ++ gs) s i = (do
      match ← first fs s i with
      | some x => return some x
      | none => first gs s i) := by
  induction fs with
  | nil => rfl
  | cons f fs ih =>
    simp only [List.cons_append, first, bind_assoc, ih]
    congr 1
    funext found
    cases found with
    | none => rfl
    | some x => rfl

variable {shapes : List (Form × List Pattern)}

theorem first_of_shapes_absent
    (hshapes : ∀ y ∈ shapes, (∀ p ∈ y.2, p.matchAt s i = none) → y.1.Absent s i)
    (habsent : ∀ p ∈ shapes.flatMap Prod.snd, p.matchAt s i = none) :
    first (shapes.map Prod.fst) s i c = (.ok none, c) := by
  apply first_of_absent
  intro g hg
  obtain ⟨y, hy, rfl⟩ := List.mem_map.mp hg
  apply hshapes y hy
  intro p hp
  exact habsent p (List.mem_flatMap.mpr ⟨y, hy, hp⟩)

theorem first_of_shapes {k : Nat} {ps : List Pattern}
    (hshapes : ∀ y ∈ shapes, (∀ p ∈ y.2, p.matchAt s i = none) → y.1.Absent s i)
    (hk : shapes[k]? = some (f, ps))
    (habsent : ∀ p ∈ (shapes.take k).flatMap Prod.snd, p.matchAt s i = none)
    (hf : f s i c = (.ok (some x), c')) (hx : x.start ≠ -1) :
    first (shapes.map Prod.fst) s i c = (.ok (some x), c') := by
  obtain ⟨hlt, hget⟩ := List.getElem?_eq_some_iff.mp hk
  have hsplit : shapes.map Prod.fst =
      (shapes.take k).map Prod.fst ++ f :: (shapes.drop (k + 1)).map Prod.fst := by
    have h := (List.take_append_drop k shapes).symm
    rw [List.drop_eq_getElem_cons hlt, hget] at h
    exact (congrArg (List.map Prod.fst) h).trans (by simp)
  rw [hsplit]
  refine first_of_found ?_ hf hx
  intro g hg
  obtain ⟨y, hy, rfl⟩ := List.mem_map.mp hg
  apply hshapes y (List.mem_of_mem_take hy)
  intro p hp
  exact habsent p (List.mem_flatMap.mpr ⟨y, hy, hp⟩)

end Form

end CodeAudit
