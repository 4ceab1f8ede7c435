import CodeAudit.Lint
import CodeAudit.Proofs.Rounds

/-!
A logic for checks. `Lint.wp x Q E c` says of the check `x` in the context `c` that a result and the
context after it meet `Q`, and that the context after a failure meets `E`.
-/

namespace CodeAudit

namespace Lint

variable {α β : Type} {Q Q' : α → Context → Prop} {E : Context → Prop} {c : Context}

def wp (x : Lint α) (Q : α → Context → Prop) (E : Context → Prop) (c : Context) : Prop :=
  match x c with
  | (.ok a, c') => Q a c'
  | (.error _, c') => E c'

theorem wp_imp {x : Lint α} {E' : Context → Prop} (h : wp x Q E c) (hQ : ∀ a c', Q a c' → Q' a c')
    (hE : ∀ c', E c' → E' c') : wp x Q' E' c := by
  unfold wp at *
  split
  · rename_i a c' hx
    rw [hx] at h
    exact hQ a c' h
  · rename_i e c' hx
    rw [hx] at h
    exact hE c' h

theorem wp_mono {x : Lint α} (h : wp x Q E c) (hQ : ∀ a c', Q a c' → Q' a c') : wp x Q' E c :=
  wp_imp h hQ fun _ => id

theorem wp_ok {x : Lint α} {a : α} {c' : Context} (h : wp x Q E c) (hx : x c = (.ok a, c')) :
    Q a c' := by
  rw [wp, hx] at h
  exact h

theorem wp_run {x : Lint α} (h : wp x Q E c) :
    wp x (fun a c' => x c = (.ok a, c') ∧ Q a c') E c := by
  rcases hx : x c with ⟨e | a, c'⟩
  · simpa only [wp, hx] using h
  · simp only [wp, hx] at h ⊢
    exact ⟨trivial, h⟩

theorem wp_and {x : Lint α} (h : wp x Q E c) (h' : wp x Q' E c) :
    wp x (fun a c' => Q a c' ∧ Q' a c') E c := by
  rcases hx : x c with ⟨e | a, c'⟩
  · simpa only [wp, hx] using h
  · simp only [wp, hx] at h h' ⊢
    exact ⟨h, h'⟩

theorem wp_trivial (x : Lint α) : wp x (fun _ _ => True) (fun _ => True) c := by
  unfold wp
  split <;> trivial

@[simp] theorem wp_pure (a : α) : wp (pure a) Q E c ↔ Q a c := Iff.rfl

@[simp] theorem wp_throw (e : Failure) : wp (throw e : Lint α) Q E c ↔ E c := Iff.rfl

@[simp] theorem wp_bind (x : Lint β) (f : β → Lint α) :
    wp (x >>= f) Q E c ↔ wp x (fun b c' => wp (f b) Q E c') E c := by
  have hbind : (x >>= f) c = ExceptT.bindCont f (x c).1 (x c).2 := rfl
  simp only [wp, hbind]
  rcases x c with ⟨e | b, c'⟩ <;> rfl

@[simp] theorem wp_map (g : β → α) (x : Lint β) :
    wp (g <$> x) Q E c ↔ wp x (fun b c' => Q (g b) c') E c := by
  rw [map_eq_pure_bind, wp_bind]
  rfl

@[simp] theorem wp_lift (e : Scan α) :
    wp (liftM e : Lint α) Q E c ↔ (∀ a, e = .ok a → Q a c) ∧ ∀ f, e = .error f → E c := by
  have hlift : (liftM e : Lint α) c = (e, c) := rfl
  rw [wp, hlift]
  cases e <;> simp

@[simp] theorem wp_lift_ensures (e : Scan α) :
    wp (liftM e : Lint α) Q (fun _ => True) c ↔ Scan.Ensures e fun a => Q a c := by
  simp [Scan.Ensures]

@[simp] theorem wp_currentLine {Q : Int → Context → Prop} :
    wp currentLine Q E c ↔ Q c.line c := Iff.rfl

@[simp] theorem wp_setLine {Q : Unit → Context → Prop} (line : Int) :
    wp (setLine line) Q E c ↔ Q () { c with line } := Iff.rfl

@[simp] theorem wp_get {Q : Context → Context → Prop} :
    wp (get : Lint Context) Q E c ↔ Q c c := Iff.rfl

@[simp] theorem wp_modify {Q : Unit → Context → Prop} (f : Context → Context) :
    wp (modify f : Lint Unit) Q E c ↔ Q () (f c) := Iff.rfl

theorem wp_rounds {σ ρ : Type} {round : σ → Lint (Round σ ρ)} {Q : ρ → Context → Prop}
    (I : σ → Context → Prop) (hE : ∀ x c, I x c → E c)
    (hround : ∀ x c, I x c → wp (round x)
      (fun z c' => match z with | .done r => Q r c' | .again y => I y c') E c)
    (states : Nat) (x : σ) (c : Context) (hx : I x c) : wp (rounds round states x) Q E c := by
  induction states generalizing x c with
  | zero => exact hE x c hx
  | succ states ih =>
    rw [rounds, wp_bind]
    refine wp_mono (hround x c hx) ?_
    intro z c' hz
    cases z with
    | done r => exact hz
    | again y => exact ih y c' hz

theorem wp_first {s : Text} {i : Int} {Q : Option Finding → Context → Prop} (J : Context → Prop)
    (fs : List Form) (hnone : ∀ c, J c → Q none c)
    (hform : ∀ f ∈ fs, ∀ c, J c → wp (f s i)
      (fun found c' => match found with
        | some x => if x.start = -1 then J c' else Q (some x) c'
        | none => J c') E c)
    (c : Context) (hc : J c) : wp (Form.first fs s i) Q E c := by
  induction fs generalizing c with
  | nil => exact hnone c hc
  | cons f fs ih =>
    simp only [Form.first, Form.counted, wp_bind, wp_pure]
    refine wp_mono (hform f (by simp) c hc) ?_
    intro found c' h
    have hrest : J c' → wp (Form.first fs s i) Q E c' :=
      ih (fun g hg => hform g (by simp [hg])) c'
    cases found with
    | none => exact hrest h
    | some x =>
      by_cases hx : x.start = -1
      · have hf : Option.filter (·.start != -1) (some x) = none := by simp [Option.filter, hx]
        rw [hf]
        exact hrest (by simpa [hx] using h)
      · have hf : Option.filter (·.start != -1) (some x) = some x := by simp [Option.filter, hx]
        rw [hf]
        simpa [hx] using h

end Lint

theorem Form.exists_of_first {s : Text} {i : Int} {c c' : Context} {fs : List Form} {x : Finding}
    (h : first fs s i c = (.ok (some x), c')) : ∃ f ∈ fs, ∃ c₁, f s i c₁ = (.ok (some x), c') := by
  have hfirst : Lint.wp (first fs s i)
      (fun found c' => ∀ x, found = some x → ∃ f ∈ fs, ∃ c₁, f s i c₁ = (.ok (some x), c'))
      (fun _ => True) c := by
    refine Lint.wp_first (fun _ => True) fs (by simp) ?_ c trivial
    intro f hf c₁ _
    refine Lint.wp_mono (Lint.wp_run (Lint.wp_trivial _)) ?_
    rintro found c₂ ⟨hrun, -⟩
    cases found with
    | none => trivial
    | some y =>
      simp only
      split
      · trivial
      · rintro z hz
        obtain rfl := Option.some.inj hz
        exact ⟨f, hf, c₁, hrun⟩
  exact Lint.wp_ok hfirst h x rfl

end CodeAudit
