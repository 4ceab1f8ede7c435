import CodeAudit.Proofs.Lint.Forms
import CodeAudit.Proofs.Lint.Logic

namespace CodeAudit

variable {α β σ ρ : Type}

namespace Scan

def Refined (x y : Scan α) : Prop := ∀ a, x = .ok a → y = .ok a

theorem Refined.refl (x : Scan α) : Refined x x := fun _ => id

theorem Refined.of_eq {x y : Scan α} (h : y = x) : Refined x y := h ▸ Refined.refl x

theorem refined_throw (e : Failure) (y : Scan α) : Refined (throw e) y := by
  intro a h
  cases h

theorem refined_throw_bind (e : Failure) (f : β → Scan α) (y : Scan α) :
    Refined (throw e >>= f) y := by
  intro a h
  cases h

theorem Refined.of_fails {x : Scan α} (h : Ensures x fun _ => False) (y : Scan α) : Refined x y :=
  fun a ha => (h a ha).elim

theorem Refined.bind {x y : Scan β} {f g : β → Scan α} (hx : Refined x y)
    (hf : ∀ b, x = .ok b → Refined (f b) (g b)) : Refined (x >>= f) (y >>= g) := by
  intro a h
  cases hb : x with
  | error e =>
    rw [hb] at h
    cases h
  | ok b =>
    rw [hb] at h
    rw [hx b hb]
    exact hf b hb a h

theorem Refined.ite {p : Prop} [Decidable p] {x y x' y' : Scan α} (hx : p → Refined x x')
    (hy : ¬p → Refined y y') : Refined (if p then x else y) (if p then x' else y') := by
  by_cases h : p
  · rw [if_pos h, if_pos h]
    exact hx h
  · rw [if_neg h, if_neg h]
    exact hy h

theorem Refined.rounds {round round' : σ → Scan (Round σ ρ)} (I : σ → Prop)
    (hround : ∀ x, I x → Refined (round x) (round' x))
    (hkeep : ∀ x, I x → Ensures (round x) fun z => ∀ y, z = .again y → I y)
    {n m : Nat} (hnm : n ≤ m) (x : σ) (hx : I x) :
    Refined (rounds round n x) (rounds round' m x) := by
  induction n generalizing m x with
  | zero => exact refined_throw _ _
  | succ n ih =>
    obtain ⟨m, rfl⟩ : ∃ k, m = k + 1 := ⟨m - 1, by omega⟩
    apply Refined.bind (hround x hx)
    intro z hz
    cases z with
    | done r => exact Refined.refl _
    | again y => exact ih (by omega) y (hkeep x hx _ hz y rfl)

end Scan

namespace Lint

variable {Q : β → Prop} {R : α → Prop}

theorem bind_eq_ok {x : Lint β} {f : β → Lint α} {c c' : Context} {a : α}
    (h : (x >>= f) c = (.ok a, c')) :
    ∃ b d, x c = (.ok b, d) ∧ f b d = (.ok a, c') := by
  have hbind : (x >>= f) c = ExceptT.bindCont f (x c).1 (x c).2 := rfl
  rcases hx : x c with ⟨e | b, d⟩
  · rw [hbind, hx] at h
    cases h
  · rw [hbind, hx] at h
    exact ⟨b, d, rfl, h⟩

/-- Results of `x` that meet `R` are results of `y` too, with the same context after them. -/
def RefinedOn (R : α → Prop) (x y : Lint α) : Prop :=
  ∀ c a c', x c = (.ok a, c') → R a → y c = (.ok a, c')

namespace RefinedOn

theorem refl (x : Lint α) : RefinedOn R x x := fun _ _ _ h _ => h

theorem of_eq {x y : Lint α} (h : y = x) : RefinedOn R x y := by
  rw [h]
  exact refl x

theorem mono {R' : α → Prop} {x y : Lint α} (h : RefinedOn R x y) (hR : ∀ a, R' a → R a) :
    RefinedOn R' x y := fun c a c' hx ha => h c a c' hx (hR a ha)

theorem throw (e : Failure) (y : Lint α) : RefinedOn R (MonadExcept.throw e) y := by
  intro c a c' h
  cases h

theorem throw_bind (e : Failure) (f : β → Lint α) (y : Lint α) :
    RefinedOn R (MonadExcept.throw e >>= f) y := by
  intro c a c' h
  cases h

theorem of_not {x : Lint α} (y : Lint α)
    (h : ∀ c, wp x (fun a _ => ¬R a) (fun _ => True) c) : RefinedOn R x y :=
  fun c _ _ hx ha => absurd ha (wp_ok (h c) hx)

theorem bind_on {x y : Lint β} {f g : β → Lint α} (hx : RefinedOn Q x y)
    (hf : ∀ c b d, x c = (.ok b, d) → RefinedOn R (f b) (g b))
    (hQ : ∀ b d a c', f b d = (.ok a, c') → R a → Q b) : RefinedOn R (x >>= f) (y >>= g) := by
  intro c a c' h ha
  obtain ⟨b, d, hb, hfb⟩ := bind_eq_ok h
  rw [bind_ok (hx c b d hb (hQ b d a c' hfb ha))]
  exact hf c b d hb d a c' hfb ha

theorem bind {x y : Lint β} {f g : β → Lint α} (hx : RefinedOn (fun _ => True) x y)
    (hf : ∀ b, RefinedOn R (f b) (g b)) : RefinedOn R (x >>= f) (y >>= g) :=
  bind_on hx (fun _ b _ _ => hf b) fun _ _ _ _ _ _ => trivial

theorem bind_run {x y : Lint β} {f g : β → Lint α} (hx : RefinedOn (fun _ => True) x y)
    (hf : ∀ c b d, x c = (.ok b, d) → RefinedOn R (f b) (g b)) :
    RefinedOn R (x >>= f) (y >>= g) :=
  bind_on hx hf fun _ _ _ _ _ _ => trivial

theorem lift_bind {x y : Scan β} {f g : β → Lint α} (hx : x.Refined y)
    (hf : ∀ b, x = .ok b → RefinedOn R (f b) (g b)) :
    RefinedOn R ((liftM x : Lint β) >>= f) ((liftM y : Lint β) >>= g) := by
  refine bind_on (Q := fun _ => True) ?_ ?_ (fun _ _ _ _ _ _ => trivial)
  · intro c b d h _
    have hlift : (liftM x : Lint β) c = (x, c) := rfl
    obtain ⟨hb, rfl⟩ := Prod.mk.inj (hlift.symm.trans h)
    rw [hx b hb]
    rfl
  · intro c b d h
    exact hf b (congrArg Prod.fst h)

theorem ite {p : Prop} [Decidable p] {x y x' y' : Lint α} (hx : p → RefinedOn R x x')
    (hy : ¬p → RefinedOn R y y') : RefinedOn R (if p then x else y) (if p then x' else y') := by
  by_cases h : p
  · rw [if_pos h, if_pos h]
    exact hx h
  · rw [if_neg h, if_neg h]
    exact hy h

end RefinedOn

theorem rounds_eq_ok {round : σ → Lint (Round σ ρ)} {n : Nat} {x : σ} {c c' : Context} {r : ρ}
    (h : rounds round n x c = (.ok r, c')) :
    ∃ k z d, n = k + 1 ∧ round x c = (.ok z, d) ∧ match z with
      | .done r' => r' = r ∧ d = c'
      | .again y => rounds round k y d = (.ok r, c') := by
  cases n with
  | zero => cases h
  | succ n =>
    rw [rounds] at h
    obtain ⟨z, d, hz, hrest⟩ := bind_eq_ok h
    refine ⟨n, z, d, rfl, hz, ?_⟩
    cases z with
    | done r' =>
      obtain ⟨hr, hd⟩ := Prod.mk.inj hrest
      exact ⟨Except.ok.inj hr, hd⟩
    | again y => exact hrest

theorem rounds_refined {round round' : σ → Lint (Round σ ρ)} {R : ρ → Prop} (I : σ → Prop)
    (hdone : ∀ x c r d, I x → round x c = (.ok (.done r), d) → R r →
      ∀ m, rounds round' (m + 2) x c = (.ok r, d))
    (hagain : ∀ x c y d, I x → round x c = (.ok (.again y), d) →
      (∃ n r c', rounds round n y d = (.ok r, c') ∧ R r) → round' x c = (.ok (.again y), d) ∧ I y)
    {n m : Nat} (hnm : n < m) (x : σ) (hx : I x) :
    RefinedOn R (rounds round n x) (rounds round' m x) := by
  induction n generalizing m x with
  | zero => exact RefinedOn.throw _ _
  | succ n ih =>
    intro c r c' h hr
    obtain ⟨k, z, d, hk, hz, hrest⟩ := rounds_eq_ok h
    obtain rfl : n = k := by omega
    cases z with
    | done r' =>
      obtain ⟨rfl, rfl⟩ := hrest
      obtain ⟨m, rfl⟩ : ∃ k, m = k + 2 := ⟨m - 2, by omega⟩
      exact hdone x c r' d hx hz hr m
    | again y =>
      obtain ⟨m, rfl⟩ : ∃ k, m = k + 1 := ⟨m - 1, by omega⟩
      obtain ⟨hround, hy⟩ := hagain x c y d hx hz ⟨n, r, c', hrest, hr⟩
      rw [rounds, bind_ok hround]
      exact ih (by omega) y hy d r c' hrest hr

theorem RefinedOn.rounds {round round' : σ → Lint (Round σ ρ)} {R : ρ → Prop} (I : σ → Prop)
    (hround : ∀ x, I x → RefinedOn (fun _ => True) (round x) (round' x))
    (hkeep : ∀ x c, I x → wp (round x) (fun z _ => ∀ y, z = .again y → I y) (fun _ => True) c)
    {n m : Nat} (hnm : n < m) (x : σ) (hx : I x) :
    RefinedOn R (CodeAudit.rounds round n x) (CodeAudit.rounds round' m x) := by
  apply rounds_refined I ?_ ?_ hnm x hx
  · intro x c r d hx hdone _ m
    rw [CodeAudit.rounds, bind_ok (hround x hx c _ d hdone trivial)]
    rfl
  · intro x c y d hx hagain _
    exact ⟨hround x hx c _ d hagain trivial, wp_ok (hkeep x c hx) hagain y rfl⟩

open RefinedOn

variable {s s' : Text} {i : Int} {P : Finding → Prop}

theorem counted_refined {f : Form}
    (hf : RefinedOn (fun found => ∀ x, found = some x → x.start ≠ -1 → P x) (f s i) (f s' i)) :
    RefinedOn (fun found => ∀ x, found = some x → P x) (f.counted s i) (f.counted s' i) := by
  apply bind_on hf
  · intro _ found _ _
    exact refl _
  · intro found d a c' h ha x hx hstart
    obtain rfl : found.filter (·.start != -1) = a := Except.ok.inj (congrArg Prod.fst h)
    apply ha x
    rw [hx]
    simp [Option.filter, hstart]

theorem first_refined (fs : List Form)
    (hfs : ∀ f ∈ fs,
      RefinedOn (fun found => ∀ x, found = some x → x.start ≠ -1 → P x) (f s i) (f s' i)) :
    RefinedOn (fun found => ∀ x, found = some x → P x) (Form.first fs s i)
      (Form.first fs s' i) := by
  induction fs with
  | nil => exact refl _
  | cons f fs ih =>
    apply bind_on (counted_refined (hfs f List.mem_cons_self))
    · intro _ found _ _
      cases found with
      | none => exact ih fun g hg => hfs g (List.mem_cons_of_mem _ hg)
      | some x => exact refl _
    · rintro found d a c' h ha x rfl
      obtain rfl : some x = a := Except.ok.inj (congrArg Prod.fst h)
      exact ha x rfl

theorem ofScan_refined {R : Option Finding → Prop} {f : Text → Int → Scan (Option Span)}
    (hf : (f s i).Refined (f s' i)) : RefinedOn R (Form.ofScan f s i) (Form.ofScan f s' i) :=
  lift_bind hf fun _ _ => refl _

theorem ofSpan_refined {R : Option Finding → Prop} {f : Text → Int → Option Span}
    (hf : f s' i = f s i) : RefinedOn R (Form.ofSpan f s i) (Form.ofSpan f s' i) := by
  rw [Form.ofSpan, Form.ofSpan, hf]
  exact refl _

end Lint

end CodeAudit
