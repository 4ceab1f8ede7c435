import CodeAudit.Failure

namespace CodeAudit

theorem rounds_again {σ ρ : Type} {round : σ → Scan (Round σ ρ)} {x y : σ}
    (h : round x = .ok (.again y)) (n : Nat) : rounds round (n + 1) x = rounds round n y := by
  rw [rounds, h]
  rfl

theorem rounds_done {σ ρ : Type} {round : σ → Scan (Round σ ρ)} {x : σ} {r : ρ}
    (h : round x = .ok (.done r)) (n : Nat) : rounds round (n + 1) x = .ok r := by
  rw [rounds, h]
  rfl

/-- A scan that stays in `I` and whose rounds make something smaller comes to an end. What a round
passes back from the rounds after it then holds of the result. -/
theorem rounds_of_smaller_in {σ ρ : Type} {round : σ → Scan (Round σ ρ)} (I : σ → Prop)
    (size : σ → Nat) {P : σ → ρ → Prop}
    (hround : ∀ x, I x → (∃ r, round x = .ok (.done r) ∧ P x r) ∨
      ∃ y, round x = .ok (.again y) ∧ I y ∧ size y < size x ∧ ∀ r, P y r → P x r)
    (states : Nat) (x : σ) (hI : I x) (hx : size x < states) :
    ∃ r, rounds round states x = .ok r ∧ P x r := by
  induction states generalizing x with
  | zero => omega
  | succ states ih =>
    obtain ⟨r, hr, hP⟩ | ⟨y, hy, hIy, hlt, hP⟩ := hround x hI
    · exact ⟨r, rounds_done hr states, hP⟩
    · obtain ⟨r, hr, hPy⟩ := ih y hIy (by omega)
      exact ⟨r, (rounds_again hy states).trans hr, hP r hPy⟩

theorem rounds_of_smaller {σ ρ : Type} {round : σ → Scan (Round σ ρ)} (size : σ → Nat)
    {P : σ → ρ → Prop}
    (hround : ∀ x, (∃ r, round x = .ok (.done r) ∧ P x r) ∨
      ∃ y, round x = .ok (.again y) ∧ size y < size x ∧ ∀ r, P y r → P x r)
    (states : Nat) (x : σ) (hx : size x < states) :
    ∃ r, rounds round states x = .ok r ∧ P x r := by
  refine rounds_of_smaller_in (fun _ => True) size ?_ states x trivial hx
  intro x _
  refine (hround x).imp id ?_
  rintro ⟨y, hy, h⟩
  exact ⟨y, hy, trivial, h⟩

namespace Scan

variable {α β : Type} {Q Q' : α → Prop}

theorem eq_ok_of_toOption {ε : Type} {x : Except ε α} {a : α} (h : x.toOption = some a) :
    x = .ok a := by
  cases x with
  | error e => cases h
  | ok b => rw [Option.some.inj h]

def Ensures (x : Scan α) (Q : α → Prop) : Prop :=
  ∀ a, x = .ok a → Q a

theorem ensures_mono {x : Scan α} (h : Ensures x Q) (hQ : ∀ a, Q a → Q' a) : Ensures x Q' :=
  fun a ha => hQ a (h a ha)

@[simp] theorem ensures_pure (a : α) : Ensures (pure a) Q ↔ Q a := by
  constructor
  · intro h
    exact h a rfl
  · intro h b hb
    obtain rfl : a = b := Except.ok.inj hb
    exact h

@[simp] theorem ensures_throw (e : Failure) : Ensures (throw e : Scan α) Q ↔ True := by
  refine ⟨fun _ => trivial, fun _ a ha => ?_⟩
  cases ha

@[simp] theorem ensures_bind (x : Scan β) (f : β → Scan α) :
    Ensures (x >>= f) Q ↔ Ensures x fun b => Ensures (f b) Q := by
  cases x with
  | error e =>
    refine ⟨fun _ b hb => ?_, fun _ a ha => ?_⟩
    · cases hb
    · cases ha
  | ok b =>
    constructor
    · intro h b' hb
      obtain rfl : b = b' := Except.ok.inj hb
      exact h
    · intro h
      exact h b rfl

theorem ensures_rounds {σ ρ : Type} {round : σ → Scan (Round σ ρ)} {Q : ρ → Prop} (I : σ → Prop)
    (hround : ∀ x, I x →
      Ensures (round x) fun z => match z with | .done r => Q r | .again y => I y)
    (states : Nat) (x : σ) (hx : I x) : Ensures (rounds round states x) Q := by
  induction states generalizing x with
  | zero => exact (ensures_throw _).mpr trivial
  | succ states ih =>
    rw [rounds, ensures_bind]
    refine ensures_mono (hround x hx) ?_
    intro z hz
    cases z with
    | done r => exact (ensures_pure r).mpr hz
    | again y => exact ih y hz

end Scan

end CodeAudit
