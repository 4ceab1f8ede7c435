import CodeAudit.Class
import CodeAudit.Proofs.Rounds

namespace CodeAudit

namespace Failure

def escaping : List Failure :=
  [.outOfRange, .noToken, .openClass, .noBody, .namelessInclude, .nestedInItself, .endless]

def OfText (e : Failure) : Prop := e = .malformed ∨ e ∈ escaping

theorem malformed_ofText : OfText .malformed := .inl rfl

theorem ofText_of_mem {e : Failure} (h : e ∈ escaping) : e.OfText := .inr h

end Failure

namespace Scan

variable {α β : Type}

def Confined (x : Scan α) : Prop := ∀ e, x = .error e → e.OfText

namespace Confined

theorem ok (a : α) : Confined (.ok a : Scan α) := fun _ h => by cases h

theorem pure (a : α) : Confined (Pure.pure a : Scan α) := ok a

theorem error {e : Failure} (he : e.OfText) : Confined (.error e : Scan α) := by
  intro d hd
  rwa [← Except.error.inj hd]

theorem malformed : Confined (MonadExcept.throw .malformed : Scan α) :=
  error Failure.malformed_ofText

theorem bind {x : Scan β} {f : β → Scan α} (hx : Confined x) (hf : ∀ b, Confined (f b)) :
    Confined (x >>= f) := by
  intro e he
  cases x with
  | error d =>
    obtain rfl : d = e := Except.error.inj he
    exact hx d rfl
  | ok b => exact hf b e he

theorem ite {p : Prop} [Decidable p] {x y : Scan α} (hx : Confined x) (hy : Confined y) :
    Confined (if p then x else y) := by
  split
  · exact hx
  · exact hy

theorem ite_throw' {p : Prop} [Decidable p] {f : Unit → Scan α} (hf : Confined (f ())) :
    Confined (if p then f () else MonadExcept.throw .malformed >>= f) :=
  .ite hf (malformed.bind fun _ => hf)

theorem ite_throw {p : Prop} [Decidable p] {f : Unit → Scan α} (hf : Confined (f ())) :
    Confined (if p then MonadExcept.throw .malformed >>= f else f ()) :=
  .ite (malformed.bind fun _ => hf) hf

theorem rounds {σ ρ : Type} {round : σ → Scan (Round σ ρ)} (h : ∀ x, Confined (round x))
    (states : Nat) (x : σ) : Confined (CodeAudit.rounds round states x) := by
  induction states generalizing x with
  | zero => exact error (Failure.ofText_of_mem (by decide))
  | succ states ih =>
    apply (h x).bind
    intro z
    cases z with
    | done r => exact pure r
    | again y => exact ih y

end Confined

end Scan

open Scan

theorem Text.charAt_confined (s : Text) (i : Int) : Confined (s.charAt i) := by
  unfold charAt
  split
  · exact .ok _
  · exact .error (Failure.ofText_of_mem (by decide))

theorem Text.onward_confined (s : Text) (i : Int) : Confined (s.onward i) := by
  unfold onward
  split
  · exact .ok _
  · exact .error (Failure.ofText_of_mem (by decide))

theorem Text.nextInk_confined (s : Text) (i : Int) : Confined (s.nextInk i) := by
  apply (onward_confined s i).bind
  intro t
  split
  · exact .pure _
  · exact .pure _

theorem Token.next_confined (s : Text) (i : Int) : Confined (Token.next s i) := by
  unfold next
  split
  · exact .ok _
  · exact .error (Failure.ofText_of_mem (by decide))

theorem Bracket.partner_confined (b : Bracket) (s : Text) (i : Int) : Confined (b.partner s i) := by
  apply (s.charAt_confined i).bind
  intro c
  apply Confined.ite_throw'
  apply (s.onward_confined i).bind
  intro t
  split
  · exact .pure _
  · exact .pure _

namespace Statement

variable (s : Text) (i : Int)

theorem braced_confined (p : Pattern) : Confined (braced p s i) := by
  unfold braced
  split
  · exact .pure _
  · exact (Bracket.partner_confined _ _ _).bind fun _ => .pure _

theorem forStatement_confined : Confined (forStatement s i) :=
  (braced_confined s i _).bind fun _ => .ite_throw (.pure _)

theorem doStatement_confined : Confined (doStatement s i) := by
  apply (braced_confined s i _).bind
  intro found
  cases found with
  | none => exact .pure _
  | some span =>
    apply (s.charAt_confined _).bind
    intro c
    apply Confined.ite_throw
    exact (Token.next_confined s _).bind fun _ => .ite_throw' (.pure _)

theorem foreachStatement_confined : Confined (foreachStatement s i) := by
  unfold foreachStatement
  split
  · apply (Bracket.partner_confined _ _ _).bind
    intro head
    exact (Bracket.partner_confined _ _ _).bind fun _ => .pure _
  · exact .pure _

theorem struct_confined : Confined (struct s i) := by
  apply (braced_confined s i _).bind
  intro found
  cases found with
  | none => exact .pure _
  | some span =>
    apply Confined.ite_throw
    exact (s.charAt_confined _).bind fun _ => .ite_throw (.pure _)

theorem branchEnd_confined (t : Token) : Confined (branchEnd s t i) := by
  unfold branchEnd
  split
  · exact (Bracket.partner_confined _ _ _).bind fun _ => .ite_throw (.pure _)
  · exact .pure _

theorem elseRound_confined : Confined (elseRound s i) := by
  have hagain : ∀ (t : Token) (j : Int), Confined (do return .again (← branchEnd s t j) :
      Scan (Round Int Int)) := fun t j => (branchEnd_confined s j t).bind fun _ => .pure _
  apply (Token.next_confined s _).bind
  intro t
  apply Confined.ite _ (.pure _)
  apply (Token.next_confined s _).bind
  intro u
  apply Confined.ite _ (hagain u _)
  apply (Token.next_confined s _).bind
  intro v
  apply Confined.ite_throw'
  apply (Bracket.partner_confined _ _ _).bind
  intro head
  exact (Token.next_confined s _).bind fun w => hagain w _

theorem ifStatement_confined : Confined (ifStatement s i) := by
  unfold ifStatement
  split
  · apply (Bracket.partner_confined _ _ _).bind
    intro head
    apply Confined.ite_throw
    apply (Token.next_confined s _).bind
    intro t
    apply (branchEnd_confined s _ t).bind
    intro stop
    exact (Confined.rounds (elseRound_confined s) _ _).bind fun _ => .pure _
  · exact .pure _

end Statement

namespace Nesting

variable (s : Text)

theorem measured_confined (i : Int) : ∀ x ∈ measured, Confined (x.2 s i) := by
  simp only [measured, List.forall_mem_cons, List.not_mem_nil, false_implies, implies_true,
    and_true]
  exact ⟨Statement.ifStatement_confined s i, Statement.forStatement_confined s i,
    Statement.braced_confined s i _, Statement.braced_confined s i _⟩

theorem first?_confined (i : Int) (forms : List (String × (Text → Int → Scan (Option Span))))
    (h : ∀ x ∈ forms, Confined (x.2 s i)) : Confined (first? s i forms) := by
  induction forms with
  | nil => exact .pure _
  | cons x forms ih =>
    apply (h x List.mem_cons_self).bind
    intro found
    cases found with
    | none => exact ih fun y hy => h y (List.mem_cons_of_mem _ hy)
    | some span => exact .pure _

theorem round_confined {inner : String → Span → Scan (Nat × List Report)}
    (h : ∀ keyword span, Confined (inner keyword span)) (stop : Int) (c : Count) :
    Confined (round inner s stop c) := by
  apply Confined.ite _ (.pure _)
  apply (first?_confined s c.pos measured (measured_confined s c.pos)).bind
  intro found
  cases found with
  | none => exact .pure _
  | some x => exact (h x.1 x.2).bind fun _ => .pure _

theorem measure_confined (depth : Nat) (keyword : String) (span : Span) :
    Confined (measure s depth keyword span) := by
  induction depth generalizing keyword span with
  | zero => exact .error (Failure.ofText_of_mem (by decide))
  | succ depth ih =>
    apply (Bracket.partner_confined _ _ _).bind
    intro head
    apply (Confined.rounds (round_confined s ih span.stop) _ _).bind
    intro c
    exact .ite (.pure _) (.pure _)

end Nesting

namespace Variable

variable (s : Text)

theorem declared_confined : Confined (declared s) := by
  unfold declared
  split
  · exact .ok _
  · exact .malformed

theorem localRule?_confined : Confined (localRule? s) :=
  (declared_confined s).bind fun _ => .ite (.pure _) (.ite (.pure _) (.pure _))

theorem rawPointerRule?_confined : Confined (rawPointerRule? s) :=
  (declared_confined s).bind fun _ => .ite (.pure _) (.pure _)

theorem parameterRound_confined (i j : Int) : Confined (parameterRound s j i) := by
  apply Confined.ite
  · split
    · exact .pure _
    · exact (s.charAt_confined _).bind fun _ => .ite (.pure _) (.pure _)
  · exact .pure _

theorem parameterRule?_confined (i j : Int) : Confined (parameterRule? s i j) := by
  apply (s.charAt_confined i).bind
  intro c
  apply Confined.ite_throw'
  apply (s.charAt_confined j).bind
  intro d
  exact .ite_throw' (.rounds (fun k => parameterRound_confined s k j) _ _)

end Variable

namespace Declaration

variable (s : Text) (i : Int)

theorem macroEnd_confined : Confined (macroEnd s i) := by
  apply Confined.rounds
  intro j
  exact (s.charAt_confined _).bind fun _ => .ite (.pure _) (.pure _)

theorem headEnd_confined : Confined (headEnd s i) := by
  unfold headEnd
  split
  · exact .ok _
  · exact .ite (.ok _) (.error (Failure.ofText_of_mem (by decide)))

theorem memberTypeReport?_confined (text : Text) (line : Int) :
    Confined (memberTypeReport? s i text line) := by
  unfold memberTypeReport?
  dsimp only
  split
  · exact .pure _
  · apply (Variable.rawPointerRule?_confined text).bind
    intro rule
    cases rule with
    | some rule => exact .pure _
    | none =>
      dsimp only
      split
      · exact .pure _
      · exact .pure _

end Declaration

namespace Class

theorem nameReports_confined (name : Text) (line : Int) : Confined (nameReports name line) :=
  (name.charAt_confined 3).bind fun _ => .pure _

theorem colonRule?_confined (s : Text) (next : Int) : Confined (colonRule? s next) := by
  apply (s.charAt_confined _).bind
  intro c
  apply Confined.ite (.pure _)
  apply (s.charAt_confined _).bind
  intro d
  apply Confined.ite (.pure _)
  exact (s.charAt_confined _).bind fun _ => .ite (.pure _) (.pure _)

end Class

end CodeAudit
