import CodeAudit.Proofs.Lint.Compositional
import CodeAudit.SourceText

namespace CodeAudit

open Lint

variable {R : (α : Type) → Lint α → Prop} (h : Compositional R) (s : Text) (i : Int)

include h

namespace Body

theorem measured_of_parts {keyword : String} {form : Text → Int → Scan (Option Span)}
    (hform : (form s i).Confined) : R _ (measured keyword form s i) := by
  apply h.bind (h.lift hform)
  intro found
  cases found with
  | none => exact h.pure _
  | some span => exact h.bind (h.lift (Nesting.measure_confined s _ _ _)) fun _ => h.pure _

theorem localReports_of_parts (declared : Text) : R _ (localReports s i declared) := by
  apply h.bind h.currentLine
  intro line
  apply h.bind (h.lift (Variable.localRule?_confined _))
  intro own
  exact h.bind (h.lift (Variable.rawPointerRule?_confined _)) fun _ => h.pure _

theorem assignment_of_parts : R _ (assignment s i) := by
  unfold assignment
  split
  · exact h.ite (h.bind (localReports_of_parts h s i _) fun _ => h.pure _)
      (h.bind (h.pure _) fun _ => h.pure _)
  · exact h.pure _

theorem declaration_of_parts : R _ (declaration s i) := by
  unfold declaration
  split
  · exact h.ite (h.pure _) (h.bind (localReports_of_parts h s i _) fun _ => h.pure _)
  · exact h.pure _

theorem rawMemory_of_parts : R _ (rawMemory s i) :=
  h.ite (h.bind h.currentLine fun _ => h.pure _) (h.pure _)

theorem plainCast_of_parts : R _ (plainCast s i) :=
  h.ite (h.bind h.currentLine fun _ => h.pure _) (h.pure _)

theorem forms_of_parts : ∀ f ∈ forms, R _ (f s i) := by
  simp only [forms, List.forall_mem_cons, List.not_mem_nil, false_implies, implies_true, and_true]
  exact ⟨measured_of_parts h s i (Statement.ifStatement_confined s i), h.ofSpan _,
    measured_of_parts h s i (Statement.forStatement_confined s i),
    h.ofScan (Statement.foreachStatement_confined s i), h.ofSpan _,
    measured_of_parts h s i (Statement.braced_confined s i _),
    h.ofScan (Statement.doStatement_confined s i), h.ofSpan _,
    measured_of_parts h s i (Statement.braced_confined s i _), rawMemory_of_parts h s i,
    h.ofSpan _, h.ofSpan _, assignment_of_parts h s i, plainCast_of_parts h s i,
    declaration_of_parts h s i⟩

theorem round_of_parts (start stop line : Int) (x : State) : R _ (round s start stop line x) := by
  unfold round
  apply h.ite _ (h.pure _)
  apply h.bind (h.lift (s.nextInk_confined _))
  intro pos
  apply h.bind (h.setLine _)
  intro _
  apply h.bind (h.first (forms_of_parts h s pos))
  intro found
  cases found with
  | some x => exact h.pure _
  | none => exact h.ite (h.pure _) (h.pure _)

theorem check_of_parts : R _ (check s i) := by
  apply h.bind (h.lift (s.charAt_confined i))
  intro c
  apply h.ite_throw
  apply h.bind (h.lift (Bracket.partner_confined _ _ _))
  intro stop
  apply h.bind h.currentLine
  intro line
  exact h.bind (h.rounds (round_of_parts h s i stop line) _ _) fun _ => h.pure _

end Body

namespace Declaration

theorem define_of_parts : R _ (define s i) := by
  unfold define
  split
  · apply h.bind (h.lift (s.nextInk_confined _))
    intro nameStart
    apply h.ite_throw
    split
    · apply h.bind h.currentLine
      intro line
      exact h.bind (h.lift (macroEnd_confined s _)) fun _ => h.pure _
    · exact h.malformed
  · exact h.pure _

theorem includeFile_of_parts : R _ (includeFile s i) := by
  unfold includeFile
  split
  · exact h.get fun _ _ => h.pure _
  · split
    · split
      · apply h.get
        intro c hc
        split
        · exact h.ite (h.pure _) (h.bind h.setOwnIncludes fun _ => h.pure _)
        · rename_i hnone
          cases hfile : c.file with
          | none => rw [hfile] at hc; cases hc
          | some name => exact absurd hfile (hnone name)
      · exact h.throw (Failure.ofText_of_mem (by decide))
    · exact h.pure _

theorem enum_of_parts : R _ (enum s i) := by
  unfold enum
  split
  · exact h.get fun _ _ => h.pure _
  · exact h.pure _

theorem typedef_of_parts : R _ (typedef s i) := by
  unfold typedef
  split
  · apply h.bind (h.lift (s.nextInk_confined _))
    intro next
    apply h.bind (enum_of_parts h s next)
    intro found
    split
    · exact h.pure _
    · apply h.bind (h.lift (Statement.struct_confined s next))
      intro span
      split
      · exact h.pure _
      · exact h.pure _
  · exact h.pure _

theorem objectMark_of_parts : R _ (objectMark s i) := by
  unfold objectMark
  split
  · apply h.bind (h.lift (s.nextInk_confined _))
    intro next
    exact h.ite (h.bind (h.pure _) fun _ => h.pure _)
      (h.bind h.currentLine fun _ => h.bind (h.pure _) fun _ => h.pure _)
  · exact h.pure _

theorem globalVariable_of_parts : R _ (globalVariable s i) := by
  unfold globalVariable
  split
  · apply h.bind h.currentLine
    intro line
    dsimp only
    split
    · exact h.bind (h.pure _) fun _ => h.pure _
    · apply h.bind (h.lift (Variable.rawPointerRule?_confined _))
      intro pointer
      exact h.bind (h.pure _) fun _ => h.pure _
  · exact h.pure _

theorem memberVariable_of_parts : R _ (memberVariable s i) := by
  unfold memberVariable
  split
  · apply h.bind h.currentLine
    intro line
    apply h.ite
    · exact h.bind (h.pure _) fun _ => h.pure _
    · apply h.bind (h.lift (memberTypeReport?_confined s i _ line))
      intro other
      exact h.bind (h.pure _) fun _ => h.pure _
  · exact h.pure _

theorem parameters_of_parts (stop start : Int) : R _ (parameters s stop start) := by
  apply h.bind (h.lift (Bracket.partner_confined _ _ _))
  intro last
  apply h.bind (h.lift (Variable.parameterRule?_confined s _ _))
  intro rule
  exact h.bind h.currentLine fun _ => h.pure _

theorem method_of_parts : R _ (method s i) := by
  unfold method
  split
  · apply h.bind (parameters_of_parts h s _ _)
    intro ⟨last, reports⟩
    apply h.bind (h.lift (headEnd_confined s _))
    intro headEnd
    cases headEnd with
    | semicolon j => exact h.pure _
    | brace j => exact h.bind (Body.check_of_parts h s j) fun _ => h.pure _
  · exact h.pure _

theorem function_of_parts : R _ (function s i) := by
  unfold function
  split
  · apply h.bind (parameters_of_parts h s _ _)
    intro ⟨last, reports⟩
    apply h.bind h.currentLine
    intro line
    apply h.bind (h.lift (headEnd_confined s _))
    intro headEnd
    cases headEnd with
    | semicolon j => exact h.pure _
    | brace j =>
      apply h.bind (h.setLine _)
      intro _
      exact h.bind (Body.check_of_parts h s j) fun _ => h.pure _
  · exact h.pure _

theorem classConstructor_of_parts : R _ (classConstructor s i) := by
  unfold classConstructor
  split
  · apply h.bind (parameters_of_parts h s _ _)
    intro ⟨last, reports⟩
    apply h.bind (h.lift (Token.next_confined s _))
    intro t
    apply h.ite (h.pure _)
    exact h.ite (h.bind (Body.check_of_parts h s _) fun _ => h.pure _) (h.pure _)
  · exact h.pure _

theorem classDestructor_of_parts : R _ (classDestructor s i) := by
  unfold classDestructor
  split
  · extract_lets text told
    have htold : ∀ own, R _ (told own) := by
      intro own
      apply h.bind (h.lift (Token.next_confined s _))
      intro t
      extract_lets ended
      have hended : ∀ stop, R _ (ended stop) := by
        intro ⟨stop, reports⟩
        exact h.bind (h.lift (Token.next_confined s _)) fun _ => h.pure _
      apply h.ite
      · apply h.bind (Body.check_of_parts h s _)
        intro body
        exact h.bind (h.pure _) hended
      · exact h.bind (h.pure _) hended
    exact h.ite (h.bind (h.pure _) htold)
      (h.bind h.currentLine fun _ => h.bind (h.pure _) htold)
  · exact h.pure _

theorem memberBody_of_parts : R _ (memberBody s i) := by
  unfold memberBody
  dsimp only
  split
  · apply h.bind (h.lift (Bracket.partner_confined _ _ _))
    intro last
    apply h.bind (h.setLine _)
    intro _
    exact h.bind (Body.check_of_parts h s _) fun _ => h.pure _
  · exact h.pure _

end Declaration

namespace Class

theorem members_of_parts : ∀ f ∈ members, R _ (f s i) := by
  simp only [members, List.forall_mem_cons, List.not_mem_nil, false_implies, implies_true, and_true]
  exact ⟨h.ofSpan _, h.ofSpan _, h.ofSpan _, h.ofSpan _, Declaration.define_of_parts h s i,
    Declaration.objectMark_of_parts h s i, Declaration.classDestructor_of_parts h s i,
    Declaration.classConstructor_of_parts h s i, Declaration.method_of_parts h s i,
    Declaration.typedef_of_parts h s i, Declaration.memberVariable_of_parts h s i⟩

theorem round_of_parts (x : State) : R _ (round s i x) := by
  apply h.ite_throw'
  apply h.bind (h.lift (s.nextInk_confined _))
  intro pos
  apply h.bind (h.lift (s.charAt_confined _))
  intro c
  apply h.ite (h.pure _)
  apply h.bind (h.setLine _)
  intro _
  apply h.bind (h.first (members_of_parts h s pos))
  intro found
  cases found with
  | some member => exact h.pure _
  | none => exact h.ite (h.pure _) (h.ite (h.pure _) (h.ite (h.pure _) (h.pure _)))

theorem check_of_parts : R _ (check s i) := by
  unfold check
  split
  · exact h.pure _
  · split
    · apply h.bind h.currentLine
      intro line
      apply h.bind (h.lift (nameReports_confined _ line))
      intro reports
      apply h.inClass
      apply h.bind (h.lift (s.nextInk_confined _))
      intro next
      apply h.bind (h.lift (colonRule?_confined s next))
      intro rule
      apply h.bind h.currentLine
      intro line
      exact h.rounds (round_of_parts h s i) _ _
    · exact h.pure _

theorem form_of_parts : R _ (form s i) := by
  apply h.bind (check_of_parts h s i)
  intro outcome
  cases outcome with
  | absent => exact h.pure _
  | unfinished => exact h.throw (Failure.ofText_of_mem (by decide))
  | found finding => exact h.pure _

end Class

namespace SourceText

theorem forms_of_parts : ∀ f ∈ forms, R _ (f s i) := by
  simp only [forms, List.forall_mem_cons, List.not_mem_nil, false_implies, implies_true, and_true]
  exact ⟨Declaration.define_of_parts h s i, Declaration.enum_of_parts h s i,
    Declaration.includeFile_of_parts h s i, Declaration.typedef_of_parts h s i,
    Class.form_of_parts h s i, Declaration.memberBody_of_parts h s i, h.ofSpan _, h.ofSpan _,
    h.ofSpan _, h.ofScan (Statement.struct_confined s i), h.ofSpan _,
    Declaration.function_of_parts h s i, Declaration.globalVariable_of_parts h s i⟩

theorem round_of_parts (x : State) : R _ (round s x) := by
  apply h.bind (h.lift (s.nextInk_confined _))
  intro pos
  apply h.ite (h.pure _)
  apply h.ite_throw'
  apply h.bind (h.setLine _)
  intro _
  apply h.bind (h.first (forms_of_parts h s pos))
  intro found
  cases found with
  | some x => exact h.pure _
  | none => exact h.ite (h.pure _) (h.pure _)

theorem check_of_parts : R _ (check s i) :=
  h.rounds (round_of_parts h s) _ _

end SourceText

end CodeAudit
