import CodeAudit.Proofs.Body.Statements
import CodeAudit.Proofs.Lint.Forms
import CodeAudit.Proofs.Shape.Declared
import Mathlib.Data.List.DropRight

namespace CodeAudit.Body

open Pattern

variable {s w : Text} {m : Match} {i : Int} {c c' : Context}

def passed (c : Char) : Bool := ['=', '+', '-', '*', '/', ' '].contains c

structure ScannedTo (told left : Text) : Prop where
  rest : ∃ cut, told = left ++ cut ∧ ∀ c ∈ cut, passed c = true
  two_le : 2 ≤ left.length
  stopped : left.length = 2 ∨ ∃ c ∈ left.getLast?, passed c = false

theorem leftSide_scannedTo (h : 2 ≤ (m.text s).length) : ScannedTo (m.text s) (leftSide s m) := by
  unfold leftSide Match.text at *
  generalize (s.take m.stop).drop m.start = told at *
  match told, h with
  | c :: d :: rest, _ =>
    change ScannedTo _ (c :: if ((d :: rest).rdropWhile passed).isEmpty then [d] else
      (d :: rest).rdropWhile passed)
    have hsplit := List.rdropWhile_append_rtakeWhile (p := passed) (l := d :: rest)
    split
    · rename_i hempty
      have hall := List.rdropWhile_eq_nil_iff.mp (List.isEmpty_iff.mp hempty)
      exact ⟨⟨rest, rfl, fun e he => hall e (List.mem_cons_of_mem _ he)⟩, Nat.le_refl 2, .inl rfl⟩
    · rename_i hkept
      have hne : (d :: rest).rdropWhile passed ≠ [] := by simpa using hkept
      refine ⟨⟨(d :: rest).rtakeWhile passed, ?_, ?_⟩, ?_,
        .inr ⟨((d :: rest).rdropWhile passed).getLast hne, ?_, ?_⟩⟩
      · rw [List.cons_append, hsplit]
      · intro e he
        exact List.mem_rtakeWhile_imp he
      · have hpos := List.length_pos_iff.mpr hne
        rw [List.length_cons]
        omega
      · rw [List.getLast?_cons_of_ne_nil hne]
        exact List.getLast?_eq_getLast_of_ne_nil hne
      · exact Bool.eq_false_iff.mpr (List.rdropWhile_last_not passed _ hne)

theorem assignment_reads (h : Shape.assignment.Reads w) :
    2 ≤ w.length ∧ ∃ u v, w = u ++ v ∧ (∀ c ∈ u, Text.isWord c = true) ∧
      ∀ c ∈ v, Text.isWord c = false := by
  obtain ⟨_, _, rfl, ⟨u, v, rfl, hu, hv⟩, rfl⟩ := h
  have hpos : 1 ≤ u.length := hu.2
  refine ⟨by simp; omega, u, v ++ ['='], List.append_assoc .., hu.1, ?_⟩
  intro c hc
  rcases List.mem_append.mp hc with hc | hc
  · exact Text.isWord_of_isBlank (hv.1 c hc)
  · obtain rfl := List.mem_singleton.mp hc
    decide

theorem leftSide_undeclared (h : Shape.assignment.matchAt s i = some m) :
    ScannedTo (m.text s) (leftSide s m) ∧
      Shape.variableDeclaration.matchAt (leftSide s m) 0 = none := by
  obtain ⟨hlen, u, v, htext, hu, hv⟩ := assignment_reads (reads_text_of_matchAt (by decide) h)
  have hscan := leftSide_scannedTo hlen
  obtain ⟨cut, hcut, -⟩ := hscan.rest
  refine ⟨hscan, Shape.variableDeclaration_of_word hu hv ?_⟩
  rw [← htext, hcut]
  exact List.prefix_append _ _

theorem assignment_eq (h : Shape.assignment.matchAt s i = some m) :
    assignment s i = pure (some ⟨⟨m.start, s.find ';' m.stop⟩, []⟩) := by
  simp only [assignment, h, (leftSide_undeclared h).2]
  rfl

theorem reports_of_assignment {x : Finding} (h : assignment s i c = (.ok (some x), c')) :
    x.reports = [] := by
  cases hm : Shape.assignment.matchAt s i with
  | none =>
    rw [assignment, hm] at h
    cases h
  | some m =>
    rw [assignment_eq hm] at h
    cases h
    rfl

def earlier : List Form := forms.take 12

def later : List Form := forms.drop 13

theorem forms_eq_earlier : forms = earlier ++ assignment :: later := rfl

theorem round_of_assignment {start stop line : Int} {x : State} (hx : x.pos < stop)
    (hpos : s.nextInk (x.pos + 1) = .ok i)
    (habsent : Form.first earlier s i { c with line := line + s.lineBreaks start i } =
      (.ok none, c'))
    (hm : Shape.assignment.matchAt s i = some m) :
    round s start stop line x c = (.ok (.again ⟨s.find ';' m.stop + 1, x.reports⟩), c') := by
  have hfound : Form.first forms s i { c with line := line + s.lineBreaks start i } =
      (.ok (some ⟨⟨m.start, s.find ';' m.stop⟩, []⟩), c') := by
    have hassigned : assignment s i c' = (.ok (some ⟨⟨m.start, s.find ';' m.stop⟩, []⟩), c') := by
      rw [assignment_eq hm]
      rfl
    rw [forms_eq_earlier, Form.first_append, Lint.bind_ok habsent]
    dsimp only
    rw [Form.first, Lint.bind_ok (Form.counted_of_found hassigned (by simp))]
    rfl
  rw [round, if_pos hx, hpos, Lint.lift_ok_bind, Lint.setLine_bind, Lint.bind_ok hfound]
  simp only [List.append_nil]
  rfl

def ToldBy (fs : List Form) (s : Text) (r : Report) : Prop :=
  ∃ f ∈ fs, ∃ (i : Int) (c c' : Context) (x : Finding), f s i c = (.ok (some x), c') ∧ r ∈ x.reports

theorem toldBy_of_first {x : Finding} (h : Form.first forms s i c = (.ok (some x), c')) :
    ∀ r ∈ x.reports, ToldBy (earlier ++ later) s r := by
  intro r hr
  obtain ⟨f, hf, c₁, hrun⟩ := Form.exists_of_first h
  rw [forms_eq_earlier, List.mem_append, List.mem_cons] at hf
  rcases hf with hf | rfl | hf
  · exact ⟨f, List.mem_append_left _ hf, i, c₁, c', x, hrun, hr⟩
  · rw [reports_of_assignment hrun] at hr
    cases hr
  · exact ⟨f, List.mem_append_right _ hf, i, c₁, c', x, hrun, hr⟩

theorem round_toldBy {start stop line : Int} {x : State}
    (hx : ∀ r ∈ x.reports, ToldBy (earlier ++ later) s r) :
    Lint.wp (round s start stop line x) (fun z _ => match z with
      | .done reports => ∀ r ∈ reports, ToldBy (earlier ++ later) s r
      | .again y => ∀ r ∈ y.reports, ToldBy (earlier ++ later) s r) (fun _ => True) c := by
  unfold round
  split
  · simp only [Lint.wp_bind, Lint.wp_lift_ensures, Lint.wp_setLine]
    intro pos _
    refine Lint.wp_mono (Lint.wp_run (Lint.wp_trivial _)) ?_
    rintro found c' ⟨hrun, -⟩
    cases found with
    | some y =>
      intro r hr
      rcases List.mem_append.mp hr with hr | hr
      · exact hx r hr
      · exact toldBy_of_first hrun r hr
    | none =>
      simp only
      split
      · exact hx
      · exact hx
  · exact hx

theorem check_toldBy (s : Text) (i : Int) (c : Context) :
    Lint.wp (check s i) (fun x _ => ∀ r ∈ x.reports, ToldBy (earlier ++ later) s r)
      (fun _ => True) c := by
  simp only [check, Lint.wp_bind, Lint.wp_lift_ensures]
  intro e _
  split
  · simp only [Lint.wp_bind, Lint.wp_throw]
  · simp only [Lint.wp_bind, Lint.wp_lift_ensures, Lint.wp_currentLine, Lint.wp_pure]
    intro stop _
    refine Lint.wp_rounds (fun x _ => ∀ r ∈ x.reports, ToldBy (earlier ++ later) s r) (by simp) ?_
      _ _ c (by simp)
    intro x c' hx
    refine Lint.wp_mono (round_toldBy hx) ?_
    intro z _ hz
    cases z with
    | done reports => exact hz
    | again y => exact hz

/-- The left side of an assignment is never found to be a declaration: the assignment is a step to
the next semicolon and no more, and all reports on a body are on other statements. -/
theorem assignment_only_moves (s : Text) (i : Int) (m : Match)
    (h : Shape.assignment.matchAt s i = some m) :
    ScannedTo (m.text s) (leftSide s m) ∧
      Shape.variableDeclaration.matchAt (leftSide s m) 0 = none ∧
      (∀ c, assignment s i c = (.ok (some ⟨⟨m.start, s.find ';' m.stop⟩, []⟩), c)) ∧
      (∀ (start stop line : Int) (x : State) (c c' : Context), x.pos < stop →
        s.nextInk (x.pos + 1) = .ok i →
        Form.first earlier s i { c with line := line + s.lineBreaks start i } = (.ok none, c') →
        round s start stop line x c = (.ok (.again ⟨s.find ';' m.stop + 1, x.reports⟩), c')) ∧
      ∀ (start : Int) (c c' : Context) (x : Finding), check s start c = (.ok x, c') →
        ∀ r ∈ x.reports, ToldBy (earlier ++ later) s r := by
  obtain ⟨hscan, hnone⟩ := leftSide_undeclared h
  refine ⟨hscan, hnone, ?_, ?_, ?_⟩
  · intro c
    rw [assignment_eq h]
    rfl
  · intro start stop line x c c' hx hpos habsent
    exact round_of_assignment hx hpos habsent h
  · intro start c c' x hcheck
    exact Lint.wp_ok (check_toldBy s start c) hcheck

def tabbed : Text := "\x7bx\t= 1;\x7d".toList

def tabbedMatch : Match := ⟨1, 4, [("variable", 1, 2)]⟩

theorem tabbed_assignment_moves :
    Shape.assignment.matchAt tabbed 1 = some tabbedMatch ∧
      leftSide tabbed tabbedMatch = ['x', '\t'] ∧
      Shape.variableDeclaration.matchAt (leftSide tabbed tabbedMatch) 0 = none ∧
      round tabbed 0 8 1 ⟨0, []⟩ {} = (.ok (.again ⟨7, []⟩), { line := 1 }) := by
  have hm : Shape.assignment.matchAt tabbed 1 = some tabbedMatch := by decide +kernel
  obtain ⟨-, hnone, -, hround, -⟩ := assignment_only_moves tabbed 1 tabbedMatch hm
  exact ⟨hm, by decide, hnone, hround 0 8 1 ⟨0, []⟩ {} { line := 1 } (by decide) rfl rfl⟩

end CodeAudit.Body
