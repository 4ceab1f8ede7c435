import CodeAudit.Proofs.Nesting.Length

/-!
Control statements with their braces in lines of their own. Of all the blanks at the beginnings of
their lines only those before the closing brace have a part in the length that is told: with a blank
there the last line counts, and without one it does not.
-/

namespace CodeAudit.Nesting

structure BlockStatement where
  head : Head
  opening : Text
  lines : List PlainLine
  closing : Text
  opening_isMargin : opening.all isMargin = true
  closing_isMargin : closing.all isMargin = true

def unindented (s : Text) : List Text := (s.splitOn '\n').map fun l => l.dropWhile isMargin

namespace BlockStatement

def rows (x : BlockStatement) : List Text :=
  (x.head.margin ++ x.head.title) :: (x.opening ++ ['{']) ::
    (x.lines.map PlainLine.text ++ [x.closing ++ ['}']])

def text (x : BlockStatement) : Text := ['\n'].intercalate x.rows

/-- One for each line after that of the head, but none for a closing brace at the beginning of its
line. -/
def length (x : BlockStatement) : Nat :=
  1 + x.lines.length + if x.closing = [] then 0 else 1

def reports (x : BlockStatement) (before : Text) : List Report := x.head.reports before x.length

end BlockStatement

variable {s u v w before after : Text} {n : Nat} {lines : List PlainLine}

def linesText (lines : List PlainLine) : Text := lines.flatMap fun l => l.text ++ ['\n']

theorem linesText_cons (l : PlainLine) (lines : List PlainLine) :
    linesText (l :: lines) = l.text ++ '\n' :: linesText lines := by
  simp [linesText]

theorem intercalate_lines (lines : List PlainLine) (w : Text) :
    ['\n'].intercalate (lines.map PlainLine.text ++ [w]) = linesText lines ++ w := by
  induction lines with
  | nil => exact List.intercalate_singleton
  | cons l lines ih =>
    rw [List.map_cons, List.cons_append, List.intercalate_cons_of_ne_nil (by simp), ih,
      linesText_cons]
    simp

theorem not_mem_linesText {c : Char} (hbare : isBare c = false) (hbreak : c ≠ '\n')
    (lines : List PlainLine) : c ∉ linesText lines := by
  simp only [linesText, List.mem_flatMap, List.mem_append, List.mem_singleton, not_exists, not_and,
    not_or]
  exact fun l _ => ⟨not_mem_of_isBare l.isBare hbare, hbreak⟩

theorem BlockStatement.text_eq (x : BlockStatement) :
    x.text = x.head.margin ++ x.head.title ++ ([] ++ '\n' :: (x.opening ++ '{' :: '\n' ::
      (linesText x.lines ++ (x.closing ++ ['}'])))) := by
  rw [text, rows, List.intercalate_cons_of_ne_nil (by simp),
    List.intercalate_cons_of_ne_nil (by simp), intercalate_lines]
  simp

theorem length_le_linesText (lines : List PlainLine) : lines.length ≤ (linesText lines).length := by
  induction lines with
  | nil => exact Nat.zero_le _
  | cons l lines ih =>
    rw [linesText_cons]
    simp only [List.length_append, List.length_cons]
    omega

theorem head?_dropBlanks_of_brace (hu : '(' ∉ u) :
    (Text.dropBlanks (u ++ '}' :: v)).head? ≠ some '(' := by
  induction u with
  | nil => simp [Text.dropBlanks, show Text.isBlank '}' = false by decide]
  | cons c u ih =>
    rw [List.mem_cons, not_or] at hu
    rw [List.cons_append, Text.dropBlanks, List.dropWhile_cons]
    split
    · exact ih hu.2
    · simpa using Ne.symm hu.1

theorem rounds_closing (inner : String → Span → Scan (Nat × List Report))
    (hw : w.all isMargin = true) (hs : s = before ++ (w ++ '}' :: after)) (n k : Nat)
    (reports : List Report) :
    ∃ e, rounds (round inner s ((before ++ w).length : Nat)) (n + 1 + 1)
      ⟨before.length, k, reports⟩ = .ok ⟨e, k + (if w = [] then 0 else 1), reports⟩ := by
  have hdrop : s.drop before.length = w ++ '}' :: after := by rw [hs, List.drop_left]
  have hstop : (before ++ w).length = before.length + w.length := List.length_append
  by_cases hempty : w = []
  · refine ⟨before.length, ?_⟩
    rw [rounds_done (round_done (by rw [hstop, hempty]; simp)), if_pos hempty]
    rfl
  · have hpos : 0 < w.length := List.length_pos_iff.mpr hempty
    have hbreak : '\n' ∉ w ++ ['}'] := by
      simp [not_mem_of_isBare (c := '\n') (all_isBare_of_isMargin hw) rfl]
    have hend := Text.le_lineEnd_of_drop (s := s) (a := before.length) (u := w ++ ['}'])
      (v := after) (by simp [hs]) (by simp [hdrop]) hbreak
    rw [List.length_append] at hend
    refine ⟨s.lineEnd before.length + 1, ?_⟩
    rw [rounds_again (round_line (by omega) (first?_brace (by simp) hw hdrop)),
      rounds_done (round_done (by omega)), if_neg hempty]

theorem rounds_lines (inner : String → Span → Scan (Nat × List Report))
    (hw : w.all isMargin = true) (hs : s = before ++ (linesText lines ++ (w ++ '}' :: after)))
    (hn : lines.length + 1 < n) (k : Nat) (reports : List Report) :
    ∃ e, rounds (round inner s ((before ++ (linesText lines ++ w)).length : Nat)) n
      ⟨before.length, k, reports⟩ =
        .ok ⟨e, k + lines.length + (if w = [] then 0 else 1), reports⟩ := by
  induction lines generalizing before n k with
  | nil =>
    obtain ⟨n, rfl⟩ : ∃ m, n = m + 1 + 1 := ⟨n - 2, by omega⟩
    exact rounds_closing inner hw hs n k reports
  | cons l lines ih =>
    have hrest : '(' ∉ linesText lines ++ w := by
      simp [not_mem_linesText (c := '(') rfl (by decide),
        not_mem_of_isBare (c := '(') (all_isBare_of_isMargin hw) rfl]
    have hdrop : s.drop before.length =
        l.text ++ '\n' :: (linesText lines ++ w ++ '}' :: after) := by
      rw [hs, List.drop_left, linesText_cons]
      simp
    have hend := Text.lineEnd_of_drop hdrop (not_mem_of_isBare l.isBare rfl)
    have hnext : (before ++ l.text ++ ['\n']).length = before.length + l.text.length + 1 := by
      simp only [List.length_append, List.length_cons, List.length_nil]
    have hs' : s = before ++ l.text ++ ['\n'] ++ (linesText lines ++ (w ++ '}' :: after)) := by
      rw [hs, linesText_cons]
      simp
    have hstop : before ++ l.text ++ ['\n'] ++ (linesText lines ++ w) =
        before ++ (linesText (l :: lines) ++ w) := by
      rw [linesText_cons]
      simp
    rw [List.length_cons] at hn
    obtain ⟨n, rfl⟩ : ∃ m, n = m + 1 := ⟨n - 1, by omega⟩
    have hlt : before.length < (before ++ (linesText (l :: lines) ++ w)).length := by
      rw [← hstop]
      simp only [List.length_append, List.length_cons]
      omega
    obtain ⟨e, he⟩ := ih hs' (by omega : lines.length + 1 < n) (k + 1)
    refine ⟨e, ?_⟩
    rw [hstop, hnext] at he
    rw [rounds_again (round_line (by omega)
      (first?_bare l.isBare (head?_dropBlanks_of_brace hrest) hdrop)), hend, List.length_cons,
      show k + (lines.length + 1) = k + 1 + lines.length by omega]
    exact he

namespace BlockStatement

variable (x : BlockStatement)

def inner : Text := x.opening ++ '{' :: '\n' :: (linesText x.lines ++ x.closing)

theorem text_append (after : Text) : x.text ++ after =
    x.head.margin ++ x.head.title ++ ([] ++ '\n' :: (x.inner ++ '}' :: after)) := by
  rw [x.text_eq, inner]
  simp

theorem rounds_inner (inner : String → Span → Scan (Nat × List Report))
    (hs : s = before ++ (x.inner ++ '}' :: after)) :
    ∃ e, rounds (round inner s ((before ++ x.inner).length : Nat)) (s.length + 2)
      ⟨before.length, 0, []⟩ = .ok ⟨e, x.length, []⟩ := by
  obtain ⟨first, hfirst⟩ : ∃ w, w = before ++ (x.opening ++ ['{', '\n']) := ⟨_, rfl⟩
  have hlines : s = first ++ (linesText x.lines ++ (x.closing ++ '}' :: after)) := by
    rw [hs, hfirst, BlockStatement.inner]
    simp
  have hstop : before ++ x.inner = first ++ (linesText x.lines ++ x.closing) := by
    rw [hfirst, BlockStatement.inner]
    simp
  have hopening : s.drop before.length = x.opening ++ '{' :: '\n' ::
      (linesText x.lines ++ (x.closing ++ '}' :: after)) := by
    rw [hs, List.drop_left, BlockStatement.inner]
    simp
  have hbreak : '\n' ∉ x.opening ++ ['{'] := by
    simp [not_mem_of_isBare (c := '\n') (all_isBare_of_isMargin x.opening_isMargin) rfl]
  have hrow : s.drop before.length = (x.opening ++ ['{']) ++ '\n' ::
      (linesText x.lines ++ (x.closing ++ '}' :: after)) := by
    rw [hopening]
    simp
  have hnext : (s.lineEnd before.length : Int) + 1 = first.length := by
    rw [Text.lineEnd_of_drop hrow hbreak, hfirst]
    simp only [List.length_append, List.length_cons, List.length_nil]
    omega
  have hlt : before.length < (before ++ x.inner).length ∧ x.lines.length + 1 < s.length + 1 := by
    have hcount := length_le_linesText x.lines
    rw [hs, BlockStatement.inner]
    simp only [List.length_append, List.length_cons]
    omega
  obtain ⟨e, he⟩ := rounds_lines inner x.closing_isMargin hlines hlt.2 1 []
  refine ⟨e, ?_⟩
  rw [rounds_again (round_line (by omega) (first?_brace (by simp) x.opening_isMargin hopening)),
    hstop, hnext]
  exact he

theorem check_text (before after : Text) :
    check (before ++ x.text ++ after) x.head.keyword
        ⟨before.length, ((before ++ x.text).length : Int) - 1⟩ =
      .ok (x.length, x.reports before) := by
  have hs : before ++ x.text ++ after = before ++ (x.head.margin ++ x.head.title ++ ([] ++ '\n' ::
      (x.inner ++ '}' :: after))) := by
    rw [List.append_assoc, x.text_append]
  have hinner : before ++ x.text ++ after = before ++ (x.head.margin ++ x.head.title ++
      ([] ++ ['\n'])) ++ (x.inner ++ '}' :: after) := by
    rw [hs]
    simp
  have hstop : ((before ++ x.text).length : Int) - 1 = ((before ++ (x.head.margin ++ x.head.title ++
      ([] ++ ['\n'])) ++ x.inner).length : Nat) := by
    have htext := x.text_append []
    rw [List.append_nil] at htext
    rw [htext]
    simp only [List.length_append, List.length_cons, List.length_nil]
    omega
  obtain ⟨e, he⟩ := x.rounds_inner
    (measure (before ++ x.text ++ after) ((before ++ x.text ++ after).length + 1)) hinner
  rw [hstop]
  exact measure_of_rounds hs List.not_mem_nil he

def inset (k : Nat) : BlockStatement := { x with head := x.head.inset k }

theorem take_append_inset (k : Nat) : x.head.margin.take k ++ (x.inset k).text = x.text := by
  have htext := x.text_append []
  have hinset := (x.inset k).text_append []
  rw [List.append_nil] at htext hinset
  rw [htext, hinset]
  simp only [inset, Head.inset, ← List.append_assoc, List.take_append_drop]
  rfl

theorem check_from_margin {a : Nat} (before after : Text) (hfirst : before.length ≤ a)
    (hlast : a ≤ before.length + x.head.margin.length) :
    check (before ++ x.text ++ after) x.head.keyword
        ⟨a, ((before ++ x.text).length : Int) - 1⟩ =
      .ok (x.length, x.reports before) := by
  have hbefore : (before ++ x.head.margin.take (a - before.length)).length = a := by
    rw [List.length_append, List.length_take]
    omega
  have hcheck := (x.inset (a - before.length)).check_text
    (before ++ x.head.margin.take (a - before.length)) after
  rw [List.append_assoc before, x.take_append_inset, hbefore, reports] at hcheck
  have hreports : (x.inset (a - before.length)).head.reports
      (before ++ x.head.margin.take (a - before.length)) (x.inset (a - before.length)).length =
        x.reports before := x.head.reports_inset (a - before.length) x.length before
  rw [hreports] at hcheck
  exact hcheck

theorem unindented_text : unindented x.text = x.rows.map fun l => l.dropWhile isMargin := by
  have hbreak : ∀ l ∈ x.rows, '\n' ∉ l := by
    intro l hl
    simp only [rows, List.mem_cons, List.mem_append, List.mem_map, List.not_mem_nil, or_false] at hl
    rcases hl with rfl | rfl | ⟨r, -, rfl⟩ | rfl
    · simp [Head.title,
        not_mem_of_isBare (c := '\n') (all_isBare_of_isMargin x.head.margin_isMargin) rfl,
        not_mem_of_isBare (c := '\n') x.head.keyword_isBare rfl,
        not_mem_of_isBare (c := '\n') x.head.condition_isBare rfl]
    · simp [not_mem_of_isBare (c := '\n') (all_isBare_of_isMargin x.opening_isMargin) rfl]
    · exact not_mem_of_isBare r.isBare rfl
    · simp [not_mem_of_isBare (c := '\n') (all_isBare_of_isMargin x.closing_isMargin) rfl]
  rw [unindented, text, List.splitOn_intercalate '\n' hbreak (List.cons_ne_nil _ _)]

theorem length_lines_of_unindented {x y : BlockStatement}
    (h : unindented y.text = unindented x.text) : y.lines.length = x.lines.length := by
  rw [unindented_text, unindented_text] at h
  have hlen := congrArg List.length h
  simp only [rows, List.length_map, List.length_cons, List.length_append, List.length_nil] at hlen
  omega

theorem reports_eq_nil_iff (before : Text) : x.reports before = [] ↔ x.length ≤ 10 := by
  rw [reports, Head.reports]
  split
  · rename_i hlong
    simp [hlong]
  · rename_i hlong
    simpa using Nat.le_of_not_lt hlong

theorem length_eq_iff {x y : BlockStatement} (h : unindented y.text = unindented x.text) :
    y.length = x.length ↔ (y.closing = [] ↔ x.closing = []) := by
  rw [length, length, length_lines_of_unindented h]
  split <;> split <;> simp_all

end BlockStatement

theorem check_indented (x : BlockStatement) :
    (∀ (before after : Text) (a : Nat), before.length ≤ a →
      a ≤ before.length + x.head.margin.length →
        check (before ++ x.text ++ after) x.head.keyword
            ⟨a, ((before ++ x.text).length : Int) - 1⟩ =
          .ok (x.length, x.reports before)) ∧
    ∀ y : BlockStatement, unindented y.text = unindented x.text →
      (y.length = x.length ↔ (y.closing = [] ↔ x.closing = [])) ∧
      ∀ before, (y.reports before = [] ↔ x.reports before = []) ↔
        ((y.closing = [] ↔ x.closing = []) ∨ x.lines.length ≠ 9) := by
  refine ⟨fun before after a => x.check_from_margin before after, fun y h => ?_⟩
  refine ⟨BlockStatement.length_eq_iff h, fun before => ?_⟩
  have hlines := BlockStatement.length_lines_of_unindented h
  rw [y.reports_eq_nil_iff, x.reports_eq_nil_iff, BlockStatement.length, BlockStatement.length, hlines]
  by_cases hy : y.closing = [] <;> by_cases hx : x.closing = [] <;> simp [hx, hy] <;> omega

def nineLines (closing : Text) (h : closing.all isMargin = true) : BlockStatement where
  head := { choice with margin := [], margin_isMargin := by decide }
  opening := []
  lines := List.replicate 9 ⟨"b;".toList, by decide, by decide⟩
  closing := closing
  opening_isMargin := by decide
  closing_isMargin := h

theorem check_space_before_brace :
    (nineLines [] rfl).text =
      "if (a)\n\x7b\nb;\nb;\nb;\nb;\nb;\nb;\nb;\nb;\nb;\n\x7d".toList ∧
    (nineLines [' '] rfl).text =
      "if (a)\n\x7b\nb;\nb;\nb;\nb;\nb;\nb;\nb;\nb;\nb;\n \x7d".toList ∧
    unindented (nineLines [' '] rfl).text = unindented (nineLines [] rfl).text ∧
    check (nineLines [] rfl).text "if" ⟨0, 36⟩ = .ok (10, []) ∧
    check (nineLines [' '] rfl).text "if" ⟨0, 37⟩ =
      .ok (11, [⟨1, .longStatement "if", some "if (a)".toList, none⟩]) := by
  refine ⟨by decide +kernel, by decide +kernel, ?_, ?_, ?_⟩
  · rw [BlockStatement.unindented_text, BlockStatement.unindented_text]
    decide +kernel
  · have hcheck := (nineLines [] rfl).check_text [] []
    rw [List.nil_append, List.append_nil] at hcheck
    have hstop : ((nineLines [] rfl).text.length : Int) - 1 = 36 := by decide +kernel
    have hreports : (nineLines [] rfl).reports [] = [] := by decide +kernel
    rw [hstop, hreports] at hcheck
    exact hcheck
  · have hcheck := (nineLines [' '] rfl).check_text [] []
    rw [List.nil_append, List.append_nil] at hcheck
    have hstop : ((nineLines [' '] rfl).text.length : Int) - 1 = 37 := by decide +kernel
    have hreports : (nineLines [' '] rfl).reports [] =
        [⟨1, .longStatement "if", some "if (a)".toList, none⟩] := by decide +kernel
    rw [hstop, hreports] at hcheck
    exact hcheck

end CodeAudit.Nesting
