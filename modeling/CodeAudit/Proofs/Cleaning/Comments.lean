import CodeAudit.Proofs.Cleaning.Rounds

/-!
Comments as a scan from left to right takes them out, and the two passes by which they are removed.
The passes agree with the scan where no `//` in a block comment hides the end of the comment.
-/

namespace CodeAudit.Cleaning

open Pattern Text

inductive Mode where
  | code
  | line
  | block
  deriving DecidableEq, Repr

def strip : Mode → Text → Text
  | _, [] => []
  | .line, c :: s => if c = '\n' then c :: strip .code s else strip .line s
  | .code, '/' :: '/' :: s => strip .line s
  | .code, '/' :: '*' :: s => if ['*', '/'] <:+: s then strip .block s else '/' :: '*' :: s
  | .block, '*' :: '/' :: s => strip .code s
  | .code, c :: s => c :: strip .code s
  | .block, c :: s => if c = '\n' then c :: strip .block s else strip .block s

def cutLines : (cut : Bool) → Text → Text
  | _, [] => []
  | true, c :: s => if c = '\n' then c :: cutLines false s else cutLines true s
  | false, '/' :: '/' :: s => cutLines true s
  | false, c :: s => c :: cutLines false s

/-- No `//` in a block comment stands before the end of the comment in the same line, and none stands
in a block comment that never ends. -/
def apart : Mode → (cut : Bool) → Text → Bool
  | _, _, [] => true
  | .line, _, c :: s => apart (if c = '\n' then .code else .line) false s
  | .code, _, '/' :: '/' :: s => apart .line false s
  | .code, _, '/' :: '*' :: s =>
    if ['*', '/'] <:+: s then apart .block false s else !Text.holds s ['/', '/']
  | .block, cut, '*' :: '/' :: s => !cut && s.head? != some '/' && apart .code false s
  | .block, _, '/' :: '/' :: s => apart .block true s
  | .code, _, _ :: s => apart .code false s
  | .block, cut, c :: s => apart .block (cut && c != '\n') s

variable {s u v w : Text}

theorem cutLines_mark {cut : Bool} : cutLines cut ('/' :: '/' :: s) = cutLines true s := by
  cases cut <;> rfl

theorem cutLines_true_cons (c : Char) :
    cutLines true (c :: s) = if c = '\n' then c :: cutLines false s else cutLines true s := rfl

theorem cutLines_cons (c : Char) (h : ¬(c = '/' ∧ s.head? = some '/')) :
    cutLines false (c :: s) = c :: cutLines false s := by
  rw [cutLines]
  rintro r rfl rfl
  exact h ⟨rfl, rfl⟩

theorem cutLines_append (hu : ¬['/', '/'] <:+: u ++ ['/']) :
    cutLines false (u ++ v) = u ++ cutLines false v := by
  induction u with
  | nil => rfl
  | cons c u ih =>
    rw [List.cons_append, pair_infix_cons, not_or] at hu
    rw [List.cons_append, cutLines_cons, ih hu.2, List.cons_append]
    rintro ⟨rfl, hhead⟩
    apply hu.1
    cases u with
    | nil => exact ⟨rfl, rfl⟩
    | cons d u => exact ⟨rfl, hhead⟩

theorem cutLines_of_no_mark (hs : ¬['/', '/'] <:+: s) : cutLines false s = s := by
  induction s with
  | nil => rfl
  | cons c s ih =>
    rw [pair_infix_cons, not_or] at hs
    rw [cutLines_cons c hs.1, ih hs.2]

theorem cutLines_in_line (hw : '\n' ∉ w) (hv : ∀ b ∈ v.head?, b = '\n') :
    cutLines true (w ++ v) = cutLines false v := by
  induction w with
  | nil =>
    cases v with
    | nil => rfl
    | cons b v =>
      obtain rfl : b = '\n' := hv b rfl
      rw [cutLines_cons _ (by simp)]
      rfl
  | cons c w ih =>
    rw [List.mem_cons, not_or] at hw
    rw [List.cons_append, cutLines_true_cons, if_neg (Ne.symm hw.1), ih hw.2]

theorem removeLineComments_eq (s : Text) : removeLineComments s = .ok (cutLines false s) := by
  have hrun : ∃ r, removeLineComments s = .ok r ∧ r = cutLines false s := by
    apply rounds_of_smaller (P := fun x r => r = cutLines false x) List.length _ _ s
      (Nat.lt_succ_self _)
    intro s
    rcases lineCommentRound_cases s with ⟨hno, hdone⟩ | ⟨u, w, v, hs, hu, hw, hv, hagain⟩
    · exact .inl ⟨s, by rw [hdone], (cutLines_of_no_mark hno).symm⟩
    · refine .inr ⟨u ++ v, by rw [hagain], (lineCommentRound_again hagain).2, ?_⟩
      rintro r rfl
      rw [hs, cutLines_append hu, cutLines_append hu, cutLines_mark, cutLines_in_line hw hv]
  obtain ⟨r, hr, rfl⟩ := hrun
  exact hr

theorem head?_cutLines_true (s : Text) : ∀ b ∈ (cutLines true s).head?, b = '\n' := by
  induction s with
  | nil => simp [cutLines]
  | cons c s ih =>
    rw [cutLines_true_cons]
    split
    · rename_i hc
      simpa using hc
    · exact ih

theorem head?_of_cutLines {d : Char} (hd : d ≠ '\n') (h : (cutLines false s).head? = some d) :
    s.head? = some d := by
  cases s with
  | nil => exact h
  | cons c s =>
    by_cases hc : c = '/' ∧ s.head? = some '/'
    · obtain ⟨rfl, hs⟩ := hc
      obtain ⟨s, rfl⟩ := List.head?_eq_some_iff.mp hs
      rw [cutLines_mark] at h
      exact absurd (head?_cutLines_true s d h) hd
    · rwa [cutLines_cons c hc] at h

theorem not_pair_of {a b c : Char} (h : ∀ r, c = a → s = b :: r → False) :
    ¬(c = a ∧ s.head? = some b) := by
  rintro ⟨hc, hs⟩
  obtain ⟨r, hr⟩ := List.head?_eq_some_iff.mp hs
  exact h r hc hr

theorem no_mark_cutLines (cut : Bool) (s : Text) : ¬['/', '/'] <:+: cutLines cut s := by
  induction cut, s using cutLines.induct with
  | case1 => simp [cutLines]
  | case2 s ih =>
    rw [cutLines_true_cons, if_pos rfl, pair_infix_cons]
    simpa using ih
  | case3 c s hc ih => rwa [cutLines_true_cons, if_neg hc]
  | case4 s ih => rwa [cutLines_mark]
  | case5 c s hno ih =>
    have hc := not_pair_of hno
    rw [cutLines_cons c hc, pair_infix_cons, not_or]
    refine ⟨?_, ih⟩
    rintro ⟨rfl, hs⟩
    exact hc ⟨rfl, head?_of_cutLines (by decide) hs⟩

theorem strip_open : strip .code ('/' :: '*' :: s) =
    if ['*', '/'] <:+: s then strip .block s else '/' :: '*' :: s := rfl

theorem strip_code_cons {c : Char} (hline : ¬(c = '/' ∧ s.head? = some '/'))
    (hblock : ¬(c = '/' ∧ s.head? = some '*')) : strip .code (c :: s) = c :: strip .code s := by
  rw [strip]
  · rintro r rfl rfl
    exact hline ⟨rfl, rfl⟩
  · rintro r rfl rfl
    exact hblock ⟨rfl, rfl⟩

theorem strip_block_cons {c : Char} (hclose : ¬(c = '*' ∧ s.head? = some '/')) :
    strip .block (c :: s) = if c = '\n' then c :: strip .block s else strip .block s := by
  rw [strip]
  rintro r rfl rfl
  exact hclose ⟨rfl, rfl⟩

theorem strip_code_append (hline : ¬['/', '/'] <:+: u ++ ['/']) (hblock : ¬['/', '*'] <:+: u) :
    strip .code (u ++ v) = u ++ strip .code v := by
  induction u with
  | nil => rfl
  | cons c u ih =>
    rw [List.cons_append, pair_infix_cons, not_or] at hline
    rw [pair_infix_cons, not_or] at hblock
    have hnext : c = '/' → ∃ d r, u = d :: r := by
      rintro rfl
      cases u with
      | nil => exact absurd ⟨rfl, rfl⟩ hline.1
      | cons d r => exact ⟨d, r, rfl⟩
    rw [List.cons_append, strip_code_cons, ih hline.2 hblock.2, List.cons_append]
    · rintro ⟨rfl, hhead⟩
      obtain ⟨d, r, rfl⟩ := hnext rfl
      exact hline.1 ⟨rfl, hhead⟩
    · rintro ⟨rfl, hhead⟩
      obtain ⟨d, r, rfl⟩ := hnext rfl
      exact hblock.1 ⟨rfl, hhead⟩

theorem strip_block_append (hw : ¬['*', '/'] <:+: w) :
    strip .block (w ++ '*' :: '/' :: v) = List.replicate (w.count '\n') '\n' ++ strip .code v := by
  induction w with
  | nil => rfl
  | cons c w ih =>
    rw [pair_infix_cons, not_or] at hw
    rw [List.cons_append, strip_block_cons, ih hw.2]
    · split
      · rename_i hc
        rw [hc, List.count_cons_self, List.replicate_succ, List.cons_append]
      · rename_i hc
        rw [List.count_cons_of_ne hc]
    · rintro ⟨rfl, hhead⟩
      cases w with
      | nil => exact absurd (Option.some.inj hhead) (by decide)
      | cons d w => exact hw.1 ⟨rfl, hhead⟩

theorem strip_of_open (hline : ¬['/', '/'] <:+: s)
    (hopen : ∀ u v, s = u ++ '/' :: '*' :: v → ¬['*', '/'] <:+: v) : strip .code s = s := by
  induction s with
  | nil => rfl
  | cons c s ih =>
    rw [pair_infix_cons, not_or] at hline
    by_cases hblock : c = '/' ∧ s.head? = some '*'
    · obtain ⟨rfl, hs⟩ := hblock
      obtain ⟨r, rfl⟩ := List.head?_eq_some_iff.mp hs
      rw [strip_open, if_neg (hopen [] r rfl)]
    · rw [strip_code_cons hline.1 hblock, ih hline.2]
      intro u v hs
      exact hopen (c :: u) v (by rw [hs, List.cons_append])

theorem strip_breaks_append (n : Nat) (v : Text) :
    strip .code (List.replicate n '\n' ++ v) = List.replicate n '\n' ++ strip .code v := by
  induction n with
  | zero => rfl
  | succ n ih => rw [List.replicate_succ, List.cons_append, strip_code_cons (by simp) (by simp), ih,
      List.cons_append]

theorem removeBlockComments_eq (hline : ¬['/', '/'] <:+: s) :
    removeBlockComments s = .ok (strip .code s) := by
  have hrun : ∃ r, removeBlockComments s = .ok r ∧
      (¬['/', '/'] <:+: s → r = strip .code s) := by
    apply rounds_of_smaller (P := fun x r => ¬['/', '/'] <:+: x → r = strip .code x) List.length _ _
      s (Nat.lt_succ_self _)
    intro s
    rcases blockCommentRound_cases s with ⟨hopen, hdone⟩ | ⟨u, w, v, hs, hu, hw, hagain⟩
    · exact .inl ⟨s, by rw [hdone], fun hline => (strip_of_open hline hopen).symm⟩
    · refine .inr ⟨_, by rw [hagain], (blockCommentRound_again hagain).2, ?_⟩
      intro r hr hline
      have hbefore : ¬['/', '/'] <:+: u ++ ['/'] := by
        intro h
        exact hline (h.trans ⟨[], '*' :: (w ++ '*' :: '/' :: v), by simp [hs]⟩)
      have hnext := (blockCommentRound_takesOut hline hagain).no_line hline
      have hmark : ¬['/', '*'] <:+: u := fun h => hu (h.trans (List.infix_append' [] u ['/']))
      have hclosed : ['*', '/'] <:+: w ++ '*' :: '/' :: v := ⟨w, v, by simp⟩
      rw [hr hnext, List.append_assoc, hs, strip_code_append hbefore hmark,
        strip_code_append hbefore hmark, strip_breaks_append, strip_open, if_pos hclosed,
        strip_block_append hw]
  obtain ⟨r, hr, h⟩ := hrun
  rw [hr, h hline]

theorem removeComments_eq (s : Text) :
    removeComments s = .ok (strip .code (cutLines false s)) := by
  simp only [removeComments, removeLineComments_eq, bind, Except.bind]
  exact removeBlockComments_eq (no_mark_cutLines false s)

def Mode.afterCut : Mode → Mode
  | .code | .line => .code
  | .block => .block

def Mode.isCut : Mode → Bool → Bool
  | .code, _ => false
  | .line, _ => true
  | .block, cut => cut

theorem cutLines_pair {c d : Char} (hc : ¬(c = '/' ∧ d = '/'))
    (hd : ¬(d = '/' ∧ s.head? = some '/')) :
    cutLines false (c :: d :: s) = c :: d :: cutLines false s := by
  rw [cutLines_cons c (by simpa using hc), cutLines_cons d hd]

theorem cutLines_step {c : Char} (cut : Bool) (h : ¬(c = '/' ∧ s.head? = some '/')) :
    cutLines cut (c :: s) =
      if (cut && c != '\n') = true then cutLines true s else c :: cutLines false s := by
  cases cut with
  | false => exact cutLines_cons c h
  | true =>
    rw [cutLines_true_cons]
    by_cases hc : c = '\n' <;> simp [hc]

theorem apart_block_cons {c : Char} {cut : Bool} (hclose : ¬(c = '*' ∧ s.head? = some '/'))
    (hline : ¬(c = '/' ∧ s.head? = some '/')) :
    apart .block cut (c :: s) = apart .block (cut && c != '\n') s := by
  rw [apart]
  · rintro r rfl rfl
    exact hclose ⟨rfl, rfl⟩
  · rintro r rfl rfl
    exact hline ⟨rfl, rfl⟩

theorem closed_cutLines {cut : Bool} (h : apart .block cut s = true) (hs : ['*', '/'] <:+: s) :
    ['*', '/'] <:+: cutLines cut s := by
  generalize hmode : Mode.block = mode at h
  induction mode, cut, s using apart.induct with
  | case1 => simp at hs
  | case2 | case3 | case4 | case5 | case8 => cases hmode
  | case6 cut s ih =>
    simp only [apart, Bool.and_eq_true, Bool.not_eq_true', bne_iff_ne, ne_eq] at h
    obtain ⟨⟨rfl, hnext⟩, -⟩ := h
    rw [cutLines_pair (by simp) (by simpa using hnext)]
    exact ⟨[], cutLines false s, rfl⟩
  | case7 cut s ih =>
    rw [cutLines_mark]
    exact ih (by simpa [pair_infix_cons] using hs) rfl h
  | case9 cut c s hclose hline ih =>
    have hclose := not_pair_of hclose
    have hline := not_pair_of hline
    rw [apart_block_cons hclose hline] at h
    have hkept := ih ((pair_infix_cons.mp hs).resolve_left hclose) rfl h
    rw [cutLines_step cut hline]
    cases hcut : cut && c != '\n' with
    | true => rwa [hcut] at hkept
    | false =>
      rw [hcut] at hkept
      exact pair_infix_cons.mpr (.inr hkept)

theorem strip_cutLines (mode : Mode) (cut : Bool) (s : Text) (h : apart mode cut s = true) :
    strip mode.afterCut (cutLines (mode.isCut cut) s) = strip mode s := by
  induction mode, cut, s using apart.induct with
  | case1 cut mode => cases mode <;> simp [Mode.afterCut, cutLines, strip]
  | case2 cut c s ih =>
    rw [apart] at h
    by_cases hc : c = '\n'
    · rw [if_pos hc] at h ih
      simp only [Mode.afterCut, Mode.isCut, cutLines, strip, hc, if_true] at ih ⊢
      rw [strip_code_cons (by simp) (by simp), ih h]
    · rw [if_neg hc] at h ih
      simp only [Mode.afterCut, Mode.isCut, cutLines, strip, hc, if_false] at ih ⊢
      exact ih h
  | case3 cut s ih =>
    rw [apart] at h
    exact ih h
  | case4 cut s hclosed ih =>
    rw [apart, if_pos hclosed] at h
    have hblock : strip .block (cutLines false s) = strip .block s := ih h
    simp only [Mode.afterCut, Mode.isCut]
    rw [cutLines_pair (by simp) (by simp), strip_open, if_pos (closed_cutLines h hclosed), strip_open,
      if_pos hclosed, hblock]
  | case5 cut s hopen =>
    rw [apart, if_neg hopen, Bool.not_eq_true', ← Bool.not_eq_true, holds_iff] at h
    simp only [Mode.afterCut, Mode.isCut]
    rw [cutLines_pair (by simp) (by simp), cutLines_of_no_mark h]
  | case6 cut s ih =>
    simp only [apart, Bool.and_eq_true, Bool.not_eq_true', bne_iff_ne, ne_eq] at h
    obtain ⟨⟨rfl, hnext⟩, h⟩ := h
    simp only [Mode.afterCut, Mode.isCut] at ih ⊢
    rw [cutLines_pair (by simp) (by simpa using hnext), strip, strip]
    exact ih h
  | case7 cut s ih =>
    rw [apart] at h
    have hstrip : strip .block ('/' :: '/' :: s) = strip .block s := by
      rw [strip_block_cons (by simp), if_neg (by decide), strip_block_cons (by simp),
        if_neg (by decide)]
    simp only [Mode.afterCut, Mode.isCut] at ih ⊢
    rw [cutLines_mark, hstrip]
    exact ih h
  | case8 cut c s hline hblock ih =>
    rw [apart.eq_7 _ _ _ hline hblock] at h
    have hline := not_pair_of hline
    have hblock := not_pair_of hblock
    simp only [Mode.afterCut, Mode.isCut] at ih ⊢
    -- what follows `c` after the cut followed it before, so that no mark arises
    rw [cutLines_cons c hline, strip_code_cons, strip_code_cons hline hblock, ih h]
    · rintro ⟨rfl, hs⟩
      exact hline ⟨rfl, head?_of_cutLines (by decide) hs⟩
    · rintro ⟨rfl, hs⟩
      exact hblock ⟨rfl, head?_of_cutLines (by decide) hs⟩
  | case9 cut c s hclose hline ih =>
    have hclose := not_pair_of hclose
    have hline := not_pair_of hline
    rw [apart_block_cons hclose hline] at h
    have hblock : strip .block (cutLines (cut && c != '\n') s) = strip .block s := ih h
    simp only [Mode.afterCut, Mode.isCut]
    rw [cutLines_step cut hline, strip_block_cons hclose]
    cases hcut : cut && c != '\n' with
    | true =>
      have hc : c ≠ '\n' := bne_iff_ne.mp (Bool.and_eq_true_iff.mp hcut).2
      rw [hcut] at hblock
      rw [if_pos rfl, if_neg hc, hblock]
    | false =>
      rw [hcut] at hblock
      rw [if_neg (by decide), strip_block_cons, hblock]
      rintro ⟨rfl, hs⟩
      exact hclose ⟨rfl, head?_of_cutLines (by decide) hs⟩

/-- Comments are removed as if the lines had been cut before the scan. That is what the scan alone
leaves of a text in which no `//` hides the end of a block comment. -/
theorem removeComments_eq_strip (s : Text) :
    removeComments s = .ok (strip .code (cutLines false s)) ∧
      (apart .code false s = true → removeComments s = .ok (strip .code s)) := by
  refine ⟨removeComments_eq s, ?_⟩
  intro h
  rw [removeComments_eq]
  exact congrArg Except.ok (strip_cutLines .code false s h)

theorem removeComments_mixed :
    apart .code false "a // /* b\n/* http://c\n d */ e /*f*/ /g".toList = true ∧
      removeComments "a // /* b\n/* http://c\n d */ e /*f*/ /g".toList =
        .ok "a \n\n e  /g".toList := by
  have h : apart .code false "a // /* b\n/* http://c\n d */ e /*f*/ /g".toList = true := by
    decide +kernel
  refine ⟨h, ?_⟩
  rw [(removeComments_eq_strip _).2 h]
  exact congrArg Except.ok (by decide +kernel)

theorem removeComments_address :
    removeComments "/* see http://a.b */ int x;".toList = .ok "/* see http:".toList ∧
      strip .code "/* see http://a.b */ int x;".toList = " int x;".toList := by
  rw [removeComments_eq]
  exact ⟨congrArg Except.ok (by decide +kernel), by decide +kernel⟩

end CodeAudit.Cleaning
