import CodeAudit.Proofs.Pattern.Lead
import CodeAudit.Proofs.Pattern.Literal
import CodeAudit.Proofs.Stylesheet.Regions

namespace CodeAudit.Stylesheet

structure StyleRule where
  gap : Text
  selector : Text
  body : Text
  gap_blank : gap.all Text.isBlank = true
  selector_ink : selector.head?.any (!Text.isBlank ·) = true
  selector_code : "/*".toList.isPrefixOf selector = false
  selector_open : selector.contains '{' = false
  body_close : body.contains '}' = false

def StyleRule.onward (r : StyleRule) (rest : Text) : Text :=
  r.selector ++ '{' :: (r.body ++ '}' :: rest)

def rulesText (tail : Text) : List StyleRule → Text
  | [] => tail
  | r :: rs => r.gap ++ r.onward (rulesText tail rs)

def rulesReports (word tail : Text) : (told : Text) → List StyleRule → List Report
  | _, [] => []
  | told, r :: rs =>
    let rest := rulesText tail rs
    let own :=
      if word.isPrefixOf r.selector then []
      else [⟨(told ++ r.gap).count '\n' + 1, .foreignSelector,
        some ((r.onward rest).takeWhile (· != '\n')), none⟩]
    own ++ rulesReports word tail (told ++ r.gap ++ r.onward []) rs

structure Sheet where
  rules : List StyleRule
  tail : Text
  tail_blank : tail.all Text.isBlank = true

def Sheet.text (x : Sheet) : Text := rulesText x.tail x.rules

def Sheet.reports (x : Sheet) (word : Text) : List Report := rulesReports word x.tail [] x.rules

variable {s u word tail rest : Text} {p q : Nat} {name : Pattern} {told : List Report}

namespace StyleRule

variable (r : StyleRule)

theorem onward_append (rest : Text) : r.onward rest = r.onward [] ++ rest := by
  simp only [onward, List.append_assoc, List.cons_append, List.nil_append]

theorem exists_onward (rest : Text) :
    ∃ c t, r.onward rest = c :: t ∧ Text.isBlank c = false ∧ c ≠ '{' := by
  have hink := r.selector_ink
  have hopen := r.selector_open
  cases hsel : r.selector with
  | nil => simp [hsel] at hink
  | cons c t =>
    rw [hsel] at hink hopen
    refine ⟨c, t ++ '{' :: (r.body ++ '}' :: rest), ?_, by simpa using hink, ?_⟩
    · rw [onward, hsel]
      rfl
    · rintro rfl
      simp at hopen

theorem not_prefix_onward (rest : Text) : ¬"/*".toList <+: r.onward rest := by
  intro h
  have hcode := r.selector_code
  rw [List.isPrefixOf_iff_prefix.mpr (Pattern.prefix_of_not_mem (by decide) h)] at hcode
  cases hcode

theorem not_brace_onward (rest : Text) : ¬['{'] <+: r.onward rest := by
  obtain ⟨c, t, honward, -, hc⟩ := r.exists_onward rest
  rw [honward]
  rintro ⟨v, h⟩
  exact hc (List.cons.inj h).1.symm

theorem ink_of_onward (hs : s.drop q = r.onward rest) : s.Ink q := by
  obtain ⟨c, t, honward, hink, -⟩ := r.exists_onward rest
  refine ⟨c, ?_, hink⟩
  rw [← List.head?_drop, hs, honward]
  rfl

theorem nextInk_onward (hu : ∀ b ∈ u, Text.isBlank b = true) (hs : s.drop p = u ++ r.onward rest) :
    s.nextInk p = .ok (p + u.length : Nat) := by
  obtain ⟨c, t, honward, hink, -⟩ := r.exists_onward rest
  rw [honward] at hs
  exact Text.nextInk_of_drop hs hu hink

theorem drop_after (hs : s.drop q = r.onward rest) :
    s.drop (q + (r.onward []).length) = rest := by
  rw [r.onward_append] at hs
  exact Text.drop_of_drop_append hs

theorem find_brace (hs : s.drop q = r.onward rest) :
    s.find '{' q = (q + r.selector.length : Nat) := by
  apply Text.find_of_drop hs
  intro h
  have hopen := r.selector_open
  rw [List.contains_iff_mem.mpr h] at hopen
  cases hopen

theorem skipRegions_block (hs : s.drop q = r.onward rest) :
    skipRegions s ['{'] (q + r.selector.length : Nat) =
      rounds (skipRound s ['{']) (s.length + 2) ((q + (r.onward []).length : Nat) : Int) := by
  have hblock : s.drop (q + r.selector.length) = '{' :: r.body ++ '}' :: rest :=
    Text.drop_of_drop_append hs
  have hlt : q + r.selector.length < s.length := Text.le_length_of_drop (u := []) hblock
  have hink : s.Ink (q + r.selector.length) := by
    refine ⟨'{', ?_, by decide⟩
    rw [← List.head?_drop, hblock]
    rfl
  have hmark : ['{'] <+: s.drop (q + r.selector.length) := ⟨_, hblock.symm⟩
  have hclose : s.findText ['}'] (q + r.selector.length : Nat) =
      (q + r.selector.length + ('{' :: r.body).length : Nat) := by
    have hbody : '}' ∉ '{' :: r.body := by
      have hclose := r.body_close
      simpa using hclose
    rw [Text.findText_singleton (Nat.le_of_lt hlt)]
    exact Text.find_of_drop hblock hbody
  have hround := skipRound_of_mark hink.nextInk_eq (Nat.le_of_lt hlt) hmark
    (show closingMark? ['{'] = some ['}'] from rfl)
  rw [hclose, if_neg (by omega)] at hround
  rw [skipRegions, rounds_again hround]
  congr 1
  simp only [onward, List.length_append, List.length_cons, List.length_nil]
  omega

end StyleRule

def Names (name : Pattern) (word : Text) : Prop :=
  ∀ (s : Text) (a : Nat), a ≤ s.length → ((name.matchAt s a).isSome = true ↔ word <+: s.drop a)

theorem not_mem_of_isWord (hword : word.all Text.isWord = true) : '{' ∉ word := by
  intro h
  have hbrace := List.all_eq_true.mp hword _ h
  exact absurd hbrace (by decide)

theorem selectorReports_eq (hname : Names name word) (hword : word.all Text.isWord = true)
    (r : StyleRule) (hs : s.drop q = r.onward rest) :
    selectorReports name s q = if word.isPrefixOf r.selector then [] else
      [⟨(s.take q).count '\n' + 1, .foreignSelector, some ((r.onward rest).takeWhile (· != '\n')),
        none⟩] := by
  have hq : q ≤ s.length := Nat.le_of_lt (r.ink_of_onward hs).lt_length
  have hprefix : word <+: s.drop q ↔ word.isPrefixOf r.selector = true := by
    rw [hs, List.isPrefixOf_iff_prefix]
    constructor
    · exact Pattern.prefix_of_not_mem (not_mem_of_isWord hword)
    · intro h
      exact h.trans (List.prefix_append _ _)
  rw [selectorReports, Text.slice_lineEnd hq, Text.lineOf_natCast, hs]
  simp only [hname s q hq, hprefix]
  rfl

theorem skipRegions_selector (r : StyleRule) (hu : ∀ b ∈ u, Text.isBlank b = true)
    (hs : s.drop p = u ++ r.onward rest) :
    skipRegions s "/*".toList p = .ok (p + u.length : Nat) := by
  have honward := Text.drop_of_drop_append hs
  have hink := r.ink_of_onward honward
  rw [skipRegions_congr ((r.nextInk_onward hu hs).trans hink.nextInk_eq.symm)]
  apply skipRegions_of_ink hink
  rw [honward]
  exact r.not_prefix_onward rest

theorem round_last (r : StyleRule) (hu : ∀ b ∈ u, Text.isBlank b = true)
    (hs : s.drop p = u ++ r.onward rest) (hrest : ∀ b ∈ rest, Text.isBlank b = true) :
    round name s ⟨p, told⟩ = .ok (.done (told ++ selectorReports name s (p + u.length))) := by
  have honward := Text.drop_of_drop_append hs
  have hafter := r.drop_after honward
  have hnext : s.nextInk (p + u.length + (r.onward []).length : Nat) = .ok (-1) := by
    rcases Text.nextInk_natCast s (p + u.length + (r.onward []).length) with
      ⟨hnext, -⟩ | ⟨q, -, hle, b, hb, hink⟩
    · exact hnext
    · have hmem : b ∈ rest := by
        rw [← hafter]
        apply List.mem_of_getElem? (i := q - (p + u.length + (r.onward []).length))
        rw [List.getElem?_drop, Nat.add_sub_cancel' hle, hb]
      rw [hrest b hmem] at hink
      cases hink
  have hskip : skipRegions s ['{'] (s.find '{' (p + u.length : Nat)) = .ok (-1) := by
    rw [r.find_brace honward, r.skipRegions_block honward]
    exact rounds_done (skipRound_of_blank hnext) _
  exact round_of_selector (skipRegions_selector r hu hs) hskip (by omega)

theorem round_rule (r t : StyleRule) (hu : ∀ b ∈ u, Text.isBlank b = true)
    (hs : s.drop p = u ++ r.onward (t.gap ++ t.onward rest)) :
    round name s ⟨p, told⟩ = .ok (.again
      ⟨(p + u.length + (r.onward []).length + t.gap.length : Nat),
        told ++ selectorReports name s (p + u.length)⟩) := by
  have honward := Text.drop_of_drop_append hs
  have hafter := r.drop_after honward
  have hselector := Text.drop_of_drop_append hafter
  have hink := t.ink_of_onward hselector
  have hnext : s.nextInk (p + u.length + (r.onward []).length : Nat) =
      .ok (p + u.length + (r.onward []).length + t.gap.length : Nat) :=
    t.nextInk_onward (List.all_eq_true.mp t.gap_blank) hafter
  have hskip : skipRegions s ['{'] (s.find '{' (p + u.length : Nat)) =
      .ok (p + u.length + (r.onward []).length + t.gap.length : Nat) := by
    rw [r.find_brace honward, r.skipRegions_block honward]
    refine rounds_done (skipRound_of_ink hnext (Nat.le_of_lt hink.lt_length) ?_) _
    rw [hselector]
    exact t.not_brace_onward rest
  rw [round_of_selector (skipRegions_selector r hu hs) hskip (by have := hink.lt_length; omega),
    if_neg (by omega)]

theorem rounds_rules (hname : Names name word) (hword : word.all Text.isWord = true)
    (htail : tail.all Text.isBlank = true) (r : StyleRule) (rs : List StyleRule) {before : Text}
    (hu : ∀ b ∈ u, Text.isBlank b = true) (hs : s.drop p = u ++ r.onward (rulesText tail rs))
    (hbefore : s.take (p + u.length) = before ++ r.gap) (n : Nat) (hn : rs.length < n) :
    rounds (round name s) n ⟨p, told⟩ =
      .ok (told ++ rulesReports word tail before (r :: rs)) := by
  induction rs generalizing r p u before told n with
  | nil =>
    obtain ⟨n, rfl⟩ : ∃ k, n = k + 1 := ⟨n - 1, by omega⟩
    have honward := Text.drop_of_drop_append hs
    rw [rounds_done (round_last r hu hs (List.all_eq_true.mp htail)),
      selectorReports_eq hname hword r honward, hbefore]
    simp only [rulesReports, List.append_nil]
  | cons t rs ih =>
    obtain ⟨n, rfl⟩ : ∃ k, n = k + 1 := ⟨n - 1, by omega⟩
    have honward := Text.drop_of_drop_append hs
    have hselector := Text.drop_of_drop_append (r.drop_after honward)
    have htaken : s.take (p + u.length + (r.onward []).length + t.gap.length) =
        before ++ r.gap ++ r.onward [] ++ t.gap := by
      rw [Text.take_of_drop (r.drop_after honward), ← hbefore]
      rw [r.onward_append] at honward
      rw [Text.take_of_drop honward]
    rw [rounds_again (round_rule r t hu hs), ih t (u := []) (by simp) hselector htaken n
      (by rw [List.length_cons] at hn; omega), selectorReports_eq hname hword r honward, hbefore]
    simp only [rulesReports, List.append_assoc]

theorem length_le_rulesText (tail : Text) (rs : List StyleRule) :
    rs.length ≤ (rulesText tail rs).length := by
  induction rs with
  | nil => exact Nat.zero_le _
  | cons r rs ih =>
    simp only [rulesText, StyleRule.onward, List.length_append, List.length_cons]
    omega

theorem stem_append (word : Text) : stem (word ++ ".qss".toList) = word := by
  have hlen : (((word ++ ".qss".toList).length : Int) - 4) = (word.length : Nat) := by
    rw [List.length_append]
    change ((word.length + 4 : Nat) : Int) - 4 = _
    omega
  rw [stem, hlen]
  exact Text.slice_of_drop (a := 0) (v := ".qss".toList) rfl (Nat.zero_add _).symm

theorem check_sheet (x : Sheet) (word : Text) (hword : word.all Text.isWord = true) :
    check x.text (word ++ ".qss".toList) = .ok (x.reports word) := by
  obtain ⟨name, hread, hname⟩ := Pattern.exists_read_of_isWord (List.all_eq_true.mp hword)
  rw [check, stem_append, hread]
  dsimp only
  obtain ⟨rules, tail, htail⟩ := x
  cases rules with
  | nil =>
    have hskip : skipRegions tail "/*".toList (0 : Nat) = .ok (-1) := by
      rcases Text.nextInk_natCast tail 0 with ⟨hnext, -⟩ | ⟨q, -, -, b, hb, hink⟩
      · exact skipRegions_of_blank hnext
      · rw [List.all_eq_true.mp htail b (List.mem_of_getElem? hb)] at hink
        cases hink
    exact rounds_done (round_of_end hskip) _
  | cons r rs =>
    have hlen := length_le_rulesText tail (r :: rs)
    have hbefore : (rulesText tail (r :: rs)).take (0 + r.gap.length) = [] ++ r.gap := by
      rw [Nat.zero_add]
      exact List.take_left
    rw [List.length_cons] at hlen
    exact rounds_rules (p := 0) hname hword htail r rs (List.all_eq_true.mp r.gap_blank) rfl hbefore
      _ (by dsimp only [Sheet.text]; omega)

def boxSheet : Sheet where
  rules :=
    [⟨[], "citBox".toList, "\x7b color: red;".toList, rfl, rfl, rfl, rfl, rfl⟩,
      ⟨"\n".toList, "a,\nb ".toList, "/* c */".toList, rfl, rfl, rfl, rfl, rfl⟩,
      ⟨" ".toList, "citBoxes::c".toList, [], rfl, rfl, rfl, rfl, rfl⟩,
      ⟨"\n\n".toList, "cit".toList, [], rfl, rfl, rfl, rfl, rfl⟩]
  tail := "\n ".toList
  tail_blank := rfl

theorem check_boxSheet :
    "citBox".toList.all Text.isWord = true ∧
      check ("citBox\x7b\x7b color: red;\x7d\na,\nb \x7b/* c */\x7d " ++
          "citBoxes::c\x7b\x7d\n\ncit\x7b\x7d\n ").toList "citBox.qss".toList = .ok [⟨2, .foreignSelector, some "a,".toList, none⟩,
          ⟨5, .foreignSelector, some "cit\x7b\x7d".toList, none⟩] := by
  refine ⟨by decide, ?_⟩
  have h := check_sheet boxSheet "citBox".toList (by decide)
  exact h.trans (congrArg Except.ok (by decide))

end CodeAudit.Stylesheet
