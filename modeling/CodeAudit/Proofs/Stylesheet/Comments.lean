import CodeAudit.Proofs.Stylesheet.Sheet

namespace CodeAudit.Stylesheet

/-- A piece of what stands between rules: blanks of the sheet itself, or blanks and comments that
are put in. -/
inductive Filler where
  | kept (blanks : Text) (h : blanks.all Text.isBlank = true)
  | added (blanks : Text) (h : blanks.all Text.isBlank = true)
  | comment (body : Text) (h : body.holds "\\*/".toList = false)

namespace Filler

def text : Filler → Text
  | kept blanks _ => blanks
  | added blanks _ => blanks
  | comment body _ => "/*".toList ++ (body ++ "\\*/".toList)

def isKept : Filler → Bool
  | kept _ _ => true
  | _ => false

def breaks (f : Filler) : Nat := if f.isKept then 0 else f.text.count '\n'

end Filler

def fillersText (fs : List Filler) : Text := fs.flatMap Filler.text

def fillersBreaks (fs : List Filler) : Nat := fs.foldr (·.breaks + ·) 0

theorem fillersText_cons (f : Filler) (fs : List Filler) :
    fillersText (f :: fs) = f.text ++ fillersText fs := List.flatMap_cons

theorem fillersBreaks_cons (f : Filler) (fs : List Filler) :
    fillersBreaks (f :: fs) = f.breaks + fillersBreaks fs := rfl

def startsLine (more : Bool) : List Filler → Bool
  | [] => !more
  | f :: fs => f.isKept && (f.text.contains '\n' || startsLine more fs)

structure NotedRule where
  lead : List Filler
  rule : StyleRule

def notedText (ending : Text) : List NotedRule → Text
  | [] => ending
  | r :: rs => fillersText r.lead ++ (r.rule.gap ++ r.rule.onward (notedText ending rs))

def StyleRule.reports (r : StyleRule) (word before rest : Text) : List Report :=
  if word.isPrefixOf r.selector then []
  else [⟨before.count '\n' + 1, .foreignSelector,
    some ((r.onward rest).takeWhile (· != '\n')), none⟩]

def notedReports (word ending : Text) : (told : Text) → List NotedRule → List Report
  | _, [] => []
  | told, r :: rs =>
    let before := told ++ fillersText r.lead ++ r.rule.gap
    r.rule.reports word before (notedText ending rs) ++
      notedReports word ending (before ++ r.rule.onward []) rs

def shifts (word : Text) : Nat → List NotedRule → List Nat
  | _, [] => []
  | k, r :: rs =>
    let own := if word.isPrefixOf r.rule.selector then [] else [k + fillersBreaks r.lead]
    own ++ shifts word (k + fillersBreaks r.lead) rs

def NotedRule.bare (r : NotedRule) : NotedRule := { r with lead := r.lead.filter Filler.isKept }

theorem NotedRule.bare_rule (r : NotedRule) : r.bare.rule = r.rule := rfl

structure NotedSheet where
  rules : List NotedRule
  tail : List Filler
  rest : Text
  rest_open : (rest.isEmpty || ("/*".toList.isPrefixOf rest && !rest.holds "\\*/".toList)) = true

namespace NotedSheet

variable (x : NotedSheet)

def ending : Text := fillersText x.tail ++ x.rest

def text : Text := notedText x.ending x.rules

def bare : NotedSheet where
  rules := x.rules.map NotedRule.bare
  tail := x.tail.filter Filler.isKept
  rest := []
  rest_open := rfl

def onOwnLines : Bool :=
  (x.rules.drop 1).all (fun r => startsLine false r.lead) && startsLine (!x.rest.isEmpty) x.tail

end NotedSheet

variable {s u rest ending word : Text} {e p : Nat}

theorem offsetOf_closing {body : Text} (h : body.holds "\\*/".toList = false) (rest : Text) :
    Text.offsetOf "\\*/".toList (body ++ ("\\*/".toList ++ rest)) = some body.length := by
  induction body with
  | nil => rfl
  | cons c body ih =>
    rw [Text.holds, Text.offsetOf] at h
    split at h
    · cases h
    · rename_i hc
      -- The mark cannot begin in the body and go on behind it, for only its first character is a
      -- backslash.
      have hmark :
          ¬List.isPrefixOf "\\*/".toList (c :: (body ++ ("\\*/".toList ++ rest))) = true := by
        rcases body with _ | ⟨d, _ | ⟨e, body⟩⟩
        · simp [List.isPrefixOf]
        · simp [List.isPrefixOf]
        · simpa [List.isPrefixOf] using hc
      rw [Option.isSome_map] at h
      rw [List.cons_append, Text.offsetOf, if_neg hmark, ih h]
      rfl

theorem skipRound_comment {body : Text} (hbody : body.holds "\\*/".toList = false)
    (hu : ∀ b ∈ u, Text.isBlank b = true)
    (hs : s.drop e = u ++ ("/*".toList ++ (body ++ "\\*/".toList) ++ rest)) :
    skipRound s "/*".toList e =
      .ok (.again (e + (u ++ ("/*".toList ++ (body ++ "\\*/".toList))).length : Nat)) := by
  have hcomment := Text.drop_of_drop_append hs
  have hlt : e + u.length < s.length := Text.le_length_of_drop hs
  have hnext : s.nextInk e = .ok (e + u.length : Nat) := Text.nextInk_of_drop hs hu (by decide)
  have hmark : "/*".toList <+: s.drop (e + u.length) := by
    rw [hcomment, List.append_assoc]
    exact List.prefix_append _ _
  have hopen : Text.holds ("/*".toList ++ body) "\\*/".toList = false := by
    change (((Text.offsetOf "\\*/".toList body).map (· + 1)).map (· + 1)).isSome = false
    rw [Option.isSome_map, Option.isSome_map]
    exact hbody
  have hfind : s.findText "\\*/".toList (e + u.length : Nat) =
      (e + u.length + ("/*".toList ++ body).length : Nat) := by
    have hsplit : "/*".toList ++ (body ++ "\\*/".toList) ++ rest =
        "/*".toList ++ body ++ ("\\*/".toList ++ rest) := by simp only [List.append_assoc]
    rw [Text.findText_natCast (Nat.le_of_lt hlt), hcomment, hsplit, offsetOf_closing hopen rest]
  have hround := skipRound_of_mark hnext (Nat.le_of_lt hlt) hmark
    (show closingMark? "/*".toList = some "\\*/".toList from rfl)
  rw [hfind, if_neg (by omega)] at hround
  rw [hround]
  congr 2
  simp only [List.length_append]
  omega

theorem rounds_fillers {i : Int} (hrest : ∀ e u, (∀ b ∈ u, Text.isBlank b = true) →
      s.drop e = u ++ rest → skipRound s "/*".toList e = .ok (.done i))
    (fs : List Filler) (hu : ∀ b ∈ u, Text.isBlank b = true)
    (hs : s.drop e = u ++ (fillersText fs ++ rest)) (n : Nat) (hn : (fillersText fs).length < n) :
    rounds (skipRound s "/*".toList) n e = .ok i := by
  induction fs generalizing u e n with
  | nil =>
    obtain ⟨n, rfl⟩ : ∃ k, n = k + 1 := ⟨n - 1, by omega⟩
    exact rounds_done (hrest e u hu hs) n
  | cons f fs ih =>
    rw [fillersText_cons, List.append_assoc] at hs
    rw [fillersText_cons, List.length_append] at hn
    have hblank : ∀ blanks : Text, blanks.all Text.isBlank = true →
        ∀ b ∈ u ++ blanks, Text.isBlank b = true := by
      intro blanks h b hb
      exact (List.mem_append.mp hb).elim (hu b) (List.all_eq_true.mp h b)
    cases f with
    | kept blanks h =>
      exact ih (hblank blanks h) (by rw [hs, List.append_assoc]; rfl) n (by omega)
    | added blanks h =>
      exact ih (hblank blanks h) (by rw [hs, List.append_assoc]; rfl) n (by omega)
    | comment body h =>
      obtain ⟨n, rfl⟩ : ∃ k, n = k + 1 := ⟨n - 1, by omega⟩
      rw [rounds_again (skipRound_comment h hu hs)]
      rw [← List.append_assoc] at hs
      apply ih (u := []) (by simp) (Text.drop_of_drop_append hs) n
      have hlen : 0 < (Filler.comment body h).text.length := by simp [Filler.text]
      omega

theorem skipRegions_lead (r : NotedRule)
    (hs : s.drop e = fillersText r.lead ++ (r.rule.gap ++ r.rule.onward rest)) :
    skipRegions s "/*".toList e =
      .ok (e + (fillersText r.lead ++ r.rule.gap).length : Nat) := by
  have hlen := congrArg List.length hs
  rw [List.length_drop, List.length_append, List.length_append] at hlen
  refine rounds_fillers (u := []) ?_ r.lead (by simp) hs _ (by omega)
  intro p u hu hp
  have honward : s.drop (p + (u ++ r.rule.gap).length) = r.rule.onward rest := by
    rw [← List.append_assoc] at hp
    exact Text.drop_of_drop_append hp
  have hblank : ∀ b ∈ u ++ r.rule.gap, Text.isBlank b = true := by
    intro b hb
    exact (List.mem_append.mp hb).elim (hu b) (List.all_eq_true.mp r.rule.gap_blank b)
  have hink := r.rule.ink_of_onward honward
  have hplace : p + (u ++ r.rule.gap).length = e + (fillersText r.lead ++ r.rule.gap).length := by
    have hlast := congrArg List.length honward
    have hlt := hink.lt_length
    rw [List.length_drop] at hlast
    rw [List.length_append] at hlast hlt ⊢
    rw [List.length_append]
    omega
  rw [← hplace]
  rw [← List.append_assoc] at hp
  apply skipRound_of_ink (r.rule.nextInk_onward hblank hp) (Nat.le_of_lt hink.lt_length)
  rw [honward]
  exact r.rule.not_prefix_onward rest

theorem skipRegions_ending (x : NotedSheet) (hs : s.drop e = x.ending) :
    skipRegions s "/*".toList e = .ok (-1) := by
  have hlen := congrArg List.length hs
  rw [List.length_drop, NotedSheet.ending, List.length_append] at hlen
  refine rounds_fillers (u := []) ?_ x.tail (by simp) hs _ (by omega)
  intro p u hu hp
  have hopen := x.rest_open
  rw [Bool.or_eq_true, Bool.and_eq_true] at hopen
  rcases hopen with hnil | ⟨hmark, hclosed⟩
  · apply skipRound_of_blank
    rw [List.isEmpty_iff.mp hnil, List.append_nil] at hp
    rcases Text.nextInk_cases s p with ⟨hnext, -⟩ | ⟨v, c, w, hv, -, hc, -⟩
    · exact hnext
    · have hmem : c ∈ u := by
        rw [← hp, hv]
        simp
      rw [hu c hmem] at hc
      cases hc
  · have hrest := Text.drop_of_drop_append hp
    obtain ⟨v, hv⟩ := List.isPrefixOf_iff_prefix.mp hmark
    rw [← hv] at hp
    have hplace : p + u.length ≤ s.length := Nat.le_of_lt (Text.le_length_of_drop hp)
    have hnext : s.nextInk p = .ok (p + u.length : Nat) := Text.nextInk_of_drop hp hu (by decide)
    have hround := skipRound_of_mark hnext hplace ⟨v, hv.trans hrest.symm⟩
      (show closingMark? "/*".toList = some "\\*/".toList from rfl)
    have hfind : s.findText "\\*/".toList (p + u.length : Nat) = -1 := by
      rw [Bool.not_eq_true', Text.holds, Option.isSome_eq_false_iff, Option.isNone_iff_eq_none]
        at hclosed
      rw [Text.findText_natCast hplace, hrest, hclosed]
    rw [hround, if_pos hfind]

theorem find?_fillersText (fs : List Filler) (hrest : rest.find? (!Text.isBlank ·) ≠ some '{') :
    (fillersText fs ++ rest).find? (!Text.isBlank ·) ≠ some '{' := by
  have hblank : ∀ blanks : Text, blanks.all Text.isBlank = true →
      blanks.find? (!Text.isBlank ·) = none := by
    intro blanks h
    rw [List.find?_eq_none]
    intro b hb
    rw [List.all_eq_true.mp h b hb]
    decide
  induction fs with
  | nil => exact hrest
  | cons f fs ih =>
    rw [fillersText_cons, List.append_assoc, List.find?_append]
    cases f with
    | kept blanks h =>
      rw [Filler.text, hblank blanks h]
      exact ih
    | added blanks h =>
      rw [Filler.text, hblank blanks h]
      exact ih
    | comment body h =>
      rw [Filler.text, List.find?_append]
      intro hfind
      exact absurd (Option.some.inj hfind) (by decide)

theorem find?_notedText (x : NotedSheet) (rs : List NotedRule) :
    (notedText x.ending rs).find? (!Text.isBlank ·) ≠ some '{' := by
  cases rs with
  | nil =>
    apply find?_fillersText
    have hopen := x.rest_open
    rw [Bool.or_eq_true, Bool.and_eq_true] at hopen
    rcases hopen with hnil | ⟨hmark, -⟩
    · rw [List.isEmpty_iff.mp hnil]
      simp
    · obtain ⟨v, hv⟩ := List.isPrefixOf_iff_prefix.mp hmark
      rw [← hv]
      intro hfind
      exact absurd (Option.some.inj hfind) (by decide)
  | cons r rs =>
    apply find?_fillersText
    obtain ⟨c, t, honward, hink, hc⟩ := r.rule.exists_onward (notedText x.ending rs)
    rw [honward, List.find?_append, List.find?_cons_of_pos (by rw [hink]; rfl),
      List.find?_eq_none.mpr]
    · intro h
      exact hc (Option.some.inj h)
    · intro b hb
      rw [List.all_eq_true.mp r.rule.gap_blank b hb]
      decide

theorem skipRound_brace (h : (s.drop e).find? (!Text.isBlank ·) ≠ some '{') :
    (skipRound s ['{'] e = .ok (.done (-1)) ∧ ∀ b ∈ s.drop e, Text.isBlank b = true) ∨
      ∃ q : Nat, skipRound s ['{'] e = .ok (.done q) ∧ s.Ink q ∧ s.nextInk q = s.nextInk e := by
  rcases Text.nextInk_cases s e with ⟨hnext, hblank⟩ | ⟨u, c, v, hs, hblank, hc, hnext⟩
  · exact .inl ⟨skipRound_of_blank hnext, hblank⟩
  · right
    have hdrop := Text.drop_of_drop_append hs
    have hink : s.Ink (e + u.length) := by
      refine ⟨c, ?_, hc⟩
      rw [← List.head?_drop, hdrop]
      rfl
    refine ⟨e + u.length, ?_, hink, hink.nextInk_eq.trans hnext.symm⟩
    apply skipRound_of_ink hnext (Nat.le_of_lt hink.lt_length)
    rw [hdrop]
    rintro ⟨w, hw⟩
    apply h
    rw [hs, List.find?_append, List.find?_cons_of_pos (by rw [hc]; rfl), (List.cons.inj hw).1,
      List.find?_eq_none.mpr]
    · rfl
    · intro b hb
      rw [hblank b hb]
      decide

theorem eq_nil_of_blank {rs : List NotedRule}
    (h : ∀ b ∈ notedText ending rs, Text.isBlank b = true) : rs = [] := by
  cases rs with
  | nil => rfl
  | cons r rs =>
    obtain ⟨c, t, honward, hink, -⟩ := r.rule.exists_onward (notedText ending rs)
    rw [notedText, honward] at h
    rw [h c (by simp)] at hink
    cases hink

variable {name : Pattern} {told : List Report}

theorem rounds_noted (hname : Names name word) (hword : word.all Text.isWord = true)
    (x : NotedSheet) (rs : List NotedRule) (hp : s.nextInk p = s.nextInk e)
    (hs : s.drop e = notedText x.ending rs) (n : Nat) (hn : rs.length < n) :
    rounds (round name s) n ⟨p, told⟩ =
      .ok (told ++ notedReports word x.ending (s.take e) rs) := by
  induction rs generalizing p e told n with
  | nil =>
    obtain ⟨n, rfl⟩ : ∃ k, n = k + 1 := ⟨n - 1, by omega⟩
    have hskip : skipRegions s "/*".toList p = .ok (-1) := by
      rw [skipRegions_congr hp]
      exact skipRegions_ending x hs
    rw [rounds_done (round_of_end hskip), notedReports, List.append_nil]
  | cons r rs ih =>
    obtain ⟨n, rfl⟩ : ∃ k, n = k + 1 := ⟨n - 1, by omega⟩
    rw [List.length_cons] at hn
    rw [notedText] at hs
    obtain ⟨q, hq⟩ : ∃ q, q = e + (fillersText r.lead ++ r.rule.gap).length := ⟨_, rfl⟩
    obtain ⟨stop, hstop⟩ : ∃ k, k = q + (r.rule.onward []).length := ⟨_, rfl⟩
    have hskip : skipRegions s "/*".toList p = .ok q := by
      rw [skipRegions_congr hp, hq]
      exact skipRegions_lead r hs
    rw [← List.append_assoc] at hs
    have honward : s.drop q = r.rule.onward (notedText x.ending rs) := by
      rw [hq]
      exact Text.drop_of_drop_append hs
    have hafter : s.drop stop = notedText x.ending rs := by
      rw [hstop]
      exact r.rule.drop_after honward
    have hlead : s.take q = s.take e ++ fillersText r.lead ++ r.rule.gap := by
      rw [hq, Text.take_of_drop hs, List.append_assoc]
    have htaken : s.take stop = s.take q ++ r.rule.onward [] := by
      rw [r.rule.onward_append] at honward
      rw [hstop, Text.take_of_drop honward]
    have hown : selectorReports name s q = r.rule.reports word (s.take q) (notedText x.ending rs) :=
      selectorReports_eq hname hword r.rule honward
    have hblock : skipRegions s ['{'] (s.find '{' q) =
        rounds (skipRound s ['{']) (s.length + 2) stop := by
      rw [r.rule.find_brace honward, r.rule.skipRegions_block honward, hstop]
    simp only [notedReports, ← hlead, ← htaken, ← hown]
    rcases skipRound_brace (s := s) (e := stop) (by rw [hafter]; exact find?_notedText x rs) with
      ⟨hbrace, hblank⟩ | ⟨j, hbrace, hink, hnext⟩
    · rw [hafter] at hblank
      rw [rounds_done (round_of_selector hskip (hblock.trans (rounds_done hbrace _)) (by omega)),
        eq_nil_of_blank hblank, notedReports, List.append_nil]
    · have hround : round name s ⟨p, told⟩ = .ok (if (j : Int) = -1 then _ else _) :=
        round_of_selector hskip (hblock.trans (rounds_done hbrace _))
          (by have := hink.lt_length; omega)
      rw [if_neg (by omega)] at hround
      rw [rounds_again hround, ih hnext hafter n (by omega), List.append_assoc]

theorem length_le_notedText (ending : Text) (rs : List NotedRule) :
    rs.length ≤ (notedText ending rs).length := by
  induction rs with
  | nil => exact Nat.zero_le _
  | cons r rs ih =>
    simp only [notedText, StyleRule.onward, List.length_append, List.length_cons]
    omega

theorem check_noted (x : NotedSheet) (hword : word.all Text.isWord = true) :
    check x.text (word ++ ".qss".toList) = .ok (notedReports word x.ending [] x.rules) := by
  obtain ⟨name, hread, hname⟩ := Pattern.exists_read_of_isWord (List.all_eq_true.mp hword)
  have hlen : x.rules.length ≤ x.text.length := length_le_notedText x.ending x.rules
  rw [check, stem_append, hread]
  exact rounds_noted (s := x.text) (p := 0) (e := 0) hname hword x x.rules rfl rfl _ (by omega)

theorem count_fillersText (fs : List Filler) :
    (fillersText fs).count '\n' =
      (fillersText (fs.filter Filler.isKept)).count '\n' + fillersBreaks fs := by
  induction fs with
  | nil => rfl
  | cons f fs ih =>
    rw [fillersText_cons, fillersBreaks_cons, List.count_append, ih, Filler.breaks]
    cases hf : f.isKept with
    | false =>
      rw [List.filter_cons_of_neg (by rw [hf]; exact Bool.false_ne_true), if_neg Bool.false_ne_true]
      omega
    | true =>
      rw [List.filter_cons_of_pos hf, fillersText_cons, List.count_append, if_pos rfl]
      omega

theorem reports_lines (r : StyleRule) (word rest rest₀ : Text) {before before₀ : Text} {k : Nat}
    (h : before.count '\n' = before₀.count '\n' + k) :
    (r.reports word before rest).map (fun r => (r.rule, r.line)) =
      List.zipWith (fun (r : Report) (n : Nat) => (r.rule, r.line + (n : Int)))
        (r.reports word before₀ rest₀) (if word.isPrefixOf r.selector then [] else [k]) ∧
    (r.reports word before₀ rest₀).length =
      (if word.isPrefixOf r.selector then [] else [k]).length := by
  simp only [StyleRule.reports, h]
  split
  · exact ⟨rfl, rfl⟩
  · refine ⟨?_, rfl⟩
    simp only [List.map_cons, List.map_nil, List.zipWith_cons_cons, List.zipWith_nil_right]
    congr 2
    omega

theorem notedReports_lines (word ending ending₀ : Text) {told told₀ : Text} {k : Nat}
    (htold : told.count '\n' = told₀.count '\n' + k) (rs : List NotedRule) :
    (notedReports word ending told rs).map (fun r => (r.rule, r.line)) =
      List.zipWith (fun (r : Report) (n : Nat) => (r.rule, r.line + (n : Int)))
        (notedReports word ending₀ told₀ (rs.map NotedRule.bare)) (shifts word k rs) ∧
    (notedReports word ending₀ told₀ (rs.map NotedRule.bare)).length =
      (shifts word k rs).length := by
  induction rs generalizing told told₀ k with
  | nil => exact ⟨rfl, rfl⟩
  | cons r rs ih =>
    have hlead := count_fillersText r.lead
    have hbefore : (told ++ fillersText r.lead ++ r.rule.gap).count '\n' =
        (told₀ ++ fillersText r.bare.lead ++ r.rule.gap).count '\n' +
          (k + fillersBreaks r.lead) := by
      simp only [List.count_append, NotedRule.bare]
      omega
    have hafter : (told ++ fillersText r.lead ++ r.rule.gap ++ r.rule.onward []).count '\n' =
        (told₀ ++ fillersText r.bare.lead ++ r.rule.gap ++ r.rule.onward []).count '\n' +
          (k + fillersBreaks r.lead) := by
      rw [List.count_append, hbefore]
      simp only [List.count_append]
      omega
    obtain ⟨hown, hownLength⟩ := reports_lines r.rule word (notedText ending rs)
      (notedText ending₀ (rs.map NotedRule.bare)) hbefore
    obtain ⟨hrest, hrestLength⟩ := ih hafter
    simp only [List.map_cons, notedReports, shifts, List.map_append, r.bare_rule]
    constructor
    · rw [hown, hrest]
      exact (List.zipWith_append hownLength).symm
    · rw [List.length_append, List.length_append]
      omega

theorem takeWhile_append_congr {a b : Text} (w : Text)
    (h : '\n' ∈ w ∨ a.takeWhile (· != '\n') = b.takeWhile (· != '\n')) :
    (w ++ a).takeWhile (· != '\n') = (w ++ b).takeWhile (· != '\n') := by
  induction w with
  | nil => simpa using h
  | cons c w ih =>
    rw [List.cons_append, List.cons_append, List.takeWhile_cons, List.takeWhile_cons]
    by_cases hc : c = '\n'
    · rw [hc]
      rfl
    · rw [ih]
      refine h.imp ?_ id
      intro hmem
      exact (List.mem_cons.mp hmem).resolve_left (Ne.symm hc)

theorem takeWhile_fillersText {a b : Text} {more : Bool} (fs : List Filler)
    (hfs : startsLine more fs = true)
    (h : more = false → a.takeWhile (· != '\n') = b.takeWhile (· != '\n')) :
    (fillersText fs ++ a).takeWhile (· != '\n') =
      (fillersText (fs.filter Filler.isKept) ++ b).takeWhile (· != '\n') := by
  induction fs with
  | nil => exact h (by simpa [startsLine] using hfs)
  | cons f fs ih =>
    rw [startsLine, Bool.and_eq_true, Bool.or_eq_true] at hfs
    obtain ⟨hkept, hline⟩ := hfs
    rw [List.filter_cons_of_pos hkept, fillersText_cons, fillersText_cons, List.append_assoc,
      List.append_assoc]
    exact takeWhile_append_congr _ (hline.imp List.contains_iff_mem.mp ih)

theorem takeWhile_notedText (x : NotedSheet) (rs : List NotedRule)
    (hrs : rs.all (fun r => startsLine false r.lead) = true)
    (htail : startsLine (!x.rest.isEmpty) x.tail = true) :
    (notedText x.ending rs).takeWhile (· != '\n') =
      (notedText x.bare.ending (rs.map NotedRule.bare)).takeWhile (· != '\n') := by
  induction rs with
  | nil =>
    apply takeWhile_fillersText x.tail htail
    intro hrest
    rw [Bool.not_eq_false', List.isEmpty_iff] at hrest
    rw [hrest]
    rfl
  | cons r rs ih =>
    rw [List.all_cons, Bool.and_eq_true] at hrs
    rw [List.map_cons, notedText, notedText]
    apply takeWhile_fillersText r.lead hrs.1
    intro _
    rw [r.rule.onward_append, r.bare.rule.onward_append, ← List.append_assoc, ← List.append_assoc]
    exact takeWhile_append_congr _ (.inr (ih hrs.2))

theorem reports_contexts (r : StyleRule) (word before before₀ : Text) {rest rest₀ : Text}
    (h : (r.onward rest).takeWhile (· != '\n') = (r.onward rest₀).takeWhile (· != '\n')) :
    (r.reports word before rest).map (·.context) =
      (r.reports word before₀ rest₀).map (·.context) := by
  by_cases hown : word.isPrefixOf r.selector = true
  · simp only [StyleRule.reports, if_pos hown]
  · simp only [StyleRule.reports, if_neg hown, h, List.map_cons, List.map_nil]

theorem notedReports_contexts (x : NotedSheet) (told told₀ : Text) (rs : List NotedRule)
    (hrs : (rs.drop 1).all (fun r => startsLine false r.lead) = true)
    (htail : startsLine (!x.rest.isEmpty) x.tail = true) :
    (notedReports word x.ending told rs).map (·.context) =
      (notedReports word x.bare.ending told₀ (rs.map NotedRule.bare)).map (·.context) := by
  induction rs generalizing told told₀ with
  | nil => rfl
  | cons r rs ih =>
    rw [List.drop_one, List.tail_cons] at hrs
    have hnext : (rs.drop 1).all (fun r => startsLine false r.lead) = true := by
      rw [List.all_eq_true] at hrs ⊢
      intro t ht
      exact hrs t (List.mem_of_mem_drop ht)
    have hcontext : (r.rule.onward (notedText x.ending rs)).takeWhile (· != '\n') =
        (r.rule.onward (notedText x.bare.ending (rs.map NotedRule.bare))).takeWhile
          (· != '\n') := by
      rw [r.rule.onward_append, r.rule.onward_append (notedText x.bare.ending _)]
      exact takeWhile_append_congr _ (.inr (takeWhile_notedText x rs hrs htail))
    simp only [List.map_cons, notedReports, List.map_append]
    rw [ih _ _ hnext]
    exact congrArg (· ++ _) (reports_contexts r.rule word _ _ hcontext)

theorem check_comments (x : NotedSheet) (word : Text) (hword : word.all Text.isWord = true) :
    ∃ plain noted, check x.bare.text (word ++ ".qss".toList) = .ok plain ∧
      check x.text (word ++ ".qss".toList) = .ok noted ∧
      (noted.map (fun r => (r.rule, r.line)) =
        List.zipWith (fun (r : Report) (n : Nat) => (r.rule, r.line + (n : Int))) plain
          (shifts word 0 x.rules) ∧
        plain.length = (shifts word 0 x.rules).length) ∧
      (x.onOwnLines = true → noted.map (·.context) = plain.map (·.context)) := by
  refine ⟨_, _, check_noted x.bare hword, check_noted x hword, ?_, ?_⟩
  · exact notedReports_lines word x.ending x.bare.ending rfl x.rules
  · intro hlines
    rw [NotedSheet.onOwnLines, Bool.and_eq_true] at hlines
    exact notedReports_contexts x [] [] x.rules hlines.1 hlines.2

def notedBox : NotedSheet where
  rules := [
    ⟨[.comment "n".toList rfl, .added "  ".toList rfl],
      ⟨"\t".toList, "citNote".toList, "w: 1".toList, rfl, rfl, rfl, rfl, rfl⟩⟩,
    ⟨[.kept " \n".toList rfl, .comment " a\x7b\x7d*/\n".toList rfl, .added "\n\t".toList rfl],
      ⟨"\t".toList, "b".toList, "w: 1".toList, rfl, rfl, rfl, rfl, rfl⟩⟩]
  tail := [.kept " \n".toList rfl]
  rest := "/*c*/d\x7b\x7d".toList
  rest_open := rfl

theorem check_notedBox :
    notedBox.bare.text = "\tcitNote\x7bw: 1\x7d \n\tb\x7bw: 1\x7d \n".toList ∧
    notedBox.text = ("/*n\\*/  \tcitNote\x7bw: 1\x7d \n/* a\x7b\x7d*/\n\\*/\n\t\tb\x7bw: 1\x7d \n" ++
      "/*c*/d\x7b\x7d").toList ∧
    notedBox.onOwnLines = true ∧
    ∃ plain noted, check notedBox.bare.text "citNote.qss".toList = .ok plain ∧
      check notedBox.text "citNote.qss".toList = .ok noted ∧
      (noted.map (fun r => (r.rule, r.line)) =
        List.zipWith (fun (r : Report) (n : Nat) => (r.rule, r.line + (n : Int))) plain [2] ∧
        plain.length = 1) ∧
      (notedBox.onOwnLines = true → noted.map (·.context) = plain.map (·.context)) := by
  refine ⟨by decide, by decide, by decide, ?_⟩
  exact check_comments notedBox "citNote".toList (by decide)

theorem check_hidden_rule :
    check "/*c*/a\x7b\x7d".toList "b.qss".toList = .ok [] ∧
      check "a\x7b\x7d".toList "b.qss".toList =
        .ok [⟨1, .foreignSelector, some "a\x7b\x7d".toList, none⟩] :=
  ⟨Scan.eq_ok_of_toOption (by decide +kernel), Scan.eq_ok_of_toOption (by decide +kernel)⟩

end CodeAudit.Stylesheet
