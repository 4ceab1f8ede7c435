import CodeAudit.Proofs.Nesting.Heads

namespace CodeAudit.Nesting

variable {s u v : Text} {a depth n : Nat} {head : Head} {body : Tail} {before after : Text}

theorem trim_title (head : Head) : (head.margin ++ head.title).trim = head.title := by
  obtain ⟨d, w, hd, hword⟩ := head.exists_keyword
  have hfront : Text.dropBlanks (head.margin ++ head.title) = head.title := by
    rw [dropBlanks_margin head.margin_isMargin, Head.title, hd]
    exact List.dropWhile_cons_of_neg (by simp [Text.not_isBlank_of_isWord hword])
  have hback : Text.dropBlanks head.title.reverse = head.title.reverse := by
    rw [Head.title, List.reverse_concat]
    exact List.dropWhile_cons_of_neg (by decide)
  rw [Text.trim, hfront, hback, List.reverse_reverse]

variable {inner : String → Span → Scan (Nat × List Report)} {i stop : Int} {lines : Nat}
  {reports : List Report}

theorem round_done (h : stop ≤ i) :
    round inner s stop ⟨i, lines, reports⟩ = .ok (.done ⟨i, lines, reports⟩) := by
  rw [round, if_neg (Int.not_lt.mpr h)]
  rfl

theorem round_line (h : i < stop) (hnone : first? s i measured = .ok none) :
    round inner s stop ⟨i, lines, reports⟩ = .ok (.again ⟨s.lineEnd i + 1, lines + 1, reports⟩) := by
  rw [round, if_pos h, hnone]
  rfl

theorem round_nested {keyword : String} {x : Span} {z : Nat × List Report} (h : i < stop)
    (hfound : first? s i measured = .ok (some (keyword, x))) (hinner : inner keyword x = .ok z) :
    round inner s stop ⟨i, lines, reports⟩ =
      .ok (.again ⟨s.lineEnd x.stop + 1, lines + 1, reports ++ z.2⟩) := by
  rw [round, if_pos h, hfound]
  simp only [bind, Except.bind, hinner]
  rfl

theorem not_mem_lead (head : Head) {c : Char} (hc : isBare c = false) : c ∉ head.lead := by
  have hspace : c ≠ ' ' := by
    rintro rfl
    cases hc
  simp [Head.lead, hspace, not_mem_of_isBare (all_isBare_of_isMargin head.margin_isMargin) hc,
    not_mem_of_isBare head.keyword_isBare hc]

theorem slice_title (hs : s.drop a = head.margin ++ head.title ++ v) :
    (s.slice a (s.find ')' a + 1)).trim = head.title := by
  have hclose : ')' ∉ head.lead ++ '(' :: head.condition := by
    simp [not_mem_lead head (c := ')') rfl, not_mem_of_isBare head.condition_isBare (c := ')') rfl]
  have htitle : head.margin ++ head.title = head.lead ++ '(' :: head.condition ++ [')'] := by
    simp [Head.title, Head.lead]
  have hs' : s.drop a = (head.lead ++ '(' :: head.condition) ++ ')' :: v := by
    rw [hs, htitle]
    simp
  have hfind : s.find ')' a + 1 = (a + (head.margin ++ head.title).length : Nat) := by
    rw [Text.find_of_drop hs' hclose, htitle]
    simp only [List.length_append, List.length_cons, List.length_nil]
    omega
  rw [hfind, Text.slice_of_drop hs rfl, trim_title]

theorem measure_of_rounds {stop e : Int}
    (hs : s = before ++ (head.margin ++ head.title ++ (u ++ '\n' :: v))) (hu : '\n' ∉ u)
    (h : rounds (round (measure s depth) s stop) (s.length + 2)
      ⟨(before ++ (head.margin ++ head.title ++ (u ++ ['\n']))).length, 0, []⟩ =
        .ok ⟨e, lines, reports⟩) :
    measure s (depth + 1) head.keyword ⟨before.length, stop⟩ =
      .ok (lines, reports ++ head.reports before lines) := by
  have hdrop : s.drop before.length = head.margin ++ head.title ++ (u ++ '\n' :: v) := by
    rw [hs, List.drop_left]
  have hlead : s.drop before.length =
      head.lead ++ '(' :: (head.condition ++ ')' :: (u ++ '\n' :: v)) := by
    simp [hdrop, Head.title, Head.lead]
  have hopen : s.find '(' before.length = (before.length + head.lead.length : Nat) :=
    Text.find_of_drop hlead (not_mem_lead head rfl)
  have hline : s.lineOf before.length = before.count '\n' + 1 := by
    rw [Text.lineOf_natCast, hs, List.take_left]
  have hclose : s.drop (before.length + (head.lead ++ '(' :: head.condition).length) =
      (')' :: u) ++ '\n' :: v := by
    apply Text.drop_of_drop_append
    rw [hlead]
    simp
  have hfirst : (s.lineEnd (before.length + head.lead.length + head.condition.length + 1 : Nat) : Int)
      + 1 = (before ++ (head.margin ++ head.title ++ (u ++ ['\n']))).length := by
    have hend := Text.lineEnd_of_drop hclose (by simpa using hu)
    have hplace : before.length + (head.lead ++ '(' :: head.condition).length =
        before.length + head.lead.length + head.condition.length + 1 := by
      simp only [List.length_append, List.length_cons]
      omega
    rw [hplace] at hend
    rw [hend]
    simp only [Head.title, Head.lead, List.length_append, List.length_cons, List.length_nil]
    omega
  rw [measure]
  simp only [hopen, partner_paren hdrop, bind, Except.bind, hfirst, h, slice_title hdrop, hline,
    Head.reports, maxLines, gt_iff_lt]
  by_cases hlong : 10 < lines
  · rw [if_pos hlong, if_pos hlong]
    rfl
  · rw [if_neg hlong, if_neg hlong, List.append_nil]
    rfl

theorem measure_head (hs : s = before ++ head.text ++ body.text ++ after)
    (h : ∃ e, rounds (round (measure s depth) s
      ((before ++ head.text).length + body.text.length - 1 : Nat)) (s.length + 2)
        ⟨(before ++ head.text).length, 0, []⟩ =
          .ok ⟨e, 0 + body.children + 1, [] ++ body.reports (before ++ head.text)⟩) :
    measure s (depth + 1) head.keyword ⟨before.length, (lastPlace before.length head body : Nat)⟩ =
      .ok (body.children + 1,
        body.reports (before ++ head.text) ++ head.reports before (body.children + 1)) := by
  have htext : head.text = head.margin ++ head.title ++ ([' ', '{'] ++ ['\n']) := by
    simp [Head.text, head.opening_eq]
  have hs' : s = before ++ (head.margin ++ head.title ++
      ([' ', '{'] ++ '\n' :: (body.text ++ after))) := by
    rw [hs, htext]
    simp
  obtain ⟨e, he⟩ := h
  rw [htext, Nat.zero_add, List.nil_append] at he
  rw [lastPlace, ← List.length_append, htext]
  exact measure_of_rounds hs' (by decide) he

theorem lineEnd_lastPlace (hs : s.drop a = head.text ++ body.text ++ '\n' :: v) :
    s.lineEnd (lastPlace a head body : Nat) = a + head.text.length + body.text.length := by
  obtain ⟨w, hw, -⟩ := body.exists_balanced
  have hs : s.drop a = (head.text ++ w) ++ (['}'] ++ '\n' :: v) := by simp [hs, hw]
  have hplace : lastPlace a head body = a + (head.text ++ w).length := by
    simp only [lastPlace, hw, List.length_append, List.length_cons, List.length_nil]
    omega
  rw [hplace, Text.lineEnd_of_drop (Text.drop_of_drop_append hs) (by decide)]
  simp only [hw, List.length_append, List.length_cons, List.length_nil]
  omega

theorem rounds_tail (t : Tail) (hs : s = before ++ t.text ++ after) (hd : t.text.length ≤ depth)
    (hn : t.text.length < n) (lines : Nat) (reports : List Report) :
    ∃ e, rounds (round (measure s depth) s (before.length + t.text.length - 1 : Nat)) n
      ⟨before.length, lines, reports⟩ =
        .ok ⟨e, lines + t.children + 1, reports ++ t.reports before⟩ := by
  induction t generalizing before after depth n lines reports with
  | close foot =>
    have hmargin : 0 < foot.margin.length := List.length_pos_iff.mpr foot.margin_ne_nil
    have hdrop : s.drop before.length = foot.margin ++ '}' :: after := by simp [hs, Tail.text]
    have hbreak : '\n' ∉ foot.margin ++ ['}'] := by
      simp [not_mem_of_isBare (c := '\n') (all_isBare_of_isMargin foot.margin_isMargin) rfl]
    have hend := Text.le_lineEnd_of_drop (s := s) (a := before.length) (u := foot.margin ++ ['}'])
      (v := after) (by simp [hs]) (by simp [hdrop]) hbreak
    simp only [Tail.text, List.length_append, List.length_cons, List.length_nil] at hn hend ⊢
    obtain ⟨n, rfl⟩ : ∃ k, n = k + 1 + 1 := ⟨n - 2, by omega⟩
    refine ⟨s.lineEnd before.length + 1, ?_⟩
    rw [rounds_again (round_line (by omega) (first?_brace (by simp) foot.margin_isMargin hdrop)),
      rounds_done (round_done (by omega))]
    simp [Tail.children, Tail.reports]
  | line l rest ih =>
    have hdrop : s.drop before.length = l.text ++ '\n' :: (rest.text ++ after) := by
      simp [hs, Tail.text]
    have hend := Text.lineEnd_of_drop hdrop (not_mem_of_isBare l.isBare rfl)
    have hlen : (Tail.line l rest).text.length = l.text.length + 1 + rest.text.length := by
      simp only [Tail.text, List.length_append, List.length_cons]
      omega
    have hnext : (before ++ l.text ++ ['\n']).length = before.length + l.text.length + 1 := by
      simp only [List.length_append, List.length_cons, List.length_nil]
    have hpos := rest.text_length_pos
    obtain ⟨n, rfl⟩ : ∃ k, n = k + 1 := ⟨n - 1, by omega⟩
    have hs' : s = before ++ l.text ++ ['\n'] ++ rest.text ++ after := by simp [hs, Tail.text]
    obtain ⟨e, he⟩ := ih hs' (by omega : rest.text.length ≤ depth)
      (by omega : rest.text.length < n) (lines + 1) reports
    refine ⟨e, ?_⟩
    rw [rounds_again (round_line (by omega)
      (first?_bare l.isBare (rest.head?_dropBlanks after) hdrop)), hend]
    have hstop : (before ++ l.text ++ ['\n']).length + rest.text.length - 1 =
        before.length + (Tail.line l rest).text.length - 1 := by omega
    rw [hstop, hnext, Nat.add_right_comm lines 1] at he
    exact he
  | nested h body rest ihb ihr =>
    have hdrop : s.drop before.length = h.text ++ body.text ++ '\n' :: (rest.text ++ after) := by
      simp [hs, Tail.text]
    have hlen : (Tail.nested h body rest).text.length =
        h.text.length + body.text.length + 1 + rest.text.length := by
      simp only [Tail.text, List.length_append, List.length_cons]
      omega
    have hslen : s.length = before.length + (Tail.nested h body rest).text.length + after.length := by
      simp only [hs, List.length_append]
    have hnext : (before ++ h.text ++ body.text ++ ['\n']).length =
        before.length + h.text.length + body.text.length + 1 := by
      simp only [List.length_append, List.length_cons, List.length_nil]
    have hpos := rest.text_length_pos
    have hhead : 0 < h.text.length := by simp [Head.text]
    obtain ⟨n, rfl⟩ : ∃ k, n = k + 1 := ⟨n - 1, by omega⟩
    obtain ⟨depth, rfl⟩ : ∃ k, depth = k + 1 := ⟨depth - 1, by omega⟩
    have hs' : s = before ++ h.text ++ body.text ++ '\n' :: (rest.text ++ after) := by
      simp [hs, Tail.text]
    -- the statement within is measured as a whole, with one level less
    have hinner := measure_head hs' (ihb hs' (by omega : body.text.length ≤ depth)
      (by omega : body.text.length < s.length + 2) 0 [])
    have hs'' : s = before ++ h.text ++ body.text ++ ['\n'] ++ rest.text ++ after := by
      simp [hs, Tail.text]
    obtain ⟨e, he⟩ := ihr hs'' (by omega : rest.text.length ≤ depth + 1)
      (by omega : rest.text.length < n) (lines + 1)
      (reports ++ (body.reports (before ++ h.text) ++ h.reports before (body.children + 1)))
    refine ⟨e, ?_⟩
    have hlt : (before.length : Int) <
        (before.length + (Tail.nested h body rest).text.length - 1 : Nat) := by omega
    rw [rounds_again (round_nested hlt (first?_head hdrop) hinner), lineEnd_lastPlace hdrop]
    have hstop : (before ++ h.text ++ body.text ++ ['\n']).length + rest.text.length - 1 =
        before.length + (Tail.nested h body rest).text.length - 1 := by omega
    rw [hstop, hnext, Nat.add_right_comm lines 1, List.append_assoc reports] at he
    exact he

theorem check_head (hs : s = before ++ head.text ++ body.text ++ after) :
    check s head.keyword ⟨before.length, (lastPlace before.length head body : Nat)⟩ =
      .ok (body.children + 1,
        body.reports (before ++ head.text) ++ head.reports before (body.children + 1)) := by
  have hlen : s.length = before.length + head.text.length + body.text.length + after.length := by
    simp only [hs, List.length_append]
  exact measure_head hs (rounds_tail body hs (by omega : body.text.length ≤ s.length + 1)
    (by omega : body.text.length < s.length + 2) 0 [])

def Head.inset (head : Head) (k : Nat) : Head :=
  { head with
    margin := head.margin.drop k
    margin_isMargin := List.all_eq_true.mpr fun c hc =>
      List.all_eq_true.mp head.margin_isMargin c (List.mem_of_mem_drop hc) }

theorem Head.take_append_inset (head : Head) (k : Nat) :
    head.margin.take k ++ (head.inset k).text = head.text := by
  simp only [Head.text, Head.opening, Head.lead, Head.inset, ← List.append_assoc,
    List.take_append_drop]

theorem Head.reports_inset (head : Head) (k lines : Nat) (before : Text) :
    (head.inset k).reports (before ++ head.margin.take k) lines = head.reports before lines := by
  have hbreak : '\n' ∉ head.margin.take k := fun hmem =>
    not_mem_of_isBare (all_isBare_of_isMargin head.margin_isMargin) rfl (List.mem_of_mem_take hmem)
  simp only [Head.reports, List.count_append, List.count_eq_zero.mpr hbreak, Nat.add_zero]
  rfl

theorem check_statement (before after : Text) (head : Head) (body : Tail)
    (hfirst : before.length ≤ a) (hlast : a ≤ before.length + head.margin.length) :
    check (before ++ head.text ++ body.text ++ after) head.keyword
        ⟨a, (before ++ head.text ++ body.text).length - 1⟩ =
      .ok (body.children + 1,
        body.reports (before ++ head.text) ++ head.reports before (body.children + 1)) := by
  have hbefore : (before ++ head.margin.take (a - before.length)).length = a := by
    rw [List.length_append, List.length_take]
    omega
  have htext : before ++ head.margin.take (a - before.length) ++ (head.inset (a - before.length)).text =
      before ++ head.text := by
    rw [List.append_assoc, head.take_append_inset]
  have hs : before ++ head.text ++ body.text ++ after =
      before ++ head.margin.take (a - before.length) ++ (head.inset (a - before.length)).text ++
        body.text ++ after := by rw [htext]
  have hcheck := check_head hs
  have hpos := body.text_length_pos
  have hstop : lastPlace (before ++ head.margin.take (a - before.length)).length
      (head.inset (a - before.length)) body = (before ++ head.text ++ body.text).length - 1 := by
    rw [lastPlace, ← List.length_append, htext, ← List.length_append]
  rw [htext, head.reports_inset, hstop, hbefore, Int.ofNat_sub
    (by rw [List.length_append]; omega)] at hcheck
  exact hcheck

def choice : Head where
  margin := "\t ".toList
  keyword := "if"
  condition := "a".toList
  margin_isMargin := by decide
  keyword_mem := by decide
  condition_ne_nil := by decide
  condition_isBare := by decide
  condition_parts := by decide

def loop : Head where
  margin := "\t\t".toList
  keyword := "for"
  condition := ";;".toList
  margin_isMargin := by decide
  keyword_mem := by decide
  condition_ne_nil := by decide
  condition_isBare := by decide
  condition_parts := by decide

def step : PlainLine := ⟨"b = elsewhere;".toList, by decide, by decide⟩

def foot : Foot := ⟨['\t'], by decide, by decide⟩

def choiceTail : Tail :=
  .nested loop ((List.replicate 10 step).foldr Tail.line (.close foot)) (.line step (.close foot))

theorem check_choice :
    "a;\n".toList.length ≤ 4 ∧ 4 ≤ "a;\n".toList.length + choice.margin.length ∧
      check ("a;\n".toList ++ choice.text ++ choiceTail.text ++ "else".toList) "if"
          ⟨4, ("a;\n".toList ++ choice.text ++ choiceTail.text).length - 1⟩ =
        .ok (3, [⟨3, .longStatement "for", some "for (;;)".toList, none⟩]) := by
  refine ⟨by decide, by decide, ?_⟩
  have hcheck := check_statement (a := 4) "a;\n".toList "else".toList choice choiceTail (by decide)
    (by decide)
  have hreports : choiceTail.reports ("a;\n".toList ++ choice.text) ++
      choice.reports "a;\n".toList (choiceTail.children + 1) =
        [⟨3, .longStatement "for", some "for (;;)".toList, none⟩] := by decide +kernel
  rw [hreports] at hcheck
  exact hcheck

end CodeAudit.Nesting
