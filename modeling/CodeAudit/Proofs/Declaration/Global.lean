import CodeAudit.Proofs.Class.Head
import CodeAudit.Proofs.Declaration.MacroEnd
import CodeAudit.Proofs.Declaration.Member
import CodeAudit.Proofs.Pattern.Walk

namespace CodeAudit.Declaration

open Pattern Shape

variable {s t n u v w : Text} {a : Nat} {c : Context}

theorem matchAt_macroName (hn : n.isPlainWord = true) (hs : s.drop a = n ++ v)
    (hv : ∀ b ∈ v.head?, Text.isWord b = false ∧ b ≠ '(') :
    macroName.matchAt s a = some ⟨a, a + n.length, []⟩ := by
  have ha : a ≤ s.length := by
    obtain ⟨d, n, rfl⟩ := List.exists_cons_of_ne_nil (Text.isPlainWord_ne_nil hn)
    have := Text.le_length_of_drop (u := []) hs
    omega
  have hword : ∀ b ∈ n, CharClass.word.has b = true := fun b hb =>
    Text.isWord_of_isIdentifier (Text.isIdentifier_of_isPlainWord hn) (List.mem_cons_of_mem _ hb)
  apply matchAt_of_walk (y := ⟨a + n.length, v, []⟩) ha
  rw [macroName, walk_cat, word, many1]
  apply walk_whole_run hs hword (List.length_pos_iff.mpr (Text.isPlainWord_ne_nil hn))
    (fun b hb => (hv b hb).1)
  apply walk_alt_right
  · rw [walk_cat, walk_cat]
    apply walk_lit_none
    rintro ⟨r, hr⟩
    have hr : '(' :: r = v := hr
    exact (hv '(' (by rw [← hr]; rfl)).2 rfl
  · exact walk_lit (v := v) rfl

theorem macroEnd_of_line (ha : a ≤ s.length) (hs : s.drop a = u ++ v) (hu : '\n' ∉ u)
    (hv : ∀ b ∈ v.head?, b = '\n') (hne : u ≠ []) (hlast : u.getLast? ≠ some '\\') :
    macroEnd s a = .ok (a + u.length : Nat) := by
  obtain ⟨w, d, rfl⟩ : ∃ w d, u = w ++ [d] :=
    ⟨u.dropLast, u.getLast hne, (List.dropLast_concat_getLast hne).symm⟩
  have hd : (d == '\\') = false := beq_false_of_ne (by simpa using hlast)
  have hplace : ((a + (w ++ [d]).length : Nat) : Int) - 1 = (a + w.length : Nat) := by
    rw [List.length_append, List.length_singleton]
    omega
  have hchar : s.charAt (a + w.length : Nat) = .ok d := by
    apply Text.charAt_of_drop (v := v)
    apply Text.drop_of_drop_append
    rw [hs, List.append_assoc, List.singleton_append]
  apply rounds_done
  rw [macroEndRound, Text.lineEnd_of_line ha hs hu hv]
  simp only [hplace, hchar, bind, Except.bind, hd]
  rfl

theorem define_found (hn : n.isPlainWord = true) (hw : '\n' ∉ w) (hsep : ∀ b ∈ w.head?, b = ' ')
    (hlast : (n ++ w).getLast? ≠ some '\\') (hv : ∀ b ∈ v.head?, b = '\n')
    (hs : s.drop a = "#define ".toList ++ n ++ w ++ v) :
    define s a c = (.ok (some ⟨⟨a, (a + ("#define ".toList ++ n ++ w).length : Nat)⟩,
      (macroRule? n).toList.map fun rule => ⟨c.line, rule, some n, none⟩⟩), c) := by
  obtain ⟨d, n', rfl⟩ := List.exists_cons_of_ne_nil (Text.isPlainWord_ne_nil hn)
  have hident := Text.isIdentifier_of_isPlainWord hn
  have hword : Text.isWord d = true := Text.isWord_of_isIdentifier hident (by simp)
  have hbreak : '\n' ∉ d :: n' := fun hmem =>
    absurd (Text.not_isBlank_of_isIdentifier hident (List.mem_cons_of_mem _ hmem)) (by decide)
  have hs1 : s.drop a = "#define".toList ++ ([' '] ++ d :: (n' ++ (w ++ v))) := by simp [hs]
  obtain ⟨m, hm, hdefine⟩ := define_eq hs1 (List.all_eq_true.mp (by decide)) hword c
  have hrest : s.drop (a + 7) = [' '] ++ d :: (n' ++ (w ++ v)) := Text.drop_of_drop_append hs1
  have hname : s.drop (a + 8) = d :: n' ++ (w ++ v) := Text.drop_of_drop_append hrest
  have hafter : ∀ b ∈ (w ++ v).head?, Text.isWord b = false ∧ b ≠ '(' := by
    intro b hb
    have hb : b = ' ' ∨ b = '\n' := by
      cases w with
      | nil => exact .inr (hv b hb)
      | cons e w => exact .inl (hsep b hb)
    rcases hb with rfl | rfl <;> decide
  rw [List.length_singleton, matchAt_macroName hn hname hafter] at hm
  obtain rfl := Option.some.inj hm
  have htext : Match.text ⟨a + 8, a + 8 + (d :: n').length, []⟩ s = d :: n' :=
    Text.drop_take_eq_of_drop_eq hname rfl
  have hend : macroEnd s (a + 7 : Nat) = .ok (a + 7 + (' ' :: d :: n' ++ w).length : Nat) := by
    apply macroEnd_of_line (Text.place_le_of_drop hrest) (by simp [hrest]) _ hv (by simp)
    · simpa using hlast
    · simpa [hw] using hbreak
  have hlen : a + 7 + (' ' :: d :: n' ++ w).length =
      a + ("#define ".toList ++ d :: n' ++ w).length := by
    simp [Nat.add_assoc]
    omega
  rw [hdefine, htext, hend, hlen]
  rfl

theorem macroRule?_eq (hn : n.isPlainWord = true) :
    macroRule? n = if ¬"CIT_".toList <+: n then some .macroLead
      else if n.any Char.isLower then some .macroCapitals else none := by
  have hident := Text.isIdentifier_of_isPlainWord hn
  have hlead : (n.take 4 == "CIT_".toList) = decide ("CIT_".toList <+: n) :=
    Text.take_beq "CIT_".toList n
  have hall : n.takeWhile (· != '(') = n := by
    have h : (n ++ []).takeWhile (· != '(') = n ++ [] := by
      apply List.takeWhile_append_of_pos
      intro b hb
      have hword := Text.isWord_of_isIdentifier hident (List.mem_cons_of_mem _ hb)
      rw [bne_iff_ne]
      rintro rfl
      exact absurd hword (by decide)
    simpa using h
  have hcapitals : inCapitals n = !n.any Char.isLower := by
    rw [inCapitals, hall, List.not_any_eq_all_not, Bool.eq_iff_iff, List.all_eq_true,
      List.all_eq_true]
    apply forall₂_congr
    intro b hb
    rw [Text.isLower_of_isIdentifier hident (List.mem_cons_of_mem _ hb)]
  rw [macroRule?, bne, hlead, hcapitals]
  simp

def includeBetween (o e : Char) : Pattern :=
  "#include" ++ blanks1 ++ lit [o] ++ opt (group "include" (many1 .inLine)) ++ lit [e]

theorem matchAt_includeBetween {o e : Char} (ho : Text.isBlank o = false) (he : e ≠ '\n')
    (hw : '\n' ∉ w) (hne : w ≠ []) (hv : ∀ b ∈ v.head?, b = '\n')
    (hs : s.drop a = "#include ".toList ++ o :: (w ++ e :: v)) :
    (includeBetween o e).matchAt s a =
      some ⟨a, a + 10 + w.length + 1, [("include", a + 10, a + 10 + w.length)]⟩ := by
  have ha : a ≤ s.length := by have := Text.le_length_of_drop hs; omega
  have hrest : (placeAt s a).rest = "#include".toList ++ ([' '] ++ o :: (w ++ e :: v)) := hs
  have hline : ∀ b, b ≠ '\n' → CharClass.inLine.has b = true := by
    intro b hb
    simp [CharClass.inLine, CharClass.has, hb]
  apply matchAt_of_walk (y := ⟨a + 10 + w.length + 1, v, _⟩) ha
  rw [includeBetween, walk_cat, walk_cat, walk_cat, walk_cat, walk_lit hrest, blanks1, many1]
  apply walk_whole_run rfl (List.all_eq_true.mp (by decide)) (by decide)
  · simpa [CharClass.has] using ho
  · rw [walk_lit (v := w ++ e :: v) rfl]
    apply walk_alt_left
    rw [walk_group, many1]
    apply walk_greedy rfl (fun b hb => hline b (ne_of_mem_of_not_mem hb hw))
      (List.length_pos_iff.mpr hne)
    · exact walk_lit (v := v) rfl
    · intro t r ht hnet hin
      apply walk_lit_none
      obtain ⟨d, t, rfl⟩ := List.exists_cons_of_ne_nil hnet
      obtain ⟨-, rfl⟩ := List.cons.inj ht
      have hend : t = [] := by
        cases t with
        | nil => rfl
        | cons b t =>
          obtain rfl : b = '\n' := hv b rfl
          exact absurd (hin '\n' (by simp)) (by decide)
      subst hend
      rintro ⟨q, rfl⟩
      exact he (hv e rfl)

theorem systemInclude_found (hw : '\n' ∉ w) (hne : w ≠ []) (hv : ∀ b ∈ v.head?, b = '\n')
    (hs : s.drop a = "#include <".toList ++ w ++ '>' :: v) :
    includeFile s a c =
      (.ok (some ⟨⟨a, (a + ("#include <".toList ++ w).length : Nat)⟩,
        if c.ownIncludes then
          [⟨c.line, .includeOrder, some ("#include <".toList ++ w ++ ['>']), none⟩] else []⟩), c) := by
  have hm : Shape.systemInclude.matchAt s a =
      some ⟨a, a + 10 + w.length + 1, [("include", a + 10, a + 10 + w.length)]⟩ :=
    matchAt_includeBetween (o := '<') (e := '>') (by decide) (by decide) hw hne hv (by simp [hs])
  have htext : Match.text
      ⟨a, a + 10 + w.length + 1, [("include", a + 10, a + 10 + w.length)]⟩ s =
        "#include <".toList ++ w ++ ['>'] := by
    apply Text.drop_take_eq_of_drop_eq (r := v) (by simp [hs])
    simp [Nat.add_assoc]
    omega
  have hstop : ((a + 10 + w.length + 1 : Nat) : Int) - 1 =
      (a + ("#include <".toList ++ w).length : Nat) := by
    simp
    omega
  simp only [includeFile, hm, htext, hstop]
  rfl

theorem ownInclude_found {file : Text} (hw : '\n' ∉ w) (hne : w ≠ [])
    (hv : ∀ b ∈ v.head?, b = '\n') (hfile : c.file = some file)
    (hs : s.drop a = "#include \"".toList ++ w ++ '"' :: v) :
    includeFile s a c =
      (.ok (some ⟨⟨a, (a + ("#include \"".toList ++ w).length : Nat)⟩, []⟩),
        { c with ownIncludes := c.ownIncludes || !sameUnit file w }) := by
  have hm : Shape.ownInclude.matchAt s a =
      some ⟨a, a + 10 + w.length + 1, [("include", a + 10, a + 10 + w.length)]⟩ :=
    matchAt_includeBetween (o := '"') (e := '"') (by decide) (by decide) hw hne hv (by simp [hs])
  have hnone : Shape.systemInclude.matchAt s a = none :=
    matchAt_of_misses (k := .either .word (.among ['#', ' '])) (d := '"') (u := "#include ".toList)
      (v := w ++ '"' :: v) (by decide) (List.all_eq_true.mp (by decide)) (by simp [hs])
  have hname : Match.groupText?
      ⟨a, a + 10 + w.length + 1, [("include", a + 10, a + 10 + w.length)]⟩ s "include" = some w := by
    have hdrop : s.drop (a + 10) = w ++ '"' :: v := by
      apply Text.drop_of_drop_append (u := "#include \"".toList)
      simp [hs]
    exact congrArg some (Text.drop_take_eq_of_drop_eq hdrop rfl)
  have hstop : ((a + 10 + w.length + 1 : Nat) : Int) - 1 =
      (a + ("#include \"".toList ++ w).length : Nat) := by
    simp
    omega
  obtain ⟨_, line, own, scope⟩ := c
  obtain rfl := hfile
  have hget : ∀ c, (get : Lint Context) c = (.ok c, c) := fun _ => rfl
  simp only [includeFile, hnone, hm, hname, hstop]
  rw [Lint.bind_ok (hget _)]
  cases hunit : sameUnit file w with
  | true =>
    simp only [hunit, if_true, Bool.not_true, Bool.or_false]
    rfl
  | false =>
    simp only [hunit, Bool.false_eq_true, if_false, Bool.not_false, Bool.or_true]
    rfl

theorem classForward_found (hn : n.isIdentifier = true)
    (hs : s.drop a = "class ".toList ++ n ++ ';' :: v) :
    Class.form s a c = (.ok (some ⟨⟨a, (a + ("class ".toList ++ n).length : Nat)⟩, []⟩), c) := by
  have ha : a ≤ s.length := by have := Text.le_length_of_drop hs; omega
  have hsoft : ∀ b ∈ "class ".toList ++ n, soft.has b = true := by
    simpa using Class.soft_has_head (g := []) hn (by simp)
  have hreads : Shape.classForward.Reads ("class ".toList ++ n ++ [';']) :=
    (Class.classLead_reads.cat (word_reads hn)).cat rfl
  obtain ⟨m, hm, hstart⟩ := exists_matchAt (v := v) ha hreads (by simp [hs])
  have hstop := stop_of_matchAt_cat_lit (by decide) (by decide) (by decide) hsoft hs ha hm
  have hlast : ((a + ("class ".toList ++ n).length + 1 : Nat) : Int) - 1 =
      (a + ("class ".toList ++ n).length : Nat) := by omega
  simp only [Class.form, Class.check, hm, hstart, hstop, hlast]
  rfl

theorem usingNamespace_found (hn : n.isIdentifier = true)
    (hs : s.drop a = "using namespace ".toList ++ n ++ ';' :: v) :
    Form.ofSpan Statement.usingNamespace s a c =
      (.ok (some ⟨⟨a, (a + ("using namespace ".toList ++ n).length : Nat)⟩, []⟩), c) := by
  have ha : a ≤ s.length := by have := Text.le_length_of_drop hs; omega
  have hrest : (placeAt s a).rest = "using namespace ".toList ++ (n ++ ';' :: v) := by
    rw [placeAt, hs, List.append_assoc]
  have hsemi : ';' ∉ n := fun hmem => absurd (Text.isWord_of_isIdentifier hn hmem) (by decide)
  have hm : Shape.usingNamespace.matchAt s a = some ⟨a, a + 16 + n.length + 1, []⟩ := by
    apply matchAt_of_walk (y := ⟨a + 16 + n.length + 1, v, []⟩) ha
    rw [Shape.usingNamespace, walk_cat, walk_cat, walk_lit hrest]
    exact walk_until rfl (fun _ _ => rfl) hsemi
      (List.length_pos_iff.mpr (Text.isIdentifier_ne_nil hn)) rfl
  have hstop : ((a + 16 + n.length + 1 : Nat) : Int) - 1 =
      (a + ("using namespace ".toList ++ n).length : Nat) := by
    simp
    omega
  simp only [Form.ofSpan, Statement.usingNamespace, Statement.whole, hm, Option.map_some, hstop]
  rfl

theorem conditional_found (hw : "#if".toList <+: w ∨ "#endif".toList <+: w) (hbreak : '\n' ∉ w)
    (hv : ∀ b ∈ v.head?, b = '\n') (hs : s.drop a = w ++ v) :
    Form.ofSpan Statement.conditional s a c =
      (.ok (some ⟨⟨a, (a + w.length : Nat)⟩, []⟩), c) := by
  have hfound : ∃ o r, w = o ++ r ∧ o ≠ [] ∧ Shape.conditional.Reads o := by
    rcases hw with ⟨r, rfl⟩ | ⟨r, rfl⟩
    · exact ⟨_, r, rfl, by decide, .inr (.inr rfl)⟩
    · exact ⟨_, r, rfl, by decide, .inr (.inl rfl)⟩
  obtain ⟨o, r, rfl, hne, hreads⟩ := hfound
  have ha : a ≤ s.length := by
    obtain ⟨d, o, rfl⟩ := List.exists_cons_of_ne_nil hne
    have := Text.le_length_of_drop (u := []) hs
    omega
  obtain ⟨m, hm, hstart⟩ := exists_matchAt (v := r ++ v) ha hreads (by simp [hs])
  obtain ⟨x, y, hxy, -, hstop, hx⟩ := reads_of_matchAt (by decide) ha hm
  have hno : '\n' ∉ x := by
    rcases hx with rfl | rfl | rfl <;> decide
  obtain ⟨z, hz⟩ : ∃ z, o ++ r = x ++ z := by
    rcases List.append_eq_append_iff.mp (hxy.symm.trans hs) with ⟨z, hz, -⟩ | ⟨z, rfl, hz⟩
    · exact ⟨z, hz⟩
    · cases z with
      | nil => exact ⟨[], by simp⟩
      | cons b z =>
        obtain rfl : b = '\n' := hv b (by simp [hz])
        exact absurd (by simp) hno
  have hend : s.lineEnd m.stop = a + (o ++ r).length := by
    rw [hz] at hs hbreak
    rw [List.append_assoc] at hs
    have hle : a + x.length ≤ s.length := by
      have := congrArg List.length hs
      simp only [List.length_drop, List.length_append] at this
      omega
    rw [hstop, Text.lineEnd_of_line hle (Text.drop_of_drop_append hs) (fun h => hbreak (by simp [h]))
      hv, hz, List.length_append, Nat.add_assoc]
  simp only [Form.ofSpan, Statement.conditional, hm, Option.map_some, hstart, hend]
  rfl

def variableText (isStatic : Bool) (t n : Text) : Text :=
  (if isStatic then "static ".toList else []) ++ (t ++ ' ' :: n)

def plainType : Pattern := opt ("const" ++ blanks1) ++ opt ("struct" ++ blanks1) ++ typeName

theorem plainType_reads (ht : t.isIdentifier = true) : plainType.Reads (t ++ [' ']) :=
  (Reads.opt_none.cat Reads.opt_none).cat (typeName_reads (word_reads ht))

theorem matchAt_static (ht : t.isIdentifier = true) (hn : n.isIdentifier = true)
    (hv : ∀ b ∈ v.head?, b = ';') (hs : s.drop a = "static ".toList ++ (t ++ ' ' :: n) ++ v)
    (ha : a ≤ s.length) :
    ∃ m, variableDeclaration.matchAt s a = some m ∧ m.start = a ∧
      m.stop = a + ("static ".toList ++ (t ++ ' ' :: n)).length ∧
      m.text s = "static ".toList ++ (t ++ ' ' :: n) ∧ m.groupText? s "variable" = some n := by
  have hv' : ∀ b ∈ v.head?, CharClass.word.has b = false := by
    intro b hb
    rw [hv b hb]
    decide
  have hrest : (placeAt s a).rest = "static".toList ++ ([' '] ++ (t ++ [' '] ++ n ++ v)) := by
    rw [placeAt, hs]
    simp
  have hink : ∀ b ∈ (t ++ [' '] ++ n ++ v).head?, CharClass.blank.has b = false := by
    obtain ⟨d, t, rfl⟩ := List.exists_cons_of_ne_nil (Text.isIdentifier_ne_nil ht)
    intro b hb
    obtain rfl : d = b := Option.some.inj hb
    exact Text.not_isBlank_of_isIdentifier ht List.mem_cons_self
  obtain ⟨y, hy, hpos, hgroup⟩ := head?_ends_cat_word (s := s) (u := t ++ [' ']) (v := v)
    (x := ⟨a + 7, t ++ [' '] ++ n ++ v, []⟩) "variable" (p := plainType) (by decide)
    (plainType_reads ht) hn hv' rfl (by
      intro w e r hr _ he
      have hsplit : t ++ [' '] ++ n = t ++ ' ' :: n := by simp
      rw [hsplit] at he
      exact (typeName_reads_eq (word_reads ht) hn (by decide) (by decide) hv hr he).1)
  rw [← findSome?_some, ← walk_eq_findSome?, plainType, walk_cat, walk_cat, walk_cat] at hy
  have hm : variableDeclaration.matchAt s a = some ⟨a, y.pos, y.groups⟩ := by
    apply matchAt_of_walk ha
    rw [variableDeclaration, walk_cat, walk_cat, walk_cat, walk_cat, opt]
    apply walk_alt_left
    rw [walk_cat, walk_lit hrest, blanks1, many1]
    exact walk_whole_run rfl (List.all_eq_true.mp (by decide)) (by decide) hink hy
  have hstop : y.pos = a + ("static ".toList ++ (t ++ ' ' :: n)).length := by
    simp [hpos, Nat.add_assoc]
    omega
  have hname : s.drop (a + 7 + (t ++ [' ']).length) = n ++ v := by
    have hdrop := Text.drop_of_drop_append (u := "static ".toList ++ (t ++ [' '])) (v := n ++ v)
      (by simpa using hs)
    have hplace : a + 7 + (t ++ [' ']).length = a + ("static ".toList ++ (t ++ [' '])).length := by
      simp [Nat.add_assoc]
      omega
    rw [hplace]
    exact hdrop
  refine ⟨_, hm, rfl, hstop, Text.drop_take_eq_of_drop_eq hs hstop, ?_⟩
  apply groupText?_of_lookup hgroup hname
  rw [hpos, List.length_append, ← Nat.add_assoc]

theorem matchAt_variableText (isStatic : Bool) (ht : t.isIdentifier = true)
    (hn : n.isIdentifier = true) (hv : ∀ b ∈ v.head?, b = ';')
    (hs : s.drop a = variableText isStatic t n ++ v) (ha : a ≤ s.length) :
    ∃ m, variableDeclaration.matchAt s a = some m ∧ m.start = a ∧
      m.stop = a + (variableText isStatic t n).length ∧ m.text s = variableText isStatic t n ∧
      m.groupText? s "variable" = some n := by
  cases isStatic with
  | true => exact matchAt_static ht hn hv hs ha
  | false => exact matchAt_variableDeclaration (word_reads ht) hn hv hs ha

theorem soft_has_variableText (isStatic : Bool) (ht : t.isIdentifier = true)
    (hn : n.isIdentifier = true) : ∀ b ∈ variableText isStatic t n, soft.has b = true := by
  intro b hb
  rcases List.mem_append.mp hb with hb | hb
  · cases isStatic with
    | true => exact List.all_eq_true.mp (show "static ".toList.all soft.has = true by decide) b hb
    | false => exact absurd hb List.not_mem_nil
  · exact soft_has_declared (word_reads ht) hn b hb

theorem rawPointerRule?_of_variableText (isStatic : Bool) (ht : t.isIdentifier = true)
    (hn : n.isIdentifier = true) :
    Variable.rawPointerRule? (variableText isStatic t n) = .ok none := by
  obtain ⟨m, hm, -, -, htext, hname⟩ := matchAt_variableText (v := []) (a := 0)
    (s := variableText isStatic t n) isStatic ht hn (by simp) (List.append_nil _).symm
    (Nat.zero_le _)
  exact rawPointerRule?_of_soft (declared_of_matchAt hm htext hname)
    (soft_has_variableText isStatic ht hn)

theorem isStatic_variableText (isStatic : Bool) (ht : t.isIdentifier = true)
    (hn : n.isIdentifier = true) (hend : ¬"static".toList <:+ t) :
    Variable.isStatic (variableText isStatic t n) = isStatic := by
  cases isStatic with
  | true => exact (Text.holds_iff _).mpr (List.prefix_append _ _).isInfix
  | false =>
    apply Bool.eq_false_iff.mpr
    intro h
    obtain ⟨x, y, hxy⟩ := (Text.holds_iff _).mp h
    have hstatic : x ++ "static".toList ++ ' ' :: y = t ++ ' ' :: n := by
      simpa [variableText] using hxy
    exact hend ⟨x, eq_of_append_typeMark (word_reads ht) hn (by decide) hstatic⟩

def variableReports (isStatic : Bool) (t n : Text) (line : Int) : List Report :=
  if n.length < 3 then [⟨line, .shortName, some (variableText isStatic t n), none⟩]
  else if isStatic then
    if "s_".toList <+: n then [] else [⟨line, .staticLead, some (variableText isStatic t n), none⟩]
  else if "g_".toList <+: n then []
  else [⟨line, .globalLead, some (variableText isStatic t n), none⟩]

theorem globalVariable_found (isStatic : Bool) (ht : t.isIdentifier = true)
    (hn : n.isIdentifier = true) (hend : ¬"static".toList <:+ t)
    (hs : s.drop a = variableText isStatic t n ++ ';' :: v) :
    globalVariable s a c =
      (.ok (some ⟨⟨a, (a + (variableText isStatic t n).length : Nat)⟩,
        variableReports isStatic t n c.line⟩), c) := by
  have ha : a ≤ s.length := by have := Text.le_length_of_drop hs; omega
  have hsoft := soft_has_variableText isStatic ht hn
  obtain ⟨m, hm, hstart, hstop, htext, hname⟩ := matchAt_variableText isStatic ht hn (by simp) hs ha
  have hat : variableAt? s a = some (n, variableText isStatic t n, m) := by
    simp [variableAt?, hm, htext, hname]
  have hsemi := Text.drop_of_drop_append hs
  have harray : Variable.rawArray? s a = none := by
    rw [Variable.rawArray?, matchAt_of_misses (k := soft) (by decide) hsoft hs]
    rfl
  have hrule : globalNameRule? n (variableText isStatic t n) =
      if n.length < 3 then some .shortName
      else if isStatic then if "s_".toList <+: n then none else some .staticLead
      else if "g_".toList <+: n then none else some .globalLead := by
    rw [globalNameRule?, isStatic_variableText isStatic ht hn hend, markRule?_of_soft hsoft,
      leads_eq, leads_eq]
    simp
  simp only [globalVariable, hat, hstart, hstop, Text.find_of_drop_cons hsemi, hrule,
    rawPointerRule?_of_variableText isStatic ht hn, harray, containerRule?_of_soft hsoft,
    variableReports]
  by_cases hshort : n.length < 3
  · simp only [hshort, if_true]
    rfl
  · simp only [hshort, if_false]
    cases isStatic with
    | true => by_cases hlead : "s_".toList <+: n <;> simp only [hlead, if_true, if_false] <;> rfl
    | false =>
      by_cases hlead : "g_".toList <+: n <;>
        simp only [hlead, Bool.false_eq_true, if_true, if_false] <;> rfl

end CodeAudit.Declaration
