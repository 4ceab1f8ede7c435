import CodeAudit.Declaration.Function
import CodeAudit.Declaration.Simple
import CodeAudit.Proofs.Bracket.Balanced
import CodeAudit.Proofs.Declaration.Parameters
import CodeAudit.Proofs.Lint.Forms
import CodeAudit.Proofs.Token
import Mathlib.Data.List.Infix

namespace CodeAudit

variable {s t n v w : Text} {a : Nat} {c : Context}

namespace Declaration

open Pattern Shape

theorem parameters_of_drop (hw : Bracket.paren.Balanced w)
    (hs : s.drop a = '(' :: w ++ ')' :: v) (start : Int) :
    parameters s (a + 1 : Nat) start c = (.ok ((a + w.length + 1 : Nat), []), c) := by
  have hopen : ((a + 1 : Nat) : Int) - 1 = a := by omega
  have hpartner : Bracket.paren.partner s a = .ok ((a + w.length + 1 : Nat) : Int) :=
    Bracket.partner_of_drop hw hs
  simp only [parameters, hopen, hpartner, Lint.lift_ok_bind,
    Variable.parameterRule?_of_drop hs]
  rfl

theorem headEnd_of_drop (hs : s.drop a = ';' :: v) : headEnd s a = .ok (.semicolon a) := by
  have hchar : s[a]? = some ';' := by
    rw [← List.head?_drop, hs]
    rfl
  have hfind : (';' :: v).findIdx? (fun c => c == ';' || c == '{') = some 0 :=
    Text.findIdx?_append_cons (u := []) (by simp) rfl
  simp [headEnd, hs, hfind, hchar]

theorem headEnd_of_brace {u : Text} (hu : ∀ b ∈ u, Text.isBlank b = true)
    (hs : s.drop a = u ++ '{' :: v) : headEnd s a = .ok (.brace (a + u.length : Nat)) := by
  have hchar : s[a + u.length]? = some '{' := by
    rw [← List.head?_drop, Text.drop_of_drop_append hs]
    rfl
  have hfind : (u ++ '{' :: v).findIdx? (fun c => c == ';' || c == '{') = some u.length := by
    apply Text.findIdx?_append_cons _ rfl
    intro b hb
    rw [Bool.or_eq_false_iff]
    constructor <;> apply beq_false_of_ne <;> rintro rfl <;> exact absurd (hu _ hb) (by decide)
  simp [headEnd, hs, hfind, hchar]

theorem functionHead?_found (ht : t.isIdentifier = true) (hn : n.isIdentifier = true)
    (hw : Bracket.paren.Balanced w) (hs : s.drop a = t ++ ' ' :: n ++ '(' :: w ++ ')' :: v) :
    ∃ m, functionHead? s a = some (m, some n) ∧ ∀ (start : Int) (c : Context),
      parameters s m.stop start c =
        (.ok ((a + (t ++ ' ' :: n).length + w.length + 1 : Nat), []), c) := by
  rw [List.append_assoc] at hs
  obtain ⟨m, hm, -, hstop, hname⟩ := matchAt_function ht hn hs
  refine ⟨m, by simp only [functionHead?, hm, hname], ?_⟩
  intro start c
  rw [hstop]
  exact parameters_of_drop hw (Text.drop_of_drop_append hs) start

theorem drop_after_head (hs : s.drop a = t ++ ' ' :: n ++ '(' :: w ++ ')' :: v) :
    s.drop (a + (t ++ ' ' :: n).length + w.length + 2) = v := by
  have hsplit : s.drop a = t ++ ' ' :: n ++ '(' :: w ++ [')'] ++ v := by simp [hs]
  have hlen : a + (t ++ ' ' :: n).length + w.length + 2 =
      a + (t ++ ' ' :: n ++ '(' :: w ++ [')']).length := by
    simp only [List.length_append, List.length_cons, List.length_nil]
    omega
  rw [hlen]
  exact Text.drop_of_drop_append hsplit

theorem method_found (ht : t.isIdentifier = true) (hn : n.isIdentifier = true)
    (hw : Bracket.paren.Balanced w) (hs : s.drop a = t ++ ' ' :: n ++ '(' :: w ++ ')' :: ';' :: v) :
    method s a c =
      (.ok (some ⟨⟨a, (a + (t ++ ' ' :: n).length + w.length + 2 : Nat)⟩, []⟩), c) := by
  obtain ⟨m, hm, hparameters⟩ := functionHead?_found ht hn hw hs
  have hlast : ((a + (t ++ ' ' :: n).length + w.length + 1 : Nat) : Int) + 1 =
      (a + (t ++ ' ' :: n).length + w.length + 2 : Nat) := by omega
  simp only [method, hm]
  rw [Lint.bind_ok (hparameters _ c)]
  simp only [hlast, headEnd_of_drop (drop_after_head hs)]
  rfl

theorem classConstructor_found (hn : n.isIdentifier = true) (hw : Bracket.paren.Balanced w)
    (hs : s.drop a = n ++ '(' :: w ++ ')' :: ';' :: v) :
    classConstructor s a c = (.ok (some ⟨⟨a, (a + n.length + w.length + 2 : Nat)⟩, []⟩), c) := by
  rw [List.append_assoc] at hs
  obtain ⟨m, hm, hstart, hstop⟩ := matchAt_constructor hn hs
  have hparen := Text.drop_of_drop_append hs
  have hsemi : s.drop (a + n.length + w.length + 2) = ';' :: v := by
    have h := Text.drop_of_drop_append (u := '(' :: w ++ [')']) (by simpa using hparen)
    simpa [Nat.add_assoc] using h
  have hlast : ((a + n.length + w.length + 1 : Nat) : Int) + 1 =
      (a + n.length + w.length + 2 : Nat) := by omega
  have hparameters := parameters_of_drop (c := c) hw hparen m.start
  simp only [classConstructor, hm, hstop]
  rw [Lint.bind_ok hparameters]
  simp only [hlast, Token.next_of_drop hsemi, Text.find_of_drop_cons hsemi, hstart]
  rfl

theorem matchAt_destructor {l : Text} (hl : l = [] ∨ l = "virtual ".toList)
    (hn : n.isIdentifier = true) (hs : s.drop a = l ++ '~' :: n ++ ['(', ')'] ++ v) :
    ∃ m, Shape.destructor.matchAt s a = some m ∧ m.start = a ∧
      m.stop = a + (l ++ '~' :: n ++ ['(', ')']).length := by
  have hsplit : l ++ '~' :: n ++ ['(', ')'] ++ v = (l ++ '~' :: n ++ ['(']) ++ ')' :: v := by simp
  have ha : a ≤ s.length := by have := Text.le_length_of_drop (hs.trans hsplit); omega
  have hlead : (opt ("virtual" ++ blanks1)).Reads l := by
    rcases hl with rfl | rfl
    · exact .opt_none
    · exact .opt_some ((show Reads "virtual" "virtual".toList from rfl).cat blanks1_reads_space)
  have hreads : Shape.destructor.Reads (l ++ ['~'] ++ n ++ ['('] ++ [] ++ [')']) :=
    ((((hlead.cat (show Reads "~" ['~'] from rfl)).cat (word_reads hn)).cat
      (show Reads "(" ['('] from rfl)).cat .opt_none).cat rfl
  obtain ⟨m, hm, hstart⟩ := exists_matchAt (v := v) ha hreads (by simp [hs])
  have hinside : ∀ b ∈ l ++ '~' :: n ++ ['('],
      (CharClass.other (.among [')'])).has b = true := by
    intro b hb
    have hne : b ≠ ')' := by
      rintro rfl
      simp only [List.mem_append, List.mem_cons, List.not_mem_nil, or_false] at hb
      rcases hb with (hb | hb | hb) | hb
      · rcases hl with rfl | rfl
        · exact absurd hb List.not_mem_nil
        · exact absurd hb (by decide)
      · exact absurd hb (by decide)
      · exact absurd (Text.isWord_of_isIdentifier hn hb) (by decide)
      · exact absurd hb (by decide)
    simp [CharClass.has, hne]
  have hstop := stop_of_matchAt_cat_lit (by decide) (by decide) (by decide) hinside
    (hs.trans hsplit) ha hm
  refine ⟨m, hm, hstart, hstop.trans ?_⟩
  simp only [List.length_append, List.length_cons, List.length_nil]
  omega

theorem classDestructor_found {l : Text} (hl : l = [] ∨ l = "virtual ".toList)
    (hn : n.isIdentifier = true) (hs : s.drop a = l ++ '~' :: n ++ ['(', ')'] ++ ';' :: v) :
    classDestructor s a c =
      (.ok (some ⟨⟨a, (a + (l ++ '~' :: n ++ ['(', ')']).length : Nat)⟩,
        if "virtual".toList <:+: l ++ '~' :: n ++ ['(', ')'] then []
        else [⟨c.line, .virtualDestructor, some (l ++ '~' :: n ++ ['(', ')']), none⟩]⟩), c) := by
  obtain ⟨m, hm, hstart, hstop⟩ := matchAt_destructor hl hn hs
  have htext : m.text s = l ++ '~' :: n ++ ['(', ')'] := by
    rw [Match.text, hstart]
    exact Text.drop_take_eq_of_drop_eq hs hstop
  have hsemi := Text.drop_of_drop_append hs
  generalize l ++ '~' :: n ++ ['(', ')'] = head at *
  have hmark : ([';'] == ['{']) = false := rfl
  by_cases hvirtual : "virtual".toList <:+: head
  · simp only [classDestructor, hm, htext, hstart, hstop, (Text.holds_iff _).mpr hvirtual, hvirtual,
      if_true, pure_bind, Token.next_of_drop hsemi, Lint.lift_ok_bind, hmark, Bool.false_eq_true,
      if_false, Text.find_of_drop_cons hsemi]
    rfl
  · have hnot : head.holds "virtual".toList = false :=
      Bool.eq_false_iff.mpr fun h => hvirtual ((Text.holds_iff _).mp h)
    simp only [classDestructor, hm, htext, hstart, hstop, hnot, hvirtual, if_false, pure_bind,
      Token.next_of_drop hsemi, Lint.lift_ok_bind, hmark, Bool.false_eq_true,
      Text.find_of_drop_cons hsemi]
    rfl

theorem markRule?_of_soft (hw : ∀ b ∈ w, soft.has b = true) : Variable.markRule? w = none := by
  have hstar : '*' ∉ w := fun h => absurd (hw '*' h) (by decide)
  have hamp : '&' ∉ w := fun h => absurd (hw '&' h) (by decide)
  simp [Variable.markRule?, Variable.spaceBefore, Text.find_of_not_mem hstar,
    Text.find_of_not_mem hamp]

theorem containerRule?_of_not_mem (hw : ':' ∉ w) : Variable.containerRule? w = none := by
  have hother : ∀ b ∈ w, (CharClass.other (.among [':'])).has b = true := by
    intro b hb
    have hne : b ≠ ':' := ne_of_mem_of_not_mem hb hw
    simp [CharClass.has, hne]
  have hsearch : Shape.stdContainer.search w 0 = none :=
    search_of_not_staysIn (by decide) (by decide) hother
  rw [Variable.containerRule?, hsearch]

theorem containerRule?_of_soft (hw : ∀ b ∈ w, soft.has b = true) :
    Variable.containerRule? w = none :=
  containerRule?_of_not_mem fun h => absurd (hw ':' h) (by decide)

theorem declared_of_matchAt {m : Match} (hm : variableDeclaration.matchAt s (0 : Nat) = some m)
    (htext : m.text s = w) (hname : m.groupText? s "variable" = some n) :
    Variable.declared s = .ok (n, w) := by
  rw [Variable.declared, show ((0 : Int)) = ((0 : Nat) : Int) from rfl, hm]
  simp [hname, htext]

theorem rawPointerRule?_of_soft (hdeclared : Variable.declared s = .ok (n, w))
    (hw : ∀ b ∈ w, soft.has b = true) : Variable.rawPointerRule? s = .ok none := by
  have hstar : w.contains '*' = false := by
    simp only [List.contains_eq_mem, decide_eq_false_iff_not]
    exact fun h => absurd (hw '*' h) (by decide)
  rw [Variable.rawPointerRule?, hdeclared]
  simp only [bind, Except.bind, hstar]
  split <;> rfl

theorem declared_eq (ht : word.Reads t) (hn : n.isIdentifier = true)
    (hv : ∀ b ∈ v.head?, b = ';') :
    Variable.declared (t ++ ' ' :: n ++ v) = .ok (n, t ++ ' ' :: n) := by
  obtain ⟨m, hm, -, -, htext, hname⟩ := matchAt_variableDeclaration (v := v)
    (s := t ++ ' ' :: n ++ v) (a := 0) ht hn hv rfl (Nat.zero_le _)
  exact declared_of_matchAt hm htext hname

theorem memberTypeReport?_of_declared (ht : t.isIdentifier = true) (hn : n.isIdentifier = true)
    (hs : s.drop a = t ++ ' ' :: n ++ ';' :: v) (line : Int) :
    memberTypeReport? s a (t ++ ' ' :: n) line = .ok none := by
  have hsoft := soft_has_declared (word_reads ht) hn
  have harray : Variable.rawArray? s a = none := by
    rw [Variable.rawArray?, matchAt_of_misses (k := soft) (by decide) hsoft hs]
    rfl
  have hdeclared : Variable.declared (t ++ ' ' :: n) = .ok (n, t ++ ' ' :: n) := by
    simpa using declared_eq (v := []) (word_reads ht) hn (by simp)
  simp only [memberTypeReport?, markRule?_of_soft hsoft, rawPointerRule?_of_soft hdeclared hsoft,
    harray, containerRule?_of_soft hsoft]
  rfl

theorem leads_eq (letter : Char) (name : Text) :
    Variable.leads letter name = decide ([letter, '_'] <+: name) :=
  Text.take_beq [letter, '_'] name

theorem functionRule?_eq (name : Text) : functionRule? name =
    if "cit".toList <+: name ∨ name = "main".toList then none else some .functionLead := by
  have hlead : (name.take 3 == "cit".toList) = decide ("cit".toList <+: name) :=
    Text.take_beq "cit".toList name
  rw [functionRule?, bne, hlead]
  generalize "cit".toList = lead
  generalize "main".toList = main
  by_cases h : lead <+: name <;> by_cases h' : name = main <;> simp [h, h']

theorem memberVariable_found (ht : t.isIdentifier = true) (hn : n.isIdentifier = true)
    (hs : s.drop a = t ++ ' ' :: n ++ ';' :: v) :
    memberVariable s a c =
      (.ok (some ⟨⟨a, (a + (t ++ ' ' :: n).length : Nat)⟩,
        if n.length < 3 then [⟨c.line, .shortName, some (t ++ ' ' :: n), none⟩]
        else if "m_".toList <+: n then []
        else [⟨c.line, .memberLead, some (t ++ ' ' :: n), none⟩]⟩), c) := by
  have ha : a ≤ s.length := by have := Text.le_length_of_drop hs; omega
  obtain ⟨m, hm, hstart, hstop, htext, hname⟩ :=
    matchAt_variableDeclaration (word_reads ht) hn (by simp) hs ha
  have hat : variableAt? s a = some (n, t ++ ' ' :: n, m) := by
    simp [variableAt?, hm, htext, hname]
  have hsemi := Text.drop_of_drop_append hs
  simp only [memberVariable, hat, hstart, hstop, Text.find_of_drop_cons hsemi,
    memberTypeReport?_of_declared ht hn hs]
  by_cases hshort : n.length < 3
  · simp only [hshort, if_true]
    rfl
  · have hleads : Variable.leads 'm' n = decide ("m_".toList <+: n) := leads_eq 'm' n
    by_cases hlead : "m_".toList <+: n <;>
      simp only [hshort, hleads, hlead, decide_true, decide_false, Bool.false_eq_true, if_true,
        if_false] <;> rfl

end Declaration

end CodeAudit
