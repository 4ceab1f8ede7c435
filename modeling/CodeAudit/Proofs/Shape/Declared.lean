import CodeAudit.Proofs.Pattern.Lead
import CodeAudit.Proofs.Text.Identifier
import CodeAudit.Proofs.Text.Scanning
import CodeAudit.Shape

namespace CodeAudit.Shape

open Pattern

variable {s t n v w : Text} {a : Nat} {m : Match}

def classLead : Pattern := "class" ++ blanks1 ++ opt (word ++ blanks1)

theorem classHead_eq : classHead = classLead ++ group "class" word := rfl

def soft : CharClass := .either .word .blank

theorem soft_has_of_word {c : Char} (hc : CharClass.word.has c = true) : soft.has c = true := by
  have h : Text.isWord c = true := hc
  simp [soft, CharClass.has, h]

theorem word_has_of_isIdentifier (ht : t.isIdentifier = true) :
    ∀ c ∈ t, CharClass.word.has c = true :=
  fun _ hc => Text.isWord_of_isIdentifier ht hc

theorem word_reads (ht : t.isIdentifier = true) : word.Reads t :=
  ⟨word_has_of_isIdentifier ht, List.length_pos_iff.mpr (Text.isIdentifier_ne_nil ht)⟩

theorem soft_has_declared (ht : word.Reads t) (hn : n.isIdentifier = true) :
    ∀ c ∈ t ++ ' ' :: n, soft.has c = true := by
  intro c hc
  rcases List.mem_append.mp hc with hc | hc
  · exact soft_has_of_word (ht.1 c hc)
  · rcases List.mem_cons.mp hc with rfl | hc
    · decide
    · exact soft_has_of_word (word_has_of_isIdentifier hn c hc)

theorem blanks_reads_nil : blanks.Reads [] :=
  ⟨by simp, Nat.le_refl 0⟩

theorem blanks1_reads_space : blanks1.Reads [' '] :=
  ⟨by simp only [List.forall_mem_singleton]; decide, Nat.le_refl 1⟩

theorem typeName_reads (ht : word.Reads t) : typeName.Reads (t ++ [' ']) := by
  have hname : qualifiedName.Reads ([] ++ t) := Reads.opt_none.cat ht
  have htype : (group "type" (alt ("long" ++ blanks1 ++ "long") qualifiedName)).Reads t := .inr hname
  have h : typeName.Reads (t ++ [] ++ [] ++ [' ']) :=
    ((htype.cat Reads.opt_none).cat Reads.opt_none).cat (.inr blanks1_reads_space)
  simpa using h

def variableType : Pattern :=
  opt ("static" ++ blanks1) ++ opt ("const" ++ blanks1) ++ opt ("struct" ++ blanks1) ++ typeName

theorem variableType_reads (ht : word.Reads t) : variableType.Reads (t ++ [' ']) := by
  have h : variableType.Reads ([] ++ [] ++ [] ++ (t ++ [' '])) :=
    ((Reads.opt_none.cat Reads.opt_none).cat Reads.opt_none).cat (typeName_reads ht)
  simpa using h

def typeMark : CharClass := .either .blank (.among ['*', '&'])

theorem typeMark_has_of_word {c : Char} (hw : Text.isWord c = true) : typeMark.has c = false := by
  have hb := Text.not_isBlank_of_isWord hw
  have hstar : c ≠ '*' := by rintro rfl; exact absurd hw (by decide)
  have hamp : c ≠ '&' := by rintro rfl; exact absurd hw (by decide)
  simp [typeMark, CharClass.has, hb, hstar, hamp]

theorem typeEnd_reads (h : typeEnd.Reads w) : w ≠ [] ∧ ∀ c ∈ w, typeMark.has c = true := by
  have hblank : ∀ {u : Text}, (∀ c ∈ u, CharClass.blank.has c = true) →
      ∀ c ∈ u, typeMark.has c = true := by
    intro u hu c hc
    have hb : CharClass.blank.has c = true := hu c hc
    rw [typeMark, CharClass.has, hb, Bool.true_or]
  rcases h with ⟨_, w₃, rfl, ⟨w₁, w₂, rfl, h₁, h₂⟩, h₃⟩ | h
  · have hne : w₂ ≠ [] := List.ne_nil_of_length_pos h₂.2
    refine ⟨by simp [hne], ?_⟩
    intro c hc
    rcases List.mem_append.mp hc with hc | hc
    · rcases List.mem_append.mp hc with hc | hc
      · exact hblank h₁.1 c hc
      · have hm : (CharClass.among ['*', '&']).has c = true := h₂.1 c hc
        rw [typeMark, CharClass.has, hm, Bool.or_true]
    · exact hblank h₃.1 c hc
  · exact ⟨List.ne_nil_of_length_pos h.2, hblank h.1⟩

theorem exists_last_of_typeName_reads {q : Pattern} (h : (q ++ typeName).Reads w) :
    ∃ u c, w = u ++ [c] ∧ typeMark.has c = true := by
  obtain ⟨u, x, rfl, -, hx⟩ := h
  obtain ⟨y, z, rfl, -, hz⟩ := hx
  obtain ⟨hne, hmark⟩ := typeEnd_reads hz
  refine ⟨u ++ (y ++ z.dropLast), z.getLast hne, ?_, hmark _ (List.getLast_mem hne)⟩
  rw [List.append_assoc, List.append_assoc, List.dropLast_concat_getLast]

theorem variableDeclaration_reads (h : variableDeclaration.Reads w) :
    ∃ u c d v, w = u ++ c :: d :: v ∧ Text.isWord c = false ∧ Text.isWord d = true := by
  obtain ⟨type, name, rfl, htype, hname⟩ : (variableType ++ variableName).Reads w := h
  obtain ⟨u, c, rfl, hc⟩ := exists_last_of_typeName_reads htype
  obtain ⟨d, v, rfl⟩ := List.exists_cons_of_length_pos hname.2
  refine ⟨u, c, d, v, by simp, ?_, hname.1 d List.mem_cons_self⟩
  apply Bool.eq_false_iff.mpr
  intro hword
  rw [typeMark_has_of_word hword] at hc
  cases hc

theorem variableDeclaration_of_word (hw : ∀ c ∈ w, Text.isWord c = true)
    (hv : ∀ c ∈ v, Text.isWord c = false) (ht : t <+: w ++ v) :
    variableDeclaration.matchAt t 0 = none := by
  apply matchAt_eq_none (a := 0) (by decide) (Nat.zero_le _)
  intro x r hx hreads
  obtain ⟨u, c, d, y, rfl, hc, hd⟩ := variableDeclaration_reads hreads
  obtain ⟨z, hz⟩ := ht
  rw [List.drop_zero] at hx
  rw [hx, List.append_assoc, List.append_assoc] at hz
  rcases List.append_eq_append_iff.mp hz with ⟨k, rfl, hk⟩ | ⟨k, rfl, rfl⟩
  · cases k with
    | nil =>
      rw [List.nil_append] at hk
      rw [hv d (by simp [← hk])] at hd
      cases hd
    | cons b k =>
      obtain ⟨rfl, -⟩ := List.cons.inj hk
      rw [hw c (by simp)] at hc
      cases hc
  · rw [hv d (by simp)] at hd
    cases hd

theorem eq_of_append_typeMark {u r : Text} {c : Char} (ht : word.Reads t)
    (hn : n.isIdentifier = true) (hc : typeMark.has c = true)
    (h : u ++ c :: r = t ++ ' ' :: n) : u = t := by
  have hno : ∀ {x : Text}, word.Reads x → c ∉ x := by
    intro x hx hmem
    rw [typeMark_has_of_word (hx.1 c hmem)] at hc
    exact Bool.false_ne_true hc
  rcases List.append_eq_append_iff.mp h with ⟨y, rfl, hy⟩ | ⟨y, rfl, hy⟩
  · cases y with
    | nil => simp
    | cons b y =>
      obtain ⟨rfl, -⟩ := List.cons.inj hy
      exact absurd (by simp) (hno ht)
  · cases y with
    | nil => simp
    | cons b y =>
      obtain ⟨-, rfl⟩ := List.cons.inj hy
      exact absurd (by simp) (hno (word_reads hn))

theorem typeName_reads_eq {q : Pattern} {d : Char} {r : Text} (ht : word.Reads t)
    (hn : n.isIdentifier = true) (hd : soft.has d = false)
    (hleave : (q ++ typeName).leavesWith soft d = false) (hv : ∀ b ∈ v.head?, b = d)
    (h : (q ++ typeName).Reads w) (hs : w ++ r = t ++ ' ' :: n ++ v) :
    w = t ++ [' '] ∧ r = n ++ v := by
  have hin : ∃ z, t ++ ' ' :: n = w ++ z := by
    rcases List.append_eq_append_iff.mp hs with ⟨z, hz, -⟩ | ⟨z, rfl, hz⟩
    · exact ⟨z, hz⟩
    · cases z with
      | nil => exact ⟨[], by simp⟩
      | cons b z =>
        obtain rfl : b = d := hv b (by simp [hz])
        rw [leavesWith_of_reads h (soft_has_declared ht hn) hd] at hleave
        cases hleave
  obtain ⟨z, hz⟩ := hin
  obtain ⟨u, c, rfl, hc⟩ := exists_last_of_typeName_reads h
  have hu : u = t := by
    apply eq_of_append_typeMark ht hn hc
    rw [hz, List.append_assoc, List.singleton_append]
  subst hu
  rw [List.append_assoc, List.append_assoc, List.append_cancel_left_eq] at hs
  obtain ⟨rfl, rfl⟩ := List.cons.inj hs
  exact ⟨rfl, rfl⟩

theorem head?_ends_word {z : Place} (name : String) (hn : n.isIdentifier = true)
    (hv : ∀ b ∈ v.head?, CharClass.word.has b = false) (hz : z.rest = n ++ v) :
    ((group name word).ends s z).head? =
      some ⟨z.pos + n.length, v, (name, z.pos, z.pos + n.length) :: z.groups⟩ := by
  obtain ⟨hword, hlen⟩ := word_reads hn
  have hrun := head?_ends_run (s := s) hword hv hlen hz
  change ((word.ends s z).map _).head? = _
  rw [List.head?_map]
  exact congrArg (Option.map _) hrun

theorem head?_ends_cat_word {p : Pattern} {u : Text} {x : Place} (name : String)
    (hp : p.isPlain = true) (hu : p.Reads u) (hn : n.isIdentifier = true)
    (hv : ∀ b ∈ v.head?, CharClass.word.has b = false) (hx : x.rest = u ++ n ++ v)
    (huniq : ∀ w e r, p.Reads w → CharClass.word.has e = true → w ++ e :: r = u ++ n ++ v → w = u) :
    ∃ y, ((p ++ group name word).ends s x).head? = some y ∧ y.pos = x.pos + (u ++ n).length ∧
      y.groups.lookup name = some (x.pos + u.length, y.pos) := by
  have hne : (p ++ group name word).ends s x ≠ [] := by
    have hreads : (p ++ group name word).Reads (u ++ n) := hu.cat (word_reads hn)
    obtain ⟨y, hy, -⟩ := exists_mem_ends (s := s) hreads hx
    exact List.ne_nil_of_mem hy
  apply head?_ends_cat hne
  intro z hz y hy
  obtain ⟨w, hw, hzpos, hr⟩ := reads_of_mem_ends hp hz
  obtain ⟨q, hq, -, hqword, hqlen⟩ :=
    reads_of_mem_ends (p := group name word) rfl (List.mem_of_mem_head? hy)
  obtain ⟨e, q, rfl⟩ := List.exists_cons_of_length_pos hqlen
  have hwu : w = u := by
    refine huniq w e (q ++ y.rest) hr (hqword e List.mem_cons_self) ?_
    rw [← hx, ← List.cons_append, ← hq]
    exact hw.symm
  subst hwu
  have hzrest : z.rest = n ++ v := by
    have h := hw.symm.trans hx
    rwa [List.append_assoc, List.append_cancel_left_eq] at h
  rw [head?_ends_word name hn hv hzrest] at hy
  obtain rfl := Option.some.inj hy
  rw [List.length_append, hzpos, Nat.add_assoc]
  exact ⟨rfl, List.lookup_cons_self⟩

theorem groupText?_of_lookup {name : String} {b e : Nat} (h : m.groups.lookup name = some (b, e))
    (hs : s.drop b = n ++ v) (he : e = b + n.length) : m.groupText? s name = some n := by
  simp only [Match.groupText?, Match.group?, h, Option.map_some]
  exact congrArg some (Text.drop_take_eq_of_drop_eq hs he)

theorem matchAt_cat_word {p : Pattern} {u : Text} (name : String) (hp : p.isPlain = true)
    (hu : p.Reads u) (hn : n.isIdentifier = true)
    (hv : ∀ b ∈ v.head?, CharClass.word.has b = false) (hs : s.drop a = u ++ n ++ v)
    (ha : a ≤ s.length)
    (huniq : ∀ w e r, p.Reads w → CharClass.word.has e = true → w ++ e :: r = u ++ n ++ v → w = u) :
    ∃ m, (p ++ group name word).matchAt s a = some m ∧ m.start = a ∧
      m.stop = a + (u ++ n).length ∧ m.text s = u ++ n ∧ m.groupText? s name = some n := by
  obtain ⟨y, hy, hpos, hgroup⟩ := head?_ends_cat_word (s := s) (x := placeAt s a) name hp hu hn hv hs
    huniq
  have hdrop : s.drop (a + u.length) = n ++ v := by
    rw [List.append_assoc] at hs
    exact Text.drop_of_drop_append hs
  refine ⟨_, matchAt_of_head? ha hy, rfl, hpos, Text.drop_take_eq_of_drop_eq hs hpos, ?_⟩
  apply groupText?_of_lookup hgroup hdrop
  rw [hpos, List.length_append, ← Nat.add_assoc]
  rfl

theorem matchAt_variableDeclaration (ht : word.Reads t) (hn : n.isIdentifier = true)
    (hv : ∀ b ∈ v.head?, b = ';') (hs : s.drop a = t ++ ' ' :: n ++ v) (ha : a ≤ s.length) :
    ∃ m, variableDeclaration.matchAt s a = some m ∧ m.start = a ∧
      m.stop = a + (t ++ ' ' :: n).length ∧ m.text s = t ++ ' ' :: n ∧
      m.groupText? s "variable" = some n := by
  have hsplit : t ++ ' ' :: n = t ++ [' '] ++ n := by simp
  have hv' : ∀ b ∈ v.head?, CharClass.word.has b = false := by
    intro b hb
    rw [hv b hb]
    decide
  rw [hsplit] at hs ⊢
  apply matchAt_cat_word "variable" (by decide) (variableType_reads ht) hn hv' hs ha
  intro w e r hr _ he
  rw [← hsplit] at he
  exact (typeName_reads_eq ht hn (by decide) (by decide) hv hr he).1

theorem matchAt_variableDeclaration_word (ht : word.Reads t) (hs : s.drop a = t ++ ';' :: v) :
    variableDeclaration.matchAt s a = none := by
  have ha : a ≤ s.length := Text.place_le_of_drop hs
  apply matchAt_eq_none (by decide) ha
  rintro _ r hw ⟨w, x, rfl, hr, -⟩
  obtain ⟨u, c, rfl, hc⟩ := exists_last_of_typeName_reads hr
  rw [hs, List.append_assoc] at hw
  rcases exists_read_of_append hw.symm with ⟨z, rfl⟩ | ⟨z, hz⟩
  · rw [typeMark_has_of_word (ht.1 c (by simp))] at hc
    cases hc
  · rw [hz] at hr
    have hleave := leavesWith_of_reads hr (fun b hb => soft_has_of_word (ht.1 b hb)) (by decide)
    exact absurd hleave (by decide)

def functionType : Pattern := opt (oneOf ["virtual", "static", "inline"] ++ blanks) ++ typeName

theorem function_ends_groups {x y : Place} (ht : t.isIdentifier = true) (hn : n.isIdentifier = true)
    (hx : x.rest = t ++ ' ' :: n ++ '(' :: v) (hy : y ∈ function.ends s x) :
    y.groups.lookup "function" =
      some (x.pos + (t ++ [' ']).length, x.pos + (t ++ [' ']).length + n.length) := by
  obtain ⟨z₁, hz₁, hy⟩ := mem_ends_cat.mp hy
  obtain ⟨z₂, hz₂, hz₁⟩ := mem_ends_cat.mp hz₁
  obtain ⟨z₃, hz₃, hz₂⟩ := mem_ends_cat.mp hz₂
  obtain ⟨z, hz, rfl⟩ := mem_ends_group.mp hz₂
  obtain ⟨w, hw, hpos, hr⟩ := reads_of_mem_ends (p := functionType) (by decide) hz₃
  obtain ⟨rfl, hrest⟩ := typeName_reads_eq (d := '(') (word_reads ht) hn (by decide) (by decide)
    (by simp) hr (hw.symm.trans hx)
  obtain ⟨u, _, hu, hword, -, rfl⟩ := mem_ends_run.mp hz
  obtain ⟨b, _, hb, hblank, -, rfl⟩ := mem_ends_run.mp hz₁
  obtain ⟨_, hparen, rfl⟩ := mem_ends_lit.mp hy
  simp only at hb hparen
  rw [hb, hparen] at hu
  have hname : u = n := by
    have hsplit := hu.symm.trans hrest
    have hn := word_has_of_isIdentifier hn
    cases b with
    | nil => exact (append_inj_of_has hword hn (by decide) (by decide) hsplit).1
    | cons e b =>
      have he : CharClass.word.has e = false := Text.isWord_of_isBlank (hblank e List.mem_cons_self)
      exact (append_inj_of_has hword hn he (by decide) hsplit).1
  rw [List.lookup_cons_self, hpos, hname]

theorem matchAt_function (ht : t.isIdentifier = true) (hn : n.isIdentifier = true)
    (hs : s.drop a = t ++ ' ' :: n ++ '(' :: v) :
    ∃ m, function.matchAt s a = some m ∧ m.start = a ∧
      m.stop = a + (t ++ ' ' :: n).length + 1 ∧ m.groupText? s "function" = some n := by
  have ha : a ≤ s.length := Text.place_le_of_drop hs
  have hreads : function.Reads ([] ++ (t ++ [' ']) ++ n ++ [] ++ ['(']) :=
    (((Reads.opt_none.cat (typeName_reads (word_reads ht))).cat (word_reads hn)).cat blanks_reads_nil).cat rfl
  obtain ⟨m, hm, hstart⟩ := exists_matchAt (v := v) ha hreads (by simp [hs])
  have hstop := stop_of_matchAt_cat_lit (by decide) (by decide) (by decide)
    (soft_has_declared (word_reads ht) hn) hs ha hm
  obtain ⟨-, -, -, hmem⟩ := matchAt_eq_some hm
  rw [hstart] at hmem
  have hgroup := function_ends_groups ht hn hs hmem
  have hdrop : s.drop (a + (t ++ [' ']).length) = n ++ '(' :: v :=
    Text.drop_of_drop_append (by simp [hs])
  exact ⟨m, hm, hstart, hstop, groupText?_of_lookup hgroup hdrop rfl⟩

theorem matchAt_constructor (hn : n.isIdentifier = true) (hs : s.drop a = n ++ '(' :: v) :
    ∃ m, constructor.matchAt s a = some m ∧ m.start = a ∧ m.stop = a + n.length + 1 := by
  have ha : a ≤ s.length := Text.place_le_of_drop hs
  have hreads : constructor.Reads (n ++ [] ++ ['(']) :=
    ((word_reads hn).cat blanks_reads_nil).cat rfl
  obtain ⟨m, hm, hstart⟩ := exists_matchAt (v := v) ha hreads (by simp [hs])
  refine ⟨m, hm, hstart, ?_⟩
  exact stop_of_matchAt_cat_lit (by decide) (by decide) (by decide)
    (word_has_of_isIdentifier hn) hs ha hm

theorem exists_head_blanks_paren {y r : Text} (hy : ∀ c ∈ y, CharClass.blank.has c = true) :
    ∃ e q, y ++ '(' :: r = e :: q ∧ ∀ {x : Text}, x.isIdentifier = true → e ∉ x := by
  cases y with
  | nil =>
    refine ⟨'(', r, rfl, ?_⟩
    intro x hx hmem
    exact absurd (Text.isWord_of_isIdentifier hx hmem) (by decide)
  | cons b y =>
    refine ⟨b, y ++ '(' :: r, rfl, ?_⟩
    intro x hx hmem
    have hb : Text.isBlank b = true := hy b List.mem_cons_self
    rw [Text.not_isBlank_of_isIdentifier hx hmem] at hb
    exact Bool.false_ne_true hb

theorem matchAt_constructor_declared (ht : t.isIdentifier = true) (hn : n.isIdentifier = true)
    (hs : s.drop a = t ++ ' ' :: n ++ v) (ha : a ≤ s.length) :
    constructor.matchAt s a = none := by
  apply matchAt_eq_none (by decide) ha
  rintro _ r hw ⟨_, _, rfl, ⟨x, y, rfl, ⟨hx, -⟩, ⟨hy, -⟩⟩, rfl⟩
  have he : x ++ (y ++ '(' :: r) = t ++ (' ' :: (n ++ v)) := by
    rw [hs] at hw
    simpa using hw.symm
  have hafter : y ++ '(' :: r = ' ' :: (n ++ v) := by
    obtain ⟨e, q, hq, hno⟩ := exists_head_blanks_paren (r := r) hy
    rcases List.append_eq_append_iff.mp he with ⟨z, rfl, hz⟩ | ⟨z, rfl, hz⟩
    · cases z with
      | nil => exact hz
      | cons b z =>
        rw [hq] at hz
        obtain ⟨rfl, -⟩ := List.cons.inj hz
        exact absurd (by simp) (hno ht)
    · cases z with
      | nil => exact hz.symm
      | cons b z =>
        obtain ⟨rfl, -⟩ := List.cons.inj hz
        exact absurd (hx ' ' (by simp)) (by decide)
  cases y with
  | nil => exact absurd (List.cons.inj hafter).1 (by decide)
  | cons b y =>
    obtain ⟨-, htail⟩ := List.cons.inj hafter
    obtain ⟨e, q, hq, hno⟩ := exists_head_blanks_paren (r := r)
      fun c hc => hy c (List.mem_cons_of_mem _ hc)
    cases n with
    | nil => exact Text.isIdentifier_ne_nil hn rfl
    | cons d n =>
      obtain ⟨rfl, -⟩ := List.cons.inj (hq.symm.trans htail)
      exact hno hn List.mem_cons_self

theorem eq_of_append_blank {u r : Text} {b : Char} (ht : word.Reads t)
    (hu : u.all (!Text.isBlank ·) = true) (hb : Text.isBlank b = true)
    (h : u ++ b :: r = t ++ ' ' :: v) : u = t ∧ r = v := by
  have hink : ∀ a ∈ t, (CharClass.other .blank).has a = true := by
    intro a ha
    simp [CharClass.has, Text.not_isBlank_of_isWord (ht.1 a ha)]
  obtain ⟨rfl, hrest⟩ := append_inj_of_has (k := .other .blank) (List.all_eq_true.mp hu) hink
    (by simpa [CharClass.has] using hb) (by decide) h
  exact ⟨rfl, (List.cons.inj hrest).2⟩

theorem matchAt_keyword_eq_none {p : Pattern} {keyword : Text} (hp : p.isPlain = true)
    (hopen : Opens (lit keyword ++ blanks1) p) (ha : a ≤ s.length)
    (hno : ∀ d r, Text.isBlank d = true → s.drop a ≠ keyword ++ d :: r) : p.matchAt s a = none := by
  apply matchAt_eq_none hp ha
  intro w r hw hr
  obtain ⟨_, q, rfl, _, b, rfl, rfl, hb, hlen⟩ := hopen.exists_reads hr
  obtain ⟨d, b, rfl⟩ := List.exists_cons_of_length_pos hlen
  rw [List.append_assoc, List.append_assoc, List.cons_append] at hw
  exact hno d _ (hb d List.mem_cons_self) hw

theorem matchAt_keyword_of_ne {p : Pattern} {keyword : Text} (hp : p.isPlain = true)
    (hopen : Opens (lit keyword ++ blanks1) p) (hkey : keyword.all (!Text.isBlank ·) = true)
    (ht : word.Reads t) (hne : t ≠ keyword) (hs : s.drop a = t ++ ' ' :: v) :
    p.matchAt s a = none := by
  apply matchAt_keyword_eq_none hp hopen (Text.place_le_of_drop hs)
  intro d r hd hw
  exact hne (eq_of_append_blank ht hkey hd (hw.symm.trans hs)).1.symm

theorem matchAt_keyword_of_mark {p : Pattern} {keyword : Text} {d : Char} (hp : p.isPlain = true)
    (hopen : Opens (lit keyword ++ blanks1) p) (hkey : keyword.all Text.isWord = true)
    (hd : Text.isBlank d = false) (hmark : Text.isWord d = false) (ht : word.Reads t)
    (hs : s.drop a = t ++ d :: v) : p.matchAt s a = none := by
  apply matchAt_keyword_eq_none hp hopen (Text.place_le_of_drop hs)
  intro e r he hw
  obtain ⟨-, hrest⟩ := append_inj_of_has (k := .word) (List.all_eq_true.mp hkey) ht.1
    (Text.isWord_of_isBlank he) hmark (hw.symm.trans hs)
  obtain ⟨rfl, -⟩ := List.cons.inj hrest
  rw [he] at hd
  cases hd

theorem matchAt_of_not_prefix {p : Pattern} {word : Text} {d : Char} (hp : p.isPlain = true)
    (hopen : p.openings = [word]) (hword : d ∉ word) (ht : ¬word <+: t)
    (hs : s.drop a = t ++ d :: v) : p.matchAt s a = none := by
  have ha : a ≤ s.length := Text.place_le_of_drop hs
  apply matchAt_of_openings hp ha
  intro o ho hpre
  obtain rfl : o = word := by simpa [hopen] using ho
  rw [hs] at hpre
  exact ht (prefix_of_not_mem hword hpre)

end CodeAudit.Shape
