import CodeAudit.Proofs.Class.Layout
import CodeAudit.Proofs.Declaration.Member

namespace CodeAudit.Class

open Pattern Shape

variable {s v w : Text} {a k : Nat} {i : Int} {c : Context}

def memberShapes : List (Form × List Pattern) := [
  (.ofSpan Statement.access, [Shape.access]),
  (.ofSpan Statement.friend, [Shape.friend]),
  (.ofSpan (Statement.whole Shape.enum), [Shape.enum]),
  (.ofSpan (Statement.whole Shape.property), [Shape.property]),
  (Declaration.define, [Shape.define]),
  (Declaration.objectMark, [Shape.objectMark]),
  (Declaration.classDestructor, [Shape.destructor]),
  (Declaration.classConstructor, [Shape.constructor]),
  (Declaration.method, [Shape.function, Shape.operator]),
  (Declaration.typedef, [Shape.typedef]),
  (Declaration.memberVariable, [Shape.variableDeclaration])]

theorem absent_of_memberShapes {x : Form × List Pattern} (hx : x ∈ memberShapes)
    (h : ∀ p ∈ x.2, p.matchAt s i = none) : x.1.Absent s i := by
  simp only [memberShapes, List.mem_cons, List.not_mem_nil, or_false] at hx
  rcases hx with rfl | rfl | rfl | rfl | rfl | rfl | rfl | rfl | rfl | rfl | rfl <;>
    simp only [List.forall_mem_cons, List.not_mem_nil, false_implies, implies_true, and_true] at h
  · exact Form.absent_ofSpan (by simp only [Statement.access, Statement.upTo, h, Option.map_none])
  · exact Form.absent_ofSpan (by simp only [Statement.friend, Statement.upTo, h, Option.map_none])
  · exact Form.absent_ofSpan (by simp only [Statement.whole, h, Option.map_none])
  · exact Form.absent_ofSpan (by simp only [Statement.whole, h, Option.map_none])
  · intro c; simp only [Declaration.define, h]; rfl
  · intro c; simp only [Declaration.objectMark, h]; rfl
  · intro c; simp only [Declaration.classDestructor, h]; rfl
  · intro c; simp only [Declaration.classConstructor, h]; rfl
  · intro c; simp only [Declaration.method, Declaration.functionHead?, h, Option.map_none]; rfl
  · intro c; simp only [Declaration.typedef, h]; rfl
  · intro c
    simp only [Declaration.memberVariable, Declaration.variableAt?, h, Option.map_none]
    rfl

theorem first_members_of_found {f : Form} {ps : List Pattern} {x : Finding} {c' : Context}
    (hk : memberShapes[k]? = some (f, ps))
    (habsent : ∀ p ∈ (memberShapes.take k).flatMap Prod.snd, p.matchAt s i = none)
    (hf : f s i c = (.ok (some x), c')) (hx : x.start ≠ -1) :
    Form.first members s i c = (.ok (some x), c') :=
  Form.first_of_shapes (fun _ hy => absent_of_memberShapes hy) hk habsent hf hx

theorem first_members_of_brace (hs : s.drop a = '}' :: v) :
    Form.first members s a c = (.ok none, c) := by
  apply Form.first_of_shapes_absent fun _ hy => absent_of_memberShapes hy
  intro p hp
  have hmiss : ∀ p ∈ memberShapes.flatMap Prod.snd, p.misses (.among []) '}' = true := by decide
  exact matchAt_of_misses (u := []) (hmiss p hp) (by simp) hs

def isReserved (p : Pattern) : Bool :=
  p.isPlain && p.openings.all fun o => reserved.any (·.isPrefixOf o) && !o.contains ';'

theorem matchAt_of_isReserved {p : Pattern} (hp : isReserved p = true)
    (hw : ∀ word ∈ reserved, ¬word <+: w) (hsemi : ';' ∈ w) (hs : s.drop a = w ++ v)
    (ha : a ≤ s.length) : p.matchAt s a = none := by
  simp only [isReserved, Bool.and_eq_true, List.all_eq_true, List.any_eq_true,
    List.isPrefixOf_iff_prefix, Bool.not_eq_true', List.contains_eq_mem,
    decide_eq_false_iff_not] at hp
  obtain ⟨hplain, hopen⟩ := hp
  apply matchAt_of_openings hplain ha
  intro o ho hpre
  obtain ⟨⟨word, hword, hwo⟩, hno⟩ := hopen o ho
  rw [hs] at hpre
  rcases List.prefix_or_prefix_of_prefix hpre (List.prefix_append w v) with h | h
  · exact hw word hword (hwo.trans h)
  · exact hno (h.subset hsemi)

theorem access_found (level : Access) (hs : s.drop a = level.word ++ ':' :: v) :
    Form.ofSpan Statement.access s a c =
      (.ok (some ⟨⟨a, (a + level.word.length : Nat)⟩, []⟩), c) := by
  have ha : a ≤ s.length := by have := Text.le_length_of_drop hs; omega
  have hreads : Shape.access.Reads level.word := by
    cases level with
    | everyone => exact .inl rfl
    | heirs => exact .inr (.inl rfl)
    | itself => exact .inr (.inr (.inl rfl))
  have hcolon : ':' ∉ level.word := by cases level <;> decide
  obtain ⟨m, hm, hstart⟩ := exists_matchAt ha hreads hs
  obtain ⟨w, r, hw, -, hstop, hr⟩ := reads_of_matchAt (by decide) ha hm
  have hfind : s.find ':' m.stop = (a + level.word.length : Nat) := by
    rcases exists_read_of_append (hw.symm.trans hs) with ⟨t, ht⟩ | ⟨t, rfl⟩
    · have hafter : s.drop (a + w.length) = t ++ ':' :: v := by
        apply Text.drop_of_drop_append
        rw [hs, ht, List.append_assoc]
      rw [hstop, Text.find_of_drop hafter fun h => hcolon (by simp [ht, h]), ht,
        List.length_append, Nat.add_assoc]
    · have hother : ∀ b ∈ level.word, (CharClass.other (.among [':'])).has b = true := by
        intro b hb
        have hne : b ≠ ':' := ne_of_mem_of_not_mem hb hcolon
        simp [CharClass.has, hne]
      have hleave := leavesWith_of_reads hr hother (by decide)
      exact absurd hleave (by decide)
  simp only [Form.ofSpan, Statement.access, Statement.upTo, hm, Option.map_some, hstart, hfind]
  rfl

theorem reserved_or_misses {m : Member} {name : Text} {d : Char} {ps : List Pattern}
    (hps : ∀ p ∈ ps, isReserved p = true ∨ p.misses soft d = true) (hun : m.Unreserved name)
    (hsemi : ';' ∈ m.text name) (hs : s.drop a = m.text name ++ v)
    (hsoft : ∀ b ∈ w, soft.has b = true) (hw : ∃ r, s.drop a = w ++ d :: r) :
    ∀ p ∈ ps, p.matchAt s a = none := by
  obtain ⟨r, hw⟩ := hw
  have ha : a ≤ s.length := by have := Text.le_length_of_drop hw; omega
  intro p hp
  rcases hps p hp with h | h
  · exact matchAt_of_isReserved h hun hsemi hs ha
  · exact matchAt_of_misses h hsoft hw

def Member.IsFound (name : Text) (m : Member) : Prop :=
  ∀ (s v : Text) (a : Nat) (c : Context), s.drop a = m.text name ++ v →
    Form.first members s a c =
      (.ok (some ⟨⟨a, ((a + (m.text name).length : Nat) : Int) - 1⟩, m.reports name c.line⟩), c)

namespace Member

variable {name type n : Text} {parameters : Text}

theorem access_isFound (level : Access) : (access level).IsFound name := by
  intro s v a c hs
  have hstop : ((a + ((access level).text name).length : Nat) : Int) - 1 =
      (a + level.word.length : Nat) := by
    simp only [text, List.length_append, List.length_singleton]
    omega
  rw [hstop]
  refine first_members_of_found (k := 0) rfl (by simp) (access_found (v := v) level ?_) (by simp)
  simpa [text] using hs

theorem field_isFound (htype : type.isIdentifier = true) (hn : n.isIdentifier = true)
    (hun : (field type n).Unreserved name) : (field type n).IsFound name := by
  intro s v a c hs
  have hs' : s.drop a = type ++ ' ' :: n ++ ';' :: v := by
    simpa [text, declaration] using hs
  have hstop : ((a + ((field type n).text name).length : Nat) : Int) - 1 =
      (a + (type ++ ' ' :: n).length : Nat) := by
    simp only [text, declaration, List.length_append, List.length_singleton]
    omega
  rw [hstop]
  refine first_members_of_found (k := 10) rfl ?_ (Declaration.memberVariable_found htype hn hs')
    (by simp)
  exact reserved_or_misses (d := ';') (by decide) hun (by simp [text]) hs
    (soft_has_declared (word_reads htype) hn) ⟨v, hs'⟩

theorem method_isFound (htype : type.isIdentifier = true) (hn : n.isIdentifier = true)
    (hw : Bracket.paren.Balanced parameters) (hun : (method type n parameters).Unreserved name) :
    (method type n parameters).IsFound name := by
  intro s v a c hs
  have hs' : s.drop a = type ++ ' ' :: n ++ '(' :: parameters ++ ')' :: ';' :: v := by
    simpa [text, declaration] using hs
  have hopen : s.drop a = type ++ ' ' :: n ++ '(' :: (parameters ++ ')' :: ';' :: v) := by
    rw [hs']
    simp
  have hstop : ((a + ((method type n parameters).text name).length : Nat) : Int) - 1 =
      (a + (type ++ ' ' :: n).length + parameters.length + 2 : Nat) := by
    simp only [text, declaration, List.length_append, List.length_cons, List.length_nil]
    omega
  rw [hstop]
  refine first_members_of_found (k := 8) rfl ?_ (Declaration.method_found htype hn hw hs') (by simp)
  intro p hp
  have hcases : ∀ p ∈ (memberShapes.take 8).flatMap Prod.snd,
      p = Shape.constructor ∨ p ∈ (memberShapes.take 7).flatMap Prod.snd := by decide
  rcases hcases p hp with rfl | hp
  · have ha : a ≤ s.length := by have := Text.le_length_of_drop hopen; omega
    exact matchAt_constructor_declared htype hn hopen ha
  · exact reserved_or_misses (d := '(') (by decide) hun (by simp [text]) hs
      (soft_has_declared (word_reads htype) hn) ⟨_, hopen⟩ p hp

theorem constructor_isFound (hname : name.isIdentifier = true)
    (hw : Bracket.paren.Balanced parameters) (hun : (constructor parameters).Unreserved name) :
    (constructor parameters).IsFound name := by
  intro s v a c hs
  have hs' : s.drop a = name ++ '(' :: parameters ++ ')' :: ';' :: v := by
    simpa [text] using hs
  have hstop : ((a + ((constructor parameters).text name).length : Nat) : Int) - 1 =
      (a + name.length + parameters.length + 2 : Nat) := by
    simp only [text, List.length_append, List.length_cons, List.length_nil]
    omega
  rw [hstop]
  refine first_members_of_found (k := 7) rfl ?_ (Declaration.classConstructor_found hname hw hs')
    (by simp)
  exact reserved_or_misses (d := '(') (by decide) hun (by simp [text]) hs
    (fun b hb => soft_has_of_word (word_has_of_isIdentifier hname b hb))
    ⟨parameters ++ ')' :: ';' :: v, by rw [hs']; simp⟩

theorem destructor_isFound (hname : name.isIdentifier = true) (isVirtual : Bool) :
    (destructor isVirtual).IsFound name := by
  intro s v a c hs
  have hs' : s.drop a = destructorHead name isVirtual ++ ';' :: v := by
    simpa [text] using hs
  have hstop : ((a + ((destructor isVirtual).text name).length : Nat) : Int) - 1 =
      (a + (destructorHead name isVirtual).length : Nat) := by
    simp only [text, List.length_append, List.length_singleton]
    omega
  rw [hstop]
  have hlead : (if isVirtual then "virtual ".toList else []) = [] ∨
      (if isVirtual then "virtual ".toList else []) = "virtual ".toList := by
    cases isVirtual <;> simp
  refine first_members_of_found (k := 6) rfl ?_ (Declaration.classDestructor_found hlead hname hs')
    (by simp)
  have hmiss : ∀ p ∈ (memberShapes.take 6).flatMap Prod.snd,
      p.misses (.among []) '~' = true ∧ p.misses (.among []) 'v' = true := by decide
  intro p hp
  cases isVirtual with
  | false => exact matchAt_of_misses (u := []) (hmiss p hp).1 (by simp) hs'
  | true => exact matchAt_of_misses (u := []) (hmiss p hp).2 (by simp) hs'

theorem WellFormed.isFound {m : Member} (hm : m.WellFormed name) (hname : name.isIdentifier = true) :
    m.IsFound name := by
  cases m with
  | access level => exact access_isFound level
  | field type n => exact field_isFound hm.1 hm.2.1 hm.2.2
  | method type n parameters => exact method_isFound hm.1 hm.2.1 hm.2.2.1 hm.2.2.2
  | constructor parameters => exact constructor_isFound hname hm.1 hm.2
  | destructor isVirtual => exact destructor_isFound hname isVirtual

end Member

end CodeAudit.Class
