import CodeAudit.Proofs.Class.Head
import CodeAudit.Proofs.Class.Members

namespace CodeAudit.Class

variable {s v blanks name : Text} {a : Nat} {m : Member} {old i : Int} {r : List Report}
  {c : Context}

theorem exists_head_text (hname : name.isIdentifier = true) (hm : m.WellFormed name) :
    ∃ d r, m.text name = d :: r ∧ Text.isBlank d = false ∧ d ≠ ';' := by
  have hword : ∀ {w r : Text}, w.isIdentifier = true →
      ∃ d q, w ++ r = d :: q ∧ Text.isBlank d = false ∧ d ≠ ';' := by
    intro w r hw
    obtain ⟨d, w, rfl⟩ := List.exists_cons_of_ne_nil (Text.isIdentifier_ne_nil hw)
    refine ⟨d, w ++ r, rfl, Text.not_isBlank_of_isIdentifier hw List.mem_cons_self, ?_⟩
    rintro rfl
    exact absurd (Text.isWord_of_isIdentifier hw List.mem_cons_self) (by decide)
  cases m with
  | access level => cases level <;> exact ⟨_, _, rfl, by decide, by decide⟩
  | field type n =>
    rw [Member.text, Member.declaration, List.append_assoc]
    exact hword hm.1
  | method type n parameters =>
    rw [Member.text, Member.declaration, List.append_assoc, List.append_assoc]
    exact hword hm.1
  | constructor parameters =>
    rw [Member.text, List.append_assoc]
    exact hword hname
  | destructor isVirtual => cases isVirtual <;> exact ⟨_, _, rfl, by decide, by decide⟩

theorem round_member (hname : name.isIdentifier = true) (hm : m.WellFormed name)
    (hblanks : ∀ b ∈ blanks, Text.isBlank b = true) (hold : old < a)
    (hs : s.drop a = blanks ++ (m.text name ++ v)) :
    round s i ⟨old, a, r⟩ c =
      (.ok (.again ⟨a, (a + blanks.length + (m.text name).length : Nat),
        r ++ m.reports name (s.lineOf (a + blanks.length : Nat))⟩),
        { c with line := s.lineOf (a + blanks.length : Nat) }) := by
  obtain ⟨d, t, hd, hink, hsemi⟩ := exists_head_text hname hm
  have hstart : s.drop (a + blanks.length) = m.text name ++ v := Text.drop_of_drop_append hs
  have hnext : s.nextInk a = .ok (a + blanks.length : Nat) := by
    apply Text.nextInk_of_drop (v := t ++ v) _ hblanks hink
    rw [hs, hd, List.cons_append]
  have hchar : s.charAt (a + blanks.length : Nat) = .ok d := by
    apply Text.charAt_of_drop (v := t ++ v)
    rw [hstart, hd, List.cons_append]
  have hne : (d == ';') = false := beq_false_of_ne hsemi
  have hfirst := hm.isFound hname s v _ { c with line := s.lineOf (a + blanks.length : Nat) } hstart
  simp only [round, hold, if_true, hnext, Lint.lift_ok_bind, hchar, hne, Bool.false_eq_true,
    if_false]
  rw [Lint.setLine_bind, Lint.bind_ok hfirst]
  simp only [Int.sub_add_cancel]
  rfl

theorem round_end (hblanks : ∀ b ∈ blanks, Text.isBlank b = true) (hold : old < a)
    (hs : s.drop a = blanks ++ '}' :: ';' :: v) :
    round s i ⟨old, a, r⟩ c =
      (.ok (.done (.found ⟨⟨i, (a + blanks.length + 1 : Nat)⟩, r⟩)),
        { c with line := s.lineOf (a + blanks.length : Nat) }) := by
  have hbrace : s.drop (a + blanks.length) = '}' :: ';' :: v := Text.drop_of_drop_append hs
  have hnext : s.nextInk a = .ok (a + blanks.length : Nat) :=
    Text.nextInk_of_drop hs hblanks (by decide)
  have hne : ('}' == ';') = false := rfl
  have hfirst := first_members_of_brace
    (c := { c with line := s.lineOf (a + blanks.length : Nat) }) hbrace
  have hslice : s.slice (a + blanks.length : Nat) (((a + blanks.length : Nat) : Int) + 2) =
      ['}', ';'] :=
    Text.slice_of_drop (b := a + blanks.length + 2) (w := ['}', ';']) hbrace rfl
  simp only [round, hold, if_true, hnext, Lint.lift_ok_bind, Text.charAt_of_drop hbrace, hne,
    Bool.false_eq_true, if_false]
  rw [Lint.setLine_bind, Lint.bind_ok hfirst]
  simp only [hslice]
  rfl

theorem membersText_cons (gap : Text) (m : Member) (members : List (Text × Member)) :
    membersText name ((gap, m) :: members) =
      gap ++ (m.text name ++ membersText name members) := by
  rw [membersText, List.flatMap_cons, List.append_assoc]
  rfl

theorem rounds_members (members : List (Text × Member)) (hname : name.isIdentifier = true)
    (hmembers : ∀ x ∈ members, x.2.WellFormed name)
    (hgaps : ∀ x ∈ members, ∀ b ∈ x.1, Text.isBlank b = true)
    (hblanks : ∀ b ∈ blanks, Text.isBlank b = true) {states : Nat} (hstates : members.length < states)
    (hold : old < a) (hs : s.drop a = membersText name members ++ blanks ++ '}' :: ';' :: v) :
    (rounds (round s i) states ⟨old, a, r⟩ c).1 =
      .ok (.found ⟨⟨i, (a + (membersText name members).length + blanks.length + 1 : Nat)⟩,
        r ++ memberReports name s a members⟩) := by
  induction members generalizing old a r c states with
  | nil =>
    obtain ⟨n, rfl⟩ := Nat.exists_eq_succ_of_ne_zero (Nat.ne_of_gt hstates)
    rw [rounds, Lint.bind_ok (round_end hblanks hold hs)]
    simp only [memberReports, List.append_nil]
    rfl
  | cons x members ih =>
    obtain ⟨gap, m⟩ := x
    obtain ⟨n, rfl⟩ := Nat.exists_eq_succ_of_ne_zero (Nat.ne_of_gt (Nat.zero_lt_of_lt hstates))
    have hs' : s.drop a = gap ++ (m.text name ++
        (membersText name members ++ blanks ++ '}' :: ';' :: v)) := by
      rw [hs, membersText_cons]
      simp
    have hrest : s.drop (a + gap.length + (m.text name).length) =
        membersText name members ++ blanks ++ '}' :: ';' :: v :=
      Text.drop_of_drop_append (Text.drop_of_drop_append hs')
    have hround := round_member (i := i) (r := r) (c := c) hname
      (hmembers (gap, m) List.mem_cons_self) (hgaps (gap, m) List.mem_cons_self) hold hs'
    rw [rounds, Lint.bind_ok hround]
    obtain ⟨d, t, hd, -⟩ := exists_head_text hname (hmembers (gap, m) List.mem_cons_self)
    have hlonger : (a : Int) < (a + gap.length + (m.text name).length : Nat) := by
      have hlen : (m.text name).length = t.length + 1 := by rw [hd, List.length_cons]
      omega
    have hrun := ih (r := r ++ m.reports name (s.lineOf (a + gap.length : Nat)))
      (c := { c with line := s.lineOf (a + gap.length : Nat) })
      (fun x hx => hmembers x (List.mem_cons_of_mem _ hx))
      (fun x hx => hgaps x (List.mem_cons_of_mem _ hx))
      (Nat.lt_of_succ_lt_succ hstates) hlonger hrest
    have hlength : (membersText name ((gap, m) :: members)).length =
        gap.length + ((m.text name).length + (membersText name members).length) := by
      rw [membersText_cons, List.length_append, List.length_append]
    rw [hrun, hlength, memberReports, List.append_assoc]
    congr 6
    omega

theorem nameReports_eq (l : Layout) (line : Int) :
    nameReports l.name line = .ok (l.nameReports line) := by
  have hlen : 3 < l.name.length := l.name_length
  obtain ⟨b, hb⟩ : ∃ b, l.name[3]? = some b := ⟨_, List.getElem?_eq_getElem hlen⟩
  have hmem : b ∈ l.name := List.mem_of_getElem? hb
  have hchar : l.name.charAt 3 = .ok b := by simp [Text.charAt, Text.charAt?, hb]
  have hlead : (l.name.take 3 == "cit".toList) = decide ("cit".toList <+: l.name) := by
    rw [Bool.eq_iff_iff, decide_eq_true_eq, beq_iff_eq, List.prefix_iff_eq_take]
    exact eq_comm
  rw [Layout.nameReports, hb, Option.any_some,
    ← Text.isUpper_of_isIdentifier l.name_isIdentifier hmem,
    ← Text.isDigit_of_isIdentifier l.name_isIdentifier hmem]
  simp only [nameReports, hchar, hlead, decide_eq_true_eq]
  rfl

theorem colonRule?_of_brace (hs : s.drop a = '{' :: v) : colonRule? s a = .ok none := by
  rw [colonRule?, Text.charAt_of_drop hs]
  rfl

theorem length_le_membersText (members : List (Text × Member)) (hname : name.isIdentifier = true)
    (hmembers : ∀ x ∈ members, x.2.WellFormed name) :
    members.length ≤ (membersText name members).length := by
  induction members with
  | nil => exact Nat.zero_le _
  | cons x members ih =>
    obtain ⟨gap, m⟩ := x
    obtain ⟨d, r, hd, -⟩ := exists_head_text hname (hmembers (gap, m) List.mem_cons_self)
    have hlen : (m.text name).length = r.length + 1 := by rw [hd, List.length_cons]
    have hrest := ih fun x hx => hmembers x (List.mem_cons_of_mem _ hx)
    rw [membersText_cons, List.length_append, List.length_append, List.length_cons]
    omega

theorem Layout.text_append (l : Layout) (v : Text) :
    l.text ++ v = "class ".toList ++ l.name ++ l.gap ++
      '{' :: (membersText l.name l.members ++ l.last ++ '}' :: ';' :: v) := by
  unfold Layout.text Layout.head
  generalize "class ".toList = keyword
  simp only [List.append_assoc, List.cons_append, List.nil_append]

theorem Layout.head_length (l : Layout) :
    l.head.length = ("class ".toList ++ l.name).length + l.gap.length + 1 := by
  unfold Layout.head
  generalize "class ".toList = keyword
  rw [List.length_append, List.length_append, List.length_singleton]

theorem Layout.text_length (l : Layout) :
    l.text.length =
      l.head.length + (membersText l.name l.members).length + l.last.length + 2 := by
  rw [Layout.text, List.length_append, List.length_append, List.length_append]
  rfl

theorem body_layout (l : Layout) {h : Match}
    (hstop : h.stop = a + ("class ".toList ++ l.name).length) (hs : s.drop a = l.text ++ v) :
    (body s i h r c).1 =
      .ok (.found ⟨⟨i, ((a + l.text.length : Nat) : Int) - 1⟩,
        r ++ memberReports l.name s (a + l.head.length) l.members⟩) := by
  have hgap : s.drop h.stop = l.gap ++ '{' :: (membersText l.name l.members ++ l.last ++
      '}' :: ';' :: v) := by
    rw [hstop]
    apply Text.drop_of_drop_append
    rw [hs, l.text_append, List.append_assoc]
  have hbrace := Text.drop_of_drop_append hgap
  have hnext : s.nextInk h.stop = .ok (h.stop + l.gap.length : Nat) :=
    Text.nextInk_of_drop hgap l.gap_isBlank (by decide)
  have hpos : h.stop + l.gap.length + 1 = a + l.head.length := by
    rw [hstop, l.head_length, Nat.add_assoc, Nat.add_assoc, Nat.add_assoc]
  have hmembers : s.drop (a + l.head.length) =
      membersText l.name l.members ++ l.last ++ '}' :: ';' :: v := by
    rw [← hpos, ← List.drop_drop, hbrace]
    rfl
  have hstates : l.members.length < s.length + 3 := by
    have hcount := length_le_membersText l.members l.name_isIdentifier l.members_wellFormed
    have hlen := congrArg List.length hmembers
    simp only [List.length_drop, List.length_append] at hlen
    omega
  have hold : ((h.stop + l.gap.length : Nat) : Int) < (a + l.head.length : Nat) := by omega
  have hrun := rounds_members (i := i) (r := r) (c := c) l.members l.name_isIdentifier
    l.members_wellFormed l.members_isBlank l.last_isBlank hstates hold hmembers
  have hend : ((a + l.text.length : Nat) : Int) - 1 =
      (a + l.head.length + (membersText l.name l.members).length + l.last.length + 1 : Nat) := by
    have hlen := l.text_length
    omega
  have hpos' : ((h.stop + l.gap.length : Nat) : Int) + 1 = (a + l.head.length : Nat) := by omega
  rw [hend, ← hrun]
  simp only [body, hnext, Lint.lift_ok_bind, colonRule?_of_brace hbrace,
    Text.find_of_drop_cons hbrace, hpos', Option.toList_none, List.map_nil, List.append_nil]
  rfl

theorem check_layout (l : Layout) (before after : Text) (c : Context) :
    (check (before ++ l.text ++ after) before.length c).1 =
      .ok (.found ⟨⟨before.length, ((before.length + l.text.length : Nat) : Int) - 1⟩,
        l.reports (before ++ l.text ++ after) before.length c.line⟩) := by
  have hs : (before ++ l.text ++ after).drop before.length = l.text ++ after := by
    rw [List.append_assoc, List.drop_left]
  generalize before ++ l.text ++ after = s at hs ⊢
  have hhead := hs.trans (l.text_append after)
  obtain ⟨m, hm, hstop, hname⟩ := matchAt_classHead l.name_isIdentifier l.gap_isBlank hhead
  have hforward := matchAt_classForward l.name_isIdentifier l.gap_isBlank hhead
  have hbody := body_layout (i := before.length) (r := l.nameReports c.line)
    (c := { c with scope := .classBody }) l hstop hs
  simp only [check, hforward, hm, hname, Option.getD_some, nameReports_eq]
  exact hbody

theorem balanced_callback : Bracket.paren.Balanced "(*f)(int)".toList :=
  (Bracket.Balanced.wrap (b := .paren) (w := "*f".toList) (.of_forall (by simp [Bracket.opening,
    Bracket.closing]))).append
    (Bracket.Balanced.wrap (b := .paren) (w := "int".toList) (.of_forall (by simp [Bracket.opening,
    Bracket.closing])))

def boxLayout : Layout where
  name := "itemBox".toList
  gap := "\n".toList
  members := [
    ("\n".toList, .access .everyone),
    ("\n ".toList, .constructor "(*f)(int)".toList),
    ([], .destructor false),
    ("\n ".toList, .method "int".toList "area".toList []),
    ("\n\n ".toList, .field "int".toList "id".toList),
    ([], .field "int".toList "width".toList),
    ("\n ".toList, .field "int".toList "m_height".toList)]
  last := "\n".toList
  name_isIdentifier := by decide
  name_length := by decide
  gap_isBlank := List.all_eq_true.mp (by decide)
  members_isBlank := by
    intro x hx
    apply List.all_eq_true.mp
    revert x
    decide
  members_wellFormed := by
    simp only [List.forall_mem_cons, List.not_mem_nil, false_implies, implies_true, and_true]
    refine ⟨trivial, ⟨balanced_callback, ?_⟩, trivial, ⟨by decide, by decide, .nil, ?_⟩,
      ⟨by decide, by decide, ?_⟩, ⟨by decide, by decide, ?_⟩, by decide, by decide, ?_⟩ <;>
      decide
  last_isBlank := List.all_eq_true.mp (by decide)

theorem check_boxLayout :
    boxLayout.text = ("class itemBox\n\x7b\npublic:\n itemBox((*f)(int));~itemBox();\n int area();" ++
      "\n\n int id;int width;\n int m_height;\n\x7d;").toList ∧
    (check ("\n".toList ++ boxLayout.text ++ "int g_x;".toList) 1 { line := 2 }).1 =
      .ok (.found ⟨⟨1, 106⟩, [
        ⟨2, .classLead, some "itemBox".toList, none⟩,
        ⟨2, .classCapital, some "itemBox".toList, none⟩,
        ⟨5, .virtualDestructor, some "~itemBox()".toList, none⟩,
        ⟨8, .shortName, some "int id".toList, none⟩,
        ⟨8, .memberLead, some "int width".toList, none⟩]⟩) := by
  constructor
  · decide +kernel
  · refine (check_layout boxLayout "\n".toList "int g_x;".toList { line := 2 }).trans ?_
    apply congrArg Except.ok
    decide +kernel

end CodeAudit.Class
