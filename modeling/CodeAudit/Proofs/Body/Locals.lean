import CodeAudit.Proofs.Body.Shapes

namespace CodeAudit.Body

open Pattern Shape

variable {s t n u v w before : Text} {a : Nat} {c : Context}

structure Declared where
  type : Text
  name : Text
  type_isIdentifier : type.isIdentifier = true
  name_isIdentifier : name.isIdentifier = true
  type_not_delete : ¬"delete".toList <+: type
  type_ne_return : type ≠ "return".toList
  type_ne_emit : type ≠ "emit".toList

def Declared.text (x : Declared) : Text := x.type ++ ' ' :: x.name ++ [';']

structure LocalVariable extends Declared where
  gap : Text
  gap_isBlank : ∀ b ∈ gap, Text.isBlank b = true
  gap_break : '\n' ∈ gap

namespace LocalVariable

def reports (line : Int) (x : LocalVariable) : List Report :=
  if "l_".toList <+: x.name then [] else [⟨line, .localLead, some x.text, none⟩]

end LocalVariable

def lineAfter (before : Text) : Nat := before.count '\n' + 1

def localsText (locals : List LocalVariable) : Text := locals.flatMap fun x => x.text ++ x.gap

def localsReports : (before : Text) → List LocalVariable → List Report
  | _, [] => []
  | before, x :: rest =>
    x.reports (lineAfter before) ++ localsReports (before ++ (x.text ++ x.gap)) rest

def nameReports (line : Int) (t n : Text) : List Report :=
  if "l_".toList <+: n then [] else [⟨line, .localLead, some (t ++ ' ' :: n ++ [';']), none⟩]

theorem localRule?_eq (ht : word.Reads t) (hn : n.isIdentifier = true) :
    Variable.localRule? (t ++ ' ' :: n ++ [';']) =
      .ok (if "l_".toList <+: n then none else some .localLead) := by
  have hstar : '*' ∉ t ++ ' ' :: n := fun h => absurd (soft_has_declared ht hn '*' h) (by decide)
  have hspace : Variable.spaceBefore (t ++ ' ' :: n) '*' = false := by
    simp [Variable.spaceBefore, Text.find_of_not_mem hstar]
  have hleads : Variable.leads 'l' n = decide ("l_".toList <+: n) := Declaration.leads_eq 'l' n
  rw [Variable.localRule?, Declaration.declared_eq ht hn (by simp)]
  simp only [bind, Except.bind, hspace, hleads]
  by_cases hlead : "l_".toList <+: n <;> simp only [hlead] <;> rfl

theorem localReports_eq (ht : word.Reads t) (hn : n.isIdentifier = true)
    (hs : s.drop a = t ++ ' ' :: n ++ ';' :: v) :
    localReports s a (t ++ ' ' :: n ++ [';']) c = (.ok (nameReports c.line t n), c) := by
  have hsoft := soft_has_declared ht hn
  have hpointer : Variable.rawPointerRule? (t ++ ' ' :: n ++ [';']) = .ok none :=
    Declaration.rawPointerRule?_of_soft (Declaration.declared_eq ht hn (by simp)) hsoft
  have harray : Variable.rawArray? s a = none := by
    rw [Variable.rawArray?, matchAt_of_misses (k := soft) (by decide) hsoft hs]
    rfl
  have hcontainer : Variable.containerRule? (t ++ ' ' :: n ++ [';']) = none := by
    apply Declaration.containerRule?_of_not_mem
    intro h
    rcases List.mem_append.mp h with h | h
    · exact absurd (hsoft ':' h) (by decide)
    · exact absurd h (by decide)
  simp only [localReports, localRule?_eq ht hn, hpointer, harray, hcontainer, nameReports]
  by_cases hlead : "l_".toList <+: n <;> simp only [hlead] <;> rfl

theorem declaration_found (ht : word.Reads t) (hn : n.isIdentifier = true)
    (hs : s.drop a = t ++ ' ' :: n ++ ';' :: v) :
    declaration s a c =
      (.ok (some ⟨⟨a, (a + (t ++ ' ' :: n).length : Nat)⟩, nameReports c.line t n⟩), c) := by
  have ha : a ≤ s.length := Text.place_le_of_drop hs
  obtain ⟨m, hm, hstart, hstop, -⟩ := matchAt_variableDeclaration ht hn (by simp) hs ha
  have hfind : s.find ';' m.stop = (a + (t ++ ' ' :: n).length : Nat) := by
    rw [hstop]
    exact Text.find_of_drop_cons (Text.drop_of_drop_append hs)
  have hfound : (((a + (t ++ ' ' :: n).length : Nat) : Int) == -1) = false :=
    beq_false_of_ne (by omega)
  have hslice : s.slice m.start (((a + (t ++ ' ' :: n).length : Nat) : Int) + 1) =
      t ++ ' ' :: n ++ [';'] := by
    rw [hstart]
    apply Text.slice_of_drop (b := a + (t ++ ' ' :: n).length + 1) (v := v)
    · simp [hs]
    · simp only [List.length_append, List.length_cons, List.length_nil]
      omega
  simp only [declaration, hm, hfind, hfound, hslice, Bool.false_eq_true, if_false]
  rw [Lint.bind_ok (localReports_eq ht hn hs), hstart]
  rfl

theorem first_forms_of_declared (ht : word.Reads t) (hn : n.isIdentifier = true)
    (hdelete : ¬"delete".toList <+: t) (hemit : t ≠ "emit".toList) (hreturn : t ≠ "return".toList)
    (hangle : ∀ b ∈ s.drop a, b ∉ ['<', '>']) (hcast : plainCast.Absent s a)
    (hs : s.drop a = t ++ ' ' :: n ++ ';' :: v) :
    Form.first forms s a c =
      (.ok (some ⟨⟨a, (a + (t ++ ' ' :: n).length : Nat)⟩, nameReports c.line t n⟩), c) := by
  have ha : a ≤ s.length := Text.place_le_of_drop hs
  exact first_forms_of_declaration ha (absent_of_declared ht hn hdelete hemit hreturn hangle hs) hcast
    (declaration_found ht hn hs) (by simp)

namespace Declared

variable (x : Declared)

theorem text_length : x.text.length = (x.type ++ ' ' :: x.name).length + 1 := List.length_append

theorem text_append (v : Text) : x.text ++ v = x.type ++ ' ' :: x.name ++ ';' :: v := by
  rw [text, List.append_assoc, List.singleton_append]

theorem mem_text {b : Char} (hb : b ∈ x.text) : Text.isWord b = true ∨ b ∈ [' ', ';'] := by
  simp only [text, List.mem_append, List.mem_cons, List.not_mem_nil, or_false] at hb
  rcases hb with (hb | rfl | hb) | rfl
  · exact .inl (Text.isWord_of_isIdentifier x.type_isIdentifier hb)
  · exact .inr (by decide)
  · exact .inl (Text.isWord_of_isIdentifier x.name_isIdentifier hb)
  · exact .inr (by decide)

end Declared

namespace LocalVariable

variable (x : LocalVariable)

theorem isFound (hangle : ∀ b ∈ s.drop a, b ∉ ['<', '>'])
    (hs : s.drop a = x.text ++ (x.gap ++ v)) :
    Form.first forms s a c =
      (.ok (some ⟨⟨a, (a + (x.type ++ ' ' :: x.name).length : Nat)⟩, x.reports c.line⟩), c) := by
  obtain ⟨g, r, hg, hbreak⟩ := List.eq_append_cons_of_mem x.gap_break
  have hline : s.drop a = (x.text ++ g) ++ '\n' :: (r ++ v) := by simp [hs, hg]
  refine first_forms_of_declared (word_reads x.type_isIdentifier) x.name_isIdentifier
    x.type_not_delete x.type_ne_emit x.type_ne_return hangle (plainCast_absent hline ?_ ?_)
    (hs.trans (x.text_append _))
  · intro h
    rcases List.mem_append.mp h with h | h
    · exact absurd (x.mem_text h) (by decide)
    · exact hbreak h
  · intro h
    rcases List.mem_append.mp h with h | h
    · exact absurd (x.mem_text h) (by decide)
    · exact absurd (x.gap_isBlank '(' (by simp [hg, h])) (by decide)

end LocalVariable

variable {start pos k : Nat} {r : List Report} {locals : List LocalVariable}

theorem lineOf_of_append (hs : s = before ++ v) : s.lineOf before.length = lineAfter before := by
  rw [Text.lineOf_natCast, hs, List.take_left]
  rfl

def proceed (s : Text) (p : Int) (r : List Report) : Option Finding → Round State (List Report)
  | some x => .again ⟨x.stop + 1, r ++ x.reports⟩
  | none => if s.find ';' p == -1 then .done r else .again ⟨s.find ';' p + 1, r⟩

theorem round_of_first_at {d : Char} {stop line : Int} {found : Option Finding} {c' : Context}
    (hu : ∀ b ∈ u, Text.isBlank b = true) (hd : Text.isBlank d = false) (hpos : pos < stop)
    (hs : s.drop (pos + 1) = u ++ d :: v)
    (hfirst : Form.first forms s (pos + 1 + u.length : Nat)
      { c with line := line + s.lineBreaks start (pos + 1 + u.length : Nat) } = (.ok found, c')) :
    round s start stop line ⟨pos, r⟩ c =
      (.ok (proceed s (pos + 1 + u.length : Nat) r found), c') := by
  have hnext : s.nextInk (pos + 1 : Nat) = .ok (pos + 1 + u.length : Nat) :=
    Text.nextInk_of_drop hs hu hd
  have hplace : (pos : Int) + 1 = (pos + 1 : Nat) := rfl
  simp only [round, hpos, if_true, hplace, hnext, Lint.lift_ok_bind]
  rw [Lint.setLine_bind, Lint.bind_ok hfirst]
  cases found with
  | some x => rfl
  | none =>
    simp only [proceed]
    split <;> rfl

theorem round_of_first {d : Char} {stop : Int} {found : Option Finding} {c' : Context}
    (hu : ∀ b ∈ u, Text.isBlank b = true) (hd : Text.isBlank d = false) (hpos : pos < stop)
    (hstart : start ≤ pos) (hs : s.drop (pos + 1) = u ++ d :: v)
    (hfirst : Form.first forms s (pos + 1 + u.length : Nat)
      { c with line := s.lineOf (pos + 1 + u.length : Nat) } = (.ok found, c')) :
    round s start stop (s.lineOf start) ⟨pos, r⟩ c =
      (.ok (proceed s (pos + 1 + u.length : Nat) r found), c') := by
  have hline : (s.lineOf start : Int) + s.lineBreaks start (pos + 1 + u.length : Nat) =
      s.lineOf (pos + 1 + u.length : Nat) := by
    rw [← Int.natCast_add, Text.lineOf_add_lineBreaks (by omega)]
  exact round_of_first_at hu hd hpos hs (by rw [hline]; exact hfirst)

theorem rounds_local (x : LocalVariable) (hangle : ∀ b ∈ s, b ∉ ['<', '>'])
    (hu : ∀ b ∈ u, Text.isBlank b = true) {stop : Int} (hpos : pos < stop) (hstart : start ≤ pos)
    (hs : s.drop (pos + 1) = u ++ (x.text ++ (x.gap ++ v))) :
    rounds (round s start stop (s.lineOf start)) (k + 1) ⟨pos, r⟩ c =
      rounds (round s start stop (s.lineOf start)) k ⟨(pos + 1 + u.length + x.text.length : Nat),
        r ++ x.reports (s.lineOf (pos + 1 + u.length : Nat))⟩
        { c with line := s.lineOf (pos + 1 + u.length : Nat) } := by
  obtain ⟨d, w, hd⟩ := List.exists_cons_of_ne_nil (Text.isIdentifier_ne_nil x.type_isIdentifier)
  have hink : Text.isBlank d = false :=
    Text.not_isBlank_of_isIdentifier x.type_isIdentifier (by simp [hd])
  have hs' : s.drop (pos + 1) = u ++ d :: (w ++ ' ' :: x.name ++ ';' :: (x.gap ++ v)) := by
    rw [hs, x.text_append, hd]
    rfl
  have hstop : ((pos + 1 + u.length + (x.type ++ ' ' :: x.name).length : Nat) : Int) + 1 =
      (pos + 1 + u.length + x.text.length : Nat) := by
    rw [x.text_length]
    omega
  have hround := round_of_first (r := r) (c := c) hu hink hpos hstart hs'
    (x.isFound (fun b hb => hangle b (List.mem_of_mem_drop hb)) (Text.drop_of_drop_append hs))
  rw [rounds, Lint.bind_ok hround]
  simp only [proceed, hstop]

theorem rounds_brace (hangle : ∀ b ∈ s, b ∉ ['<', '>']) (hu : ∀ b ∈ u, Text.isBlank b = true)
    (hstart : start ≤ pos) (hs : s.drop (pos + 1) = u ++ '}' :: '\n' :: v) :
    rounds (round s start (pos + 1 + u.length : Nat) (s.lineOf start)) (k + 2) ⟨pos, r⟩ c =
      (.ok r, { c with line := s.lineOf (pos + 1 + u.length : Nat) }) := by
  have hpos : (pos : Int) < (pos + 1 + u.length : Nat) := by omega
  have hround := round_of_first (r := r) (c := c) hu (by decide) hpos hstart hs
    (first_forms_of_brace (fun b hb => hangle b (List.mem_of_mem_drop hb))
      (plainCast_absent (w := ['}']) (Text.drop_of_drop_append hs) (by decide) (by decide))
      (Text.drop_of_drop_append hs))
  rw [rounds, Lint.bind_ok hround, proceed]
  rcases Text.find_cases s ';' (pos + 1 + u.length : Nat) with ⟨hfind, -⟩ | ⟨n, hfind, hle, -⟩
  · simp only [hfind]
    rfl
  · rw [Text.bound_natCast] at hle
    have hfound : ((n : Int) == -1) = false := beq_false_of_ne (by omega)
    have hbeyond : ¬(n : Int) + 1 < (pos + 1 + u.length : Nat) := by omega
    simp only [hfind, hfound, Bool.false_eq_true, if_false]
    rw [rounds]
    simp only [round, hbeyond, if_false]
    rfl

theorem localsText_cons (x : LocalVariable) (rest : List LocalVariable) :
    localsText (x :: rest) = x.text ++ (x.gap ++ localsText rest) := by
  rw [localsText, List.flatMap_cons, List.append_assoc]
  rfl

theorem rounds_locals (hangle : ∀ b ∈ s, b ∉ ['<', '>']) (hu : ∀ b ∈ u, Text.isBlank b = true)
    (hpos : pos + 1 = before.length) (hstart : start ≤ pos) (hk : locals.length + 2 ≤ k)
    (hs : s = before ++ (u ++ (localsText locals ++ '}' :: '\n' :: v))) :
    (rounds (round s start (before.length + u.length + (localsText locals).length : Nat)
      (s.lineOf start)) k ⟨pos, r⟩ c).1 = .ok (r ++ localsReports (before ++ u) locals) := by
  induction locals generalizing before u pos r c k with
  | nil =>
    obtain ⟨k, rfl⟩ := Nat.exists_eq_add_of_le' hk
    have hdrop : s.drop (pos + 1) = u ++ '}' :: '\n' :: v := by
      rw [hpos, hs, List.drop_left]
      rfl
    rw [localsReports, List.append_nil, ← hpos]
    exact congrArg Prod.fst (rounds_brace hangle hu hstart hdrop)
  | cons x rest ih =>
    obtain ⟨k, rfl⟩ := Nat.exists_eq_succ_of_ne_zero (n := k) (by omega)
    have hdrop : s.drop (pos + 1) =
        u ++ (x.text ++ (x.gap ++ (localsText rest ++ '}' :: '\n' :: v))) := by
      rw [hpos, hs, List.drop_left, localsText_cons]
      simp
    have hline : s.lineOf (pos + 1 + u.length : Nat) = lineAfter (before ++ u) := by
      rw [hpos, ← List.length_append]
      exact lineOf_of_append (by rw [hs, List.append_assoc])
    have hlt : (pos : Int) <
        (before.length + u.length + (localsText (x :: rest)).length : Nat) := by omega
    rw [rounds_local x hangle hu hlt hstart hdrop, hline]
    obtain ⟨g, gap, hgap⟩ := List.exists_cons_of_ne_nil (List.ne_nil_of_mem x.gap_break)
    have hlength : (before ++ (u ++ (x.text ++ [g]))).length + gap.length +
        (localsText rest).length =
          before.length + u.length + (localsText (x :: rest)).length := by
      rw [localsText_cons, hgap]
      simp only [List.length_append, List.length_cons, List.length_nil]
      omega
    have hbefore : before ++ (u ++ (x.text ++ [g])) ++ gap = before ++ u ++ (x.text ++ x.gap) := by
      simp [hgap]
    rw [localsReports, ← hbefore, ← hlength, ← List.append_assoc r]
    refine ih ?_ ?_ (by omega) (by rw [List.length_cons] at hk; omega) ?_
    · exact fun b hb => x.gap_isBlank b (by simp [hgap, hb])
    · simp only [List.length_append, List.length_singleton]
      omega
    · rw [hs, localsText_cons, hgap]
      simp

theorem length_le_localsText (locals : List LocalVariable) :
    locals.length ≤ (localsText locals).length := by
  induction locals with
  | nil => exact Nat.zero_le _
  | cons x rest ih =>
    rw [localsText_cons, List.length_append, List.length_append, x.text_length, List.length_cons]
    omega

theorem mem_localsText {b : Char} (hb : b ∈ localsText locals) :
    Text.isBlank b = true ∨ Text.isWord b = true ∨ b = ';' := by
  obtain ⟨x, -, hb⟩ := List.mem_flatMap.mp hb
  rcases List.mem_append.mp hb with hb | hb
  · rcases x.mem_text hb with hword | hb
    · exact .inr (.inl hword)
    · simp only [List.mem_cons, List.not_mem_nil, or_false] at hb
      rcases hb with rfl | rfl <;> decide
  · exact .inl (x.gap_isBlank b hb)

theorem balanced_localsText (hu : ∀ b ∈ u, Text.isBlank b = true) (locals : List LocalVariable) :
    Bracket.brace.Balanced (u ++ localsText locals) := by
  apply Bracket.Balanced.of_forall
  intro b hb
  have hmem : Text.isBlank b = true ∨ Text.isWord b = true ∨ b = ';' :=
    (List.mem_append.mp hb).elim (fun h => .inl (hu b h)) mem_localsText
  constructor <;> rintro rfl <;> exact absurd hmem (by decide)

theorem check_of_block {b : Nat} (hw : Bracket.brace.Balanced w)
    (hs : s.drop b = '{' :: w ++ '}' :: v)
    (hrun : (rounds (round s b (b + w.length + 1 : Nat) c.line) (s.length + 3) ⟨b, []⟩ c).1 = .ok r) :
    (check s b c).1 = .ok ⟨⟨b, (b + w.length + 1 : Nat)⟩, r⟩ := by
  have hmark : ('{' != '{') = false := rfl
  have hcurrent : (currentLine : Lint Int) c = (.ok c.line, c) := rfl
  rw [check, Text.charAt_of_drop hs, Lint.lift_ok_bind, hmark, if_neg Bool.false_ne_true,
    Bracket.partner_of_drop hw hs, Lint.lift_ok_bind]
  dsimp only
  rw [Lint.bind_ok hcurrent, Lint.bind_ok (Prod.ext hrun rfl)]
  rfl

theorem check_locals (locals : List LocalVariable) (hangle : ∀ b ∈ s, b ∉ ['<', '>'])
    (hu : ∀ b ∈ u, Text.isBlank b = true) (hline : c.line = s.lineOf before.length)
    (hs : s = before ++ '{' :: (u ++ (localsText locals ++ '}' :: '\n' :: v))) :
    (check s before.length c).1 =
      .ok ⟨⟨before.length, (before.length + (u ++ localsText locals).length + 1 : Nat)⟩,
        localsReports (before ++ '{' :: u) locals⟩ := by
  have hdrop : s.drop before.length = '{' :: (u ++ localsText locals) ++ '}' :: '\n' :: v := by
    rw [hs, List.drop_left]
    simp
  have hlength : (before ++ ['{']).length + u.length + (localsText locals).length =
      before.length + (u ++ localsText locals).length + 1 := by
    simp only [List.length_append, List.length_singleton]
    omega
  have hbefore : before ++ ['{'] ++ u = before ++ '{' :: u := by simp
  have hrun : (rounds (round s before.length (before.length + (u ++ localsText locals).length + 1 : Nat)
      (s.lineOf before.length)) (s.length + 3) ⟨before.length, []⟩ c).1 =
        .ok ([] ++ localsReports (before ++ '{' :: u) locals) := by
    rw [← hbefore, ← hlength]
    refine rounds_locals (v := v) hangle hu (by simp) (Nat.le_refl _) ?_ ?_
    · have hle := length_le_localsText locals
      rw [hs]
      simp only [List.length_append, List.length_cons]
      omega
    · rw [hs]
      simp
  rw [← hline] at hrun
  exact check_of_block (balanced_localsText hu locals) hdrop hrun

end CodeAudit.Body
