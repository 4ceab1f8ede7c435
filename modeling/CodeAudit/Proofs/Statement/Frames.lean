import CodeAudit.Proofs.Statement.Heads
import CodeAudit.Proofs.Token

namespace CodeAudit.Statement

open Pattern

structure Condition where
  gap : Blanks
  inner : Text
  space : Blanks
  ne_nil : inner ≠ []
  no_brace : '{' ∉ inner

def Condition.text (x : Condition) : Text := x.gap.text ++ '(' :: x.inner ++ ')' :: x.space.text

structure Parts where
  gap : Blanks
  first : Text
  second : Text
  third : Text
  space : Blanks
  first_no_end : ';' ∉ first
  second_no_end : ';' ∉ second
  third_no_brace : '{' ∉ third

def Parts.text (x : Parts) : Text :=
  x.gap.text ++ '(' :: x.first ++ ';' :: x.second ++ ';' :: x.third ++ ')' :: x.space.text

structure Check where
  before : Blanks
  gap : Blanks
  inner : Text
  no_end : ';' ∉ inner

def Check.text (x : Check) : Text :=
  x.before.text ++ ("while".toList ++ (x.gap.text ++ '(' :: x.inner ++ [')'])) ++ [';']

structure Label where
  gap : Blanks
  name : Text
  space : Blanks
  tail : Text
  name_ne_nil : name ≠ []
  name_isWord : ∀ b ∈ name, Text.isWord b = true
  tail_no_end : ';' ∉ tail

inductive Frame where
  | whileLoop (head : Condition)
  | choice (head : Condition)
  | forLoop (head : Parts)
  | foreachLoop (head : Header)
  | doLoop (gap : Blanks) (check : Check)
  | record (label : Label)

namespace Frame

def opening : Frame → Text
  | whileLoop head => "while".toList ++ head.text
  | choice head => "switch".toList ++ head.text
  | forLoop head => "for".toList ++ head.text
  | foreachLoop head => "foreach".toList ++ head.text
  | doLoop gap _ => "do".toList ++ gap.text
  | record label => "struct".toList ++ (label.gap.text ++ (label.name ++ label.space.text))

def closing : Frame → Text
  | whileLoop _ | choice _ | forLoop _ | foreachLoop _ => []
  | doLoop _ check => check.text
  | record label => label.tail ++ [';']

def text (x : Frame) (block : Block) : Text := x.opening ++ block.text ++ x.closing

def form : Frame → Text → Int → Scan (Option Span)
  | whileLoop _ => whileStatement
  | choice _ => switchStatement
  | forLoop _ => forStatement
  | foreachLoop _ => foreachStatement
  | doLoop _ _ => doStatement
  | record _ => struct

end Frame

variable {s v : Text} {a : Nat} {block : Block}

theorem Condition.braced_eq {keyword : Text} (x : Condition)
    (hkey : ∃ c r, keyword = c :: r ∧ Text.isWord c = true)
    (hs : s.drop a = keyword ++ x.text ++ (block.text ++ v)) :
    braced (Shape.indented (braceHead keyword)) s a =
      .ok (some (spanOf a (keyword ++ x.text ++ block.text))) := by
  apply braced_of_matchAt block hs
  obtain ⟨d, w, hinner⟩ := List.exists_cons_of_ne_nil x.ne_nil
  have hs : s.drop a = [] ++ (keyword ++ (x.gap.text ++ '(' :: d ::
      (w ++ ')' :: (x.space.text ++ '{' :: (block.inner ++ '}' :: v))))) := by
    simp [hs, text, hinner, Enclosed.text, Bracket.opening, Bracket.closing]
  have hbrace : '{' ∉ w := fun h => x.no_brace (by simp [hinner, h])
  rw [matchAt_braceHead (by simp) hkey x.gap.isBlank hs (firstBlock?_of_block hbrace x.space.isBlank)]
  simp only [text, hinner, List.length_append, List.length_cons, List.length_nil, Option.some.injEq,
    Match.mk.injEq, and_true, true_and]
  omega

theorem Parts.forStatement_eq (x : Parts)
    (hs : s.drop a = "for".toList ++ x.text ++ (block.text ++ v)) :
    forStatement s a = .ok (some (spanOf a ("for".toList ++ x.text ++ block.text))) := by
  have hbraced : braced (Shape.indented Shape.forHead) s a =
      .ok (some (spanOf a ("for".toList ++ x.text ++ block.text))) := by
    apply braced_of_matchAt block hs
    have hs : s.drop a = [] ++ ("for".toList ++ (x.gap.text ++ '(' :: (x.first ++ ';' ::
        (x.second ++ ';' :: (x.third ++ ')' ::
          (x.space.text ++ '{' :: (block.inner ++ '}' :: v))))))) := by
      simp [hs, text, Enclosed.text, Bracket.opening, Bracket.closing]
    rw [matchAt_forHead (by simp) x.gap.isBlank x.first_no_end x.second_no_end hs
      (firstBlock?_of_block x.third_no_brace x.space.isBlank)]
    simp only [text, List.length_append, List.length_cons, List.length_nil, Option.some.injEq,
      Match.mk.injEq, and_true, true_and]
    omega
  rw [forStatement, hbraced]
  have hne : "for".toList ++ x.text ++ block.text ≠ [] := by simp
  simp only [bind, Except.bind, Option.any_some, spanOf_stop_ne a hne]
  rfl

theorem Header.foreachStatement_eq (x : Header)
    (hs : s.drop a = "foreach".toList ++ x.text ++ (block.text ++ v)) :
    foreachStatement s a = .ok (some (spanOf a ("foreach".toList ++ x.text ++ block.text))) := by
  have hspan : (spanOf (a + ("foreach".toList ++ x.gap.text).length + x.inner.text.length +
      x.space.text.length) block.text).stop =
        (spanOf a ("foreach".toList ++ x.text ++ block.text)).stop := by
    simp only [spanOf_append, text, List.append_assoc]
  have hs : s.drop a = "foreach".toList ++ x.gap.text ++ (x.inner.text ++
      (x.space.text ++ (block.text ++ v))) := by
    simp only [hs, text, List.append_assoc]
  have hparen := Text.drop_of_drop_append hs
  have hspace := Text.drop_of_drop_append hparen
  have hblock := Text.drop_of_drop_append hspace
  have hhead : Shape.foreachHead.matchAt s a =
      some ⟨a, a + ("foreach".toList ++ x.gap.text).length + 1, []⟩ :=
    matchAt_keyword x.gap.isBlank (by decide) hs
  rw [foreachStatement, hhead]
  generalize a + ("foreach".toList ++ x.gap.text).length = b at *
  have hlast : ((b + 1 : Nat) : Int) - 1 = b := by omega
  have hfind : s.find '{' (b + x.inner.text.length : Nat) =
      (b + x.inner.text.length + x.space.text.length : Nat) := by
    apply Text.find_of_drop hspace
    intro hmem
    exact absurd (x.space.isBlank _ hmem) (by decide)
  simp only [hlast, x.inner.partner_eq hparen, bind, Except.bind, spanOf_next, hfind,
    block.partner_eq hblock, hspan]
  rfl

theorem Check.doStatement_eq {gap : Blanks} (x : Check)
    (hs : s.drop a = "do".toList ++ gap.text ++ (block.text ++ (x.text ++ v))) :
    doStatement s a = .ok (some (spanOf a ("do".toList ++ gap.text ++ block.text ++ x.text))) := by
  have hhead : Shape.doHead.matchAt s a = some ⟨a, a + ("do".toList ++ gap.text).length + 1, []⟩ :=
    matchAt_keyword gap.isBlank (by decide) hs
  have hbraced := braced_of_matchAt block hs hhead
  have hbrace : s.charAt (spanOf a ("do".toList ++ gap.text ++ block.text)).stop = .ok '}' := by
    rw [Enclosed.text, ← List.append_assoc]
    apply charAt_spanOf (v := x.text ++ v)
    simp [hs, Enclosed.text, Bracket.closing]
  rw [← List.append_assoc] at hs
  have hafter := Text.drop_of_drop_append hs
  generalize "do".toList ++ gap.text ++ block.text = u at *
  have hwhile : Token.next s (a + u.length : Nat) =
      .ok ⟨a + u.length + x.before.text.length, "while".toList⟩ := by
    apply Token.next_word x.before.isBlank (List.all_eq_true.mp (by decide)) (by simp)
      (v := x.gap.text ++ '(' :: (x.inner ++ [')'] ++ [';'] ++ v))
    · apply x.gap.head_not_isWord
      intro _
      simp [show Text.isWord '(' = false by decide]
    · simp [hafter, text]
  have hend : ';' ∉ x.before.text ++ ("while".toList ++ (x.gap.text ++ '(' :: x.inner ++ [')'])) := by
    have hkeyword : ';' ∉ "while".toList := by decide
    simp [x.before.not_mem (c := ';') (by decide), x.gap.not_mem (c := ';') (by decide), x.no_end]
  have hfind : s.find ';' (a + u.length : Nat) = (spanOf a (u ++ x.text)).stop := by
    rw [← spanOf_append]
    exact find_spanOf hend hafter
  rw [doStatement, hbraced]
  simp only [bind, Except.bind, hbrace, spanOf_next, hwhile, hfind]
  rfl

theorem Label.matchAt_struct (x : Label)
    (hs : s.drop a = "struct".toList ++ (x.gap.text ++ (x.name ++ x.space.text)) ++ '{' :: v) :
    Shape.struct.matchAt s a =
      some ⟨a, a + ("struct".toList ++ (x.gap.text ++ (x.name ++ x.space.text))).length + 1, []⟩ := by
  have ha : a ≤ s.length := Text.place_le_of_drop hs
  have hrest : (placeAt s a).rest =
      "struct".toList ++ (x.gap.text ++ (x.name ++ (x.space.text ++ '{' :: v))) := by
    simp [placeAt, hs]
  apply matchAt_of_walk (y := ⟨_, v, _⟩) ha
  rw [Shape.struct, walk_cat, walk_cat, walk_cat, walk_cat, walk_lit hrest]
  apply walk_whole_run rfl x.gap.isBlank (Nat.zero_le _)
  · obtain ⟨c, w, hname⟩ := List.exists_cons_of_ne_nil x.name_ne_nil
    have hc : Text.isWord c = true := x.name_isWord c (by simp [hname])
    simpa [hname, CharClass.has] using Text.not_isBlank_of_isWord hc
  · apply walk_whole_run rfl x.name_isWord (Nat.zero_le _)
    · apply x.space.head_not_isWord
      intro _
      simp [show Text.isWord '{' = false by decide]
    · apply walk_whole_run rfl x.space.isBlank (Nat.zero_le _)
      · simp [CharClass.has, show Text.isBlank '{' = false by decide]
      · rw [Shape.openBrace, walk_lit (v := v) rfl]
        simp only [placeAt, List.length_append, List.length_cons, List.length_nil,
          Option.some.injEq, Place.mk.injEq, and_true]
        omega

theorem Label.struct_eq (x : Label) (hs : s.drop a = "struct".toList ++ (x.gap.text ++
    (x.name ++ x.space.text)) ++ (block.text ++ (x.tail ++ [';'] ++ v))) :
    struct s a = .ok (some (spanOf a ("struct".toList ++ (x.gap.text ++ (x.name ++ x.space.text)) ++
      block.text ++ (x.tail ++ [';'])))) := by
  have hhead : Shape.struct.matchAt s a = some ⟨a, a + ("struct".toList ++ (x.gap.text ++
      (x.name ++ x.space.text))).length + 1, []⟩ := x.matchAt_struct hs
  have hbraced := braced_of_matchAt block hs hhead
  rw [← List.append_assoc] at hs
  have hafter := Text.drop_of_drop_append hs
  have hne : "struct".toList ++ (x.gap.text ++ (x.name ++ x.space.text)) ++ block.text ≠ [] := by simp
  generalize "struct".toList ++ (x.gap.text ++ (x.name ++ x.space.text)) ++ block.text = u at *
  have hfind : s.find ';' (a + u.length : Nat) = (spanOf a (u ++ (x.tail ++ [';']))).stop := by
    rw [← spanOf_append]
    exact find_spanOf x.tail_no_end hafter
  have hlast : s.charAt (spanOf a (u ++ (x.tail ++ [';']))).stop = .ok ';' := by
    rw [← spanOf_append]
    exact charAt_spanOf hafter
  rw [struct, hbraced]
  simp only [bind, Except.bind, spanOf_stop_ne a hne, spanOf_next, hfind, hlast]
  rfl

theorem Frame.form_eq (x : Frame) (block : Block) (before after : Text) :
    x.form (before ++ x.text block ++ after) before.length =
      .ok (some (spanOf before.length (x.text block))) := by
  have hs : (before ++ x.text block ++ after).drop before.length =
      x.opening ++ (block.text ++ (x.closing ++ after)) := by
    rw [List.append_assoc, List.drop_left, text, List.append_assoc, List.append_assoc]
  generalize before ++ x.text block ++ after = s at hs ⊢
  cases x with
  | whileLoop head =>
    rw [text, closing, List.append_nil]
    exact head.braced_eq ⟨'w', "hile".toList, rfl, by decide⟩ hs
  | choice head =>
    rw [text, closing, List.append_nil]
    exact head.braced_eq ⟨'s', "witch".toList, rfl, by decide⟩ hs
  | forLoop head =>
    rw [text, closing, List.append_nil]
    exact head.forStatement_eq hs
  | foreachLoop head =>
    rw [text, closing, List.append_nil]
    exact head.foreachStatement_eq hs
  | doLoop gap check => exact check.doStatement_eq hs
  | record label => exact label.struct_eq hs

end CodeAudit.Statement
