import CodeAudit.Proofs.Rounds
import CodeAudit.Proofs.Statement.Heads
import CodeAudit.Proofs.Token

namespace CodeAudit.Statement

open Pattern

structure Line where
  text : Text
  first : Token
  first_eq : Token.first? 0 text = some first
  first_ne_brace : first.text ≠ ['{']
  no_end : ';' ∉ text

inductive Branch where
  | block (block : Block)
  | line (line : Line)

namespace Branch

def text : Branch → Text
  | block x => x.text
  | line x => x.text ++ [';']

def first (a : Nat) : Branch → Token
  | block _ => ⟨a, ['{']⟩
  | line x => ⟨a + x.first.start, x.first.text⟩

end Branch

inductive Alternative where
  | elseIf (before apart : Blanks) (apart_ne_nil : apart.text ≠ []) (head : Header) (branch : Branch)
  | otherwise (before apart : Blanks) (branch : Branch)
      (apart_of_word : apart.text = [] → ∀ b ∈ branch.text.head?, Text.isWord b = false)
      (not_if : (branch.first 0).is "if" = false)

def Alternative.text : Alternative → Text
  | elseIf before apart _ head branch =>
    before.text ++ ("else".toList ++ (apart.text ++ ("if".toList ++ (head.text ++ branch.text))))
  | otherwise before apart branch _ _ => before.text ++ ("else".toList ++ (apart.text ++ branch.text))

structure Chain where
  head : Header
  branch : Branch
  alternatives : List Alternative
  head_no_end : ';' ∉ head.inner.inner

def Chain.opening (x : Chain) : Text := "if".toList ++ (x.head.text ++ x.branch.text)

def Chain.text (x : Chain) : Text := x.opening ++ x.alternatives.flatMap Alternative.text

variable {s u v : Text} {a : Nat}

namespace Branch

theorem next_eq (x : Branch) {space : Blanks} (hs : s.drop a = space.text ++ (x.text ++ v)) :
    Token.next s a = .ok (x.first (a + space.text.length)) := by
  cases x with
  | block x => exact Token.next_mark space.isBlank (by decide) hs
  | line x =>
    have hs : s.drop a = space.text ++ (x.text ++ ';' :: v) := by simp [hs, text]
    apply Token.next_of_first?
    · rw [← List.append_assoc] at hs
      exact Text.place_le_of_drop hs
    · have hfirst := Token.first?_add (a + space.text.length) x.first_eq
      rw [hs, Token.first?_append_blanks space.isBlank]
      exact Token.first?_append_mark (by decide) hfirst

theorem text_ne_nil (x : Branch) : x.text ≠ [] := by
  cases x with
  | block x => simp [text, Enclosed.text]
  | line x => simp [text]

theorem is_first (x : Branch) (a : Nat) (text : String) :
    (x.first a).is text = (x.first 0).is text := by
  cases x with
  | block x => rfl
  | line x => rfl

theorem branchEnd_eq (x : Branch) {i : Nat} (hs : s.drop a = x.text ++ v)
    (hfind : ∀ l : Line, x = line l → s.find ';' i = (spanOf a x.text).stop) :
    branchEnd s (x.first a) i = .ok (spanOf a x.text).stop := by
  cases x with
  | block x =>
    have hne : x.text ≠ [] := by simp [Enclosed.text]
    rw [branchEnd, first, text]
    simp only [beq_self_eq_true, if_true, x.partner_eq hs, bind, Except.bind,
      spanOf_stop_ne a hne]
    rfl
  | line x =>
    rw [branchEnd, first, if_neg (by simpa using x.first_ne_brace), hfind x rfl]
    rfl

theorem branchEnd_first (x : Branch) (hs : s.drop a = x.text ++ v) :
    branchEnd s (x.first a) (x.first a).stop = .ok (spanOf a x.text).stop := by
  apply branchEnd_eq x hs
  rintro x rfl
  have hle : x.first.stop ≤ x.text.length := by simpa using Token.first?_stop_le x.first_eq
  have hsplit : x.text = x.text.take x.first.stop ++ x.text.drop x.first.stop :=
    (List.take_append_drop ..).symm
  have hlength : (x.text.take x.first.stop).length = x.first.stop := List.length_take_of_le hle
  have hplace : ((line x).first a).stop = a + (x.text.take x.first.stop).length := by
    rw [hlength, first, Token.stop, Token.stop, Nat.add_assoc]
  have hs : s.drop a = x.text.take x.first.stop ++ (x.text.drop x.first.stop ++ [';'] ++ v) := by
    rw [hs, text, ← List.append_assoc, ← List.append_assoc, ← hsplit]
  have hend : ';' ∉ x.text.drop x.first.stop := fun h => x.no_end (List.mem_of_mem_drop h)
  rw [hplace, find_spanOf hend (Text.drop_of_drop_append hs), spanOf_append, ← List.append_assoc,
    ← hsplit, text]

end Branch

namespace Alternative

theorem next_else {before : Blanks} (hv : ∀ b ∈ v.head?, Text.isWord b = false)
    (hs : s.drop a = before.text ++ ("else".toList ++ v)) :
    Token.next s a = .ok ⟨a + before.text.length, "else".toList⟩ :=
  Token.next_word before.isBlank (List.all_eq_true.mp (by decide)) (by simp) hv hs

theorem elseRound_eq (x : Alternative) (hs : s.drop (a + u.length) = x.text ++ v) :
    elseRound s (spanOf a u).stop = .ok (.again (spanOf a (u ++ x.text)).stop) := by
  rw [← spanOf_append, elseRound, spanOf_next]
  generalize a + u.length = b at *
  cases x with
  | elseIf before apart hne head branch =>
    have hspan : (spanOf (b + before.text.length + "else".toList.length + apart.text.length +
        "if".toList.length + head.gap.text.length + head.inner.text.length +
        head.space.text.length) branch.text).stop =
          (spanOf b (elseIf before apart hne head branch).text).stop := by
      simp only [spanOf_append, text, Header.text, List.append_assoc]
    have hs : s.drop b = before.text ++ ("else".toList ++ (apart.text ++ ("if".toList ++
        (head.gap.text ++ (head.inner.text ++ (head.space.text ++ (branch.text ++ v))))))) := by
      simp [hs, text, Header.text]
    have hapart := Text.drop_of_drop_append (Text.drop_of_drop_append hs)
    have hgap := Text.drop_of_drop_append (Text.drop_of_drop_append hapart)
    have hparen := Text.drop_of_drop_append hgap
    have hspace := Text.drop_of_drop_append hparen
    have hbranch := Text.drop_of_drop_append hspace
    have helse := next_else (apart.head_not_isWord fun h => absurd h hne) hs
    have hparen_head : ∀ b ∈ (head.inner.text ++ (head.space.text ++ (branch.text ++ v))).head?,
        Text.isWord b = false := by
      rw [Enclosed.text, Bracket.opening]
      simp [show Text.isWord '(' = false by decide]
    have hif := Token.next_word apart.isBlank (List.all_eq_true.mp (by decide)) (by simp)
      (head.gap.head_not_isWord fun _ => hparen_head) hapart
    have hmark := Token.next_mark head.gap.isBlank (c := '(') (by decide) hgap
    have hfirst := branch.next_eq hspace
    simp only [helse, hif, hmark, hfirst, bind, Except.bind, Token.stop_mk,
      head.inner.partner_eq hparen, spanOf_next, branch.branchEnd_first hbranch, hspan]
    rfl
  | otherwise before apart branch hword hnot =>
    have hspan : (spanOf (b + before.text.length + "else".toList.length + apart.text.length)
        branch.text).stop = (spanOf b (otherwise before apart branch hword hnot).text).stop := by
      simp only [spanOf_append, text]
    have hs : s.drop b = before.text ++ ("else".toList ++ (apart.text ++ (branch.text ++ v))) := by
      simp [hs, text]
    have hapart := Text.drop_of_drop_append (Text.drop_of_drop_append hs)
    have hbranch := Text.drop_of_drop_append hapart
    have hhead : apart.text = [] → ∀ b ∈ (branch.text ++ v).head?, Text.isWord b = false := by
      obtain ⟨c, w, hw⟩ := List.exists_cons_of_ne_nil branch.text_ne_nil
      simpa [hw] using hword
    have helse := next_else (apart.head_not_isWord hhead) hs
    have hfirst := branch.next_eq hapart
    have hnot : ∀ k, (branch.first k).is "if" = false := fun k => (branch.is_first k "if").trans hnot
    simp only [helse, hfirst, hnot, bind, Except.bind, Token.stop_mk, branch.branchEnd_first hbranch,
      hspan]
    rfl

theorem rounds_eq (xs : List Alternative) (n : Nat)
    (hs : s.drop (a + u.length) = xs.flatMap text ++ v) :
    rounds (elseRound s) (n + xs.length) (spanOf a u).stop =
      rounds (elseRound s) n (spanOf a (u ++ xs.flatMap text)).stop := by
  induction xs generalizing u with
  | nil => simp
  | cons x xs ih =>
    rw [List.flatMap_cons, List.append_assoc] at hs
    have hnext : s.drop (a + (u ++ x.text).length) = xs.flatMap text ++ v := by
      rw [List.length_append, ← Nat.add_assoc]
      exact Text.drop_of_drop_append hs
    rw [List.length_cons, ← Nat.add_assoc, rounds_again (x.elseRound_eq hs), ih hnext,
      List.flatMap_cons, List.append_assoc]

theorem length_le (xs : List Alternative) : xs.length ≤ (xs.flatMap text).length := by
  induction xs with
  | nil => exact Nat.le_refl 0
  | cons x xs ih =>
    have hx : 0 < x.text.length := List.length_pos_iff.mpr (by cases x <;> simp [text])
    rw [List.flatMap_cons, List.length_append, List.length_cons]
    omega

end Alternative

theorem Header.matchAt_if (x : Header)
    (hs : s.drop a = "if".toList ++ x.gap.text ++ (x.inner.text ++ v)) :
    (Shape.indented Shape.ifHead).matchAt s a =
      some ⟨a, a + ("if".toList ++ x.gap.text).length + 1, []⟩ := by
  have hs : s.drop a =
      [] ++ ("if".toList ++ (x.gap.text ++ '(' :: (x.inner.inner ++ ')' :: v))) := by
    simp [hs, Enclosed.text, Bracket.opening, Bracket.closing]
  exact matchAt_ifHead (by simp) x.gap.isBlank hs

theorem Branch.branchEnd_header (x : Branch) {head : Header} (hend : ';' ∉ head.inner.inner)
    (hs : s.drop a = head.inner.text ++ (head.space.text ++ (x.text ++ v))) :
    branchEnd s (x.first (a + head.inner.text.length + head.space.text.length)) (a + 1 : Nat) =
      .ok (spanOf (a + head.inner.text.length + head.space.text.length) x.text).stop := by
  apply branchEnd_eq x (Text.drop_of_drop_append (Text.drop_of_drop_append hs))
  rintro l rfl
  have hrest : s.drop (a + 1) =
      head.inner.inner ++ ')' :: (head.space.text ++ l.text) ++ [';'] ++ v := by
    rw [← List.drop_drop, hs]
    simp [Enclosed.text, Bracket.closing, text]
  have hno : ';' ∉ head.inner.inner ++ ')' :: (head.space.text ++ l.text) := by
    simp [hend, head.space.not_mem (c := ';') (by decide), l.no_end]
  rw [find_spanOf hno hrest]
  simp only [spanOf, text, Enclosed.text, List.length_append, List.length_cons, List.length_nil]
  omega

theorem Chain.ifStatement_of_rounds (x : Chain) (hs : s.drop a = x.opening ++ v) {last : Int}
    (hrounds : rounds (elseRound s) (s.length + 2) (spanOf a x.opening).stop = .ok last) :
    ifStatement s a = .ok (some ⟨a, last⟩) := by
  have hspan : (spanOf (a + ("if".toList ++ x.head.gap.text).length + x.head.inner.text.length +
      x.head.space.text.length) x.branch.text).stop = (spanOf a x.opening).stop := by
    simp only [spanOf_append, opening, Header.text, List.append_assoc]
  have hs : s.drop a = "if".toList ++ x.head.gap.text ++ (x.head.inner.text ++
      (x.head.space.text ++ (x.branch.text ++ v))) := by
    simp [hs, opening, Header.text]
  have hparen := Text.drop_of_drop_append hs
  have hspace := Text.drop_of_drop_append hparen
  rw [ifStatement, x.head.matchAt_if hs]
  generalize a + ("if".toList ++ x.head.gap.text).length = b at *
  have hlast : ((b + 1 : Nat) : Int) - 1 = b := by omega
  have hne : x.head.inner.text ≠ [] := by simp [Enclosed.text]
  simp only [hlast, x.head.inner.partner_eq hparen, bind, Except.bind, spanOf_stop_ne b hne,
    spanOf_next, x.branch.next_eq hspace, x.branch.branchEnd_header x.head_no_end hparen, hspan,
    hrounds]
  rfl

theorem Chain.ifStatement_eq (x : Chain) (before after : Text) (t : Token)
    (hafter : Token.first? 0 after = some t) (ht : t.is "else" = false) :
    ifStatement (before ++ x.text ++ after) before.length =
      .ok (some (spanOf before.length x.text)) := by
  have hs : (before ++ x.text ++ after).drop before.length =
      x.opening ++ (x.alternatives.flatMap Alternative.text ++ after) := by
    rw [List.append_assoc, List.drop_left, text, List.append_assoc]
  have hbound : x.alternatives.length ≤ (before ++ x.text ++ after).length := by
    have hle := Alternative.length_le x.alternatives
    simp only [text, List.length_append]
    omega
  generalize before ++ x.text ++ after = s at *
  have halternatives := Text.drop_of_drop_append hs
  obtain ⟨n, hn⟩ : ∃ n, s.length + 2 = n + 1 + x.alternatives.length :=
    ⟨s.length + 1 - x.alternatives.length, by omega⟩
  have hend : s.drop (before.length + x.text.length) = after := by
    rw [text, List.length_append, ← Nat.add_assoc]
    exact Text.drop_of_drop_append halternatives
  have hnext := Token.next_of_first?_drop hend hafter
  rw [← spanOf_next] at hnext
  apply x.ifStatement_of_rounds hs
  rw [hn, Alternative.rounds_eq _ _ halternatives]
  exact rounds_done (elseRound_done hnext ht) n

theorem isBlank_of_mem_nil : ∀ b ∈ ([] : Text), Text.isBlank b = true := by simp

def noBlanks : Blanks := ⟨[], isBlank_of_mem_nil⟩

def oneSpace : Blanks := ⟨[' '], List.all_eq_true.mp (by decide)⟩

def threeBranches : Chain where
  head := ⟨oneSpace, ⟨"a(b)".toList, .append (.other (by decide) (by decide))
    (.wrap (.other (by decide) (by decide)))⟩, oneSpace⟩
  branch := .block ⟨"c;".toList, .append (.other (by decide) (by decide))
    (.other (by decide) (by decide))⟩
  alternatives := [
    .elseIf oneSpace oneSpace (by decide)
      ⟨noBlanks, ⟨['d'], .other (by decide) (by decide)⟩, noBlanks⟩
      (.line ⟨"e=f".toList, ⟨0, ['e']⟩, by decide, by decide, by decide⟩),
    .otherwise oneSpace oneSpace (.block ⟨[], .nil⟩) (by simp [oneSpace]) (by decide)]
  head_no_end := by decide

theorem ifStatement_threeBranches :
    threeBranches.text = "if (a(b)) \x7bc;\x7d else if(d)e=f; else \x7b\x7d".toList ∧
      ifStatement ("x; ".toList ++ threeBranches.text ++ " elsewhere".toList) 3 =
        .ok (some ⟨3, 39⟩) :=
  ⟨by decide, threeBranches.ifStatement_eq "x; ".toList " elsewhere".toList ⟨1, "elsewhere".toList⟩
    (by decide) (by decide)⟩

end CodeAudit.Statement
