import CodeAudit.Proofs.Bracket.Balanced
import CodeAudit.Proofs.Pattern.Lead
import CodeAudit.Proofs.Pattern.Walk
import CodeAudit.Proofs.Text.Identifier
import CodeAudit.Statement

namespace CodeAudit

namespace Pattern

variable {p : Pattern} {s v w : Text} {x y : Place} {k : Place → Option Place}

theorem walk_eq_none (hp : p.isPlain = true) (h : ∀ w v, x.rest = w ++ v → ¬p.Reads w) :
    p.walk s x k = none := by
  rw [walk_eq_findSome?, List.findSome?_eq_none_iff]
  intro y hy
  obtain ⟨w, hw, -, hr⟩ := reads_of_mem_ends hp hy
  exact absurd hr (h w y.rest hw)

def indent : CharClass := .among [' ', '\t', '\r']

theorem indent_has_of_isWord {d : Char} (h : Text.isWord d = true) : indent.has d = false := by
  apply Bool.eq_false_iff.mpr
  intro hd
  have hd : d = ' ' ∨ d = '\t' ∨ d = '\r' := by simpa [indent, CharClass.has] using hd
  rcases hd with rfl | rfl | rfl <;> exact absurd h (by decide)

theorem walk_indented {margin : Text} (hm : ∀ b ∈ margin, indent.has b = true)
    (hx : x.rest = margin ++ w) (hw : ∀ b ∈ w.head?, Text.isWord b = true)
    (h : p.walk s ⟨x.pos + margin.length, w, x.groups⟩ k = some y) :
    (Shape.indented p).walk s x k = some y := by
  rw [Shape.indented, walk_cat, many]
  apply walk_whole_run hx hm (Nat.zero_le _) _ h
  intro b hb
  exact indent_has_of_isWord (hw b hb)

theorem walk_keyword {keyword gap : Text} {mark : Char} (hgap : ∀ b ∈ gap, Text.isBlank b = true)
    (hmark : Text.isBlank mark = false) (hx : x.rest = keyword ++ (gap ++ mark :: v))
    (hk : k ⟨x.pos + (keyword ++ gap).length + 1, v, x.groups⟩ = some y) :
    (lit keyword ++ Shape.blanks ++ lit [mark]).walk s x k = some y := by
  rw [walk_cat, walk_cat, walk_lit hx, Shape.blanks, many]
  apply walk_whole_run rfl hgap (Nat.zero_le _)
  · simpa [CharClass.has] using hmark
  · rw [walk_lit (v := v) rfl]
    simpa [Nat.add_assoc] using hk

end Pattern

namespace Statement

open Pattern

variable {s u v w g : Text} {a n : Nat} {greedy : Bool}

structure Blanks where
  text : Text
  isBlank : ∀ b ∈ text, Text.isBlank b = true

theorem Blanks.not_mem (x : Blanks) {c : Char} (hc : Text.isBlank c = false) : c ∉ x.text := by
  intro hmem
  rw [x.isBlank c hmem] at hc
  cases hc

theorem Blanks.head_not_isWord (x : Blanks)
    (hv : x.text = [] → ∀ b ∈ v.head?, Text.isWord b = false) :
    ∀ b ∈ (x.text ++ v).head?, Text.isWord b = false := by
  intro b hb
  cases hx : x.text with
  | nil => exact hv hx b (by simpa [hx] using hb)
  | cons c w =>
    obtain rfl : c = b := by simpa [hx] using hb
    exact Text.isWord_of_isBlank (x.isBlank c (by simp [hx]))

structure Enclosed (b : Bracket) where
  inner : Text
  balanced : b.Balanced inner

def Enclosed.text {b : Bracket} (x : Enclosed b) : Text := b.opening :: x.inner ++ [b.closing]

abbrev Block := Enclosed .brace

structure Header where
  gap : Blanks
  inner : Enclosed .paren
  space : Blanks

def Header.text (x : Header) : Text := x.gap.text ++ x.inner.text ++ x.space.text

def spanOf (a : Nat) (w : Text) : Span := ⟨a, ((a + w.length : Nat) : Int) - 1⟩

theorem spanOf_next (a : Nat) (w : Text) : (spanOf a w).stop + 1 = (a + w.length : Nat) := by
  simp only [spanOf]
  omega

theorem spanOf_append (a : Nat) (u w : Text) :
    (spanOf (a + u.length) w).stop = (spanOf a (u ++ w)).stop := by
  simp only [spanOf, List.length_append, Nat.add_assoc]

theorem spanOf_stop_ne (a : Nat) (hw : w ≠ []) : ((spanOf a w).stop == -1) = false := by
  have hlen := List.length_pos_iff.mpr hw
  apply beq_false_of_ne
  simp only [spanOf]
  omega

theorem spanOf_concat (a : Nat) (w : Text) (c : Char) :
    (spanOf a (w ++ [c])).stop = (a + w.length : Nat) := by
  simp only [spanOf, List.length_append, List.length_singleton]
  omega

theorem charAt_spanOf {c : Char} (hs : s.drop a = w ++ [c] ++ v) :
    s.charAt (spanOf a (w ++ [c])).stop = .ok c := by
  rw [List.append_assoc] at hs
  rw [spanOf_concat]
  exact Text.charAt_of_drop (Text.drop_of_drop_append hs)

theorem find_spanOf {c : Char} (hw : c ∉ w) (hs : s.drop a = w ++ [c] ++ v) :
    s.find c a = (spanOf a (w ++ [c])).stop := by
  rw [List.append_assoc] at hs
  rw [spanOf_concat]
  exact Text.find_of_drop hs hw

theorem Enclosed.partner_eq {b : Bracket} (x : Enclosed b) (hs : s.drop a = x.text ++ v) :
    b.partner s a = .ok (spanOf a x.text).stop := by
  have hs : s.drop a = b.opening :: x.inner ++ b.closing :: v := by simp [hs, text]
  rw [Bracket.partner_of_drop x.balanced hs]
  simp only [spanOf, text, List.length_append, List.length_cons, List.length_nil]
  congr 1
  omega

def opensBlock : Text → Bool
  | [] => false
  | c :: w => c == ')' && (Text.dropBlanks w).head? == some '{'

/-- Place of the first brace that only blanks separate from a closing parenthesis. -/
def firstBlock? : Text → Option Nat
  | [] => none
  | c :: w =>
    if opensBlock (c :: w) then some ((w.takeWhile Text.isBlank).length + 1)
    else (firstBlock? w).map (· + 1)

def blockMark (greedy : Bool) : Pattern :=
  lit [')'] ++ run .blank 0 none greedy ++ Shape.openBrace

theorem dropBlanks_brace (hg : ∀ b ∈ g, Text.isBlank b = true) :
    Text.dropBlanks (g ++ '{' :: v) = '{' :: v := by
  rw [Text.dropBlanks, List.dropWhile_append_of_pos hg, List.dropWhile_cons_of_neg (by decide)]

theorem opensBlock_iff :
    opensBlock w = true ↔ ∃ g v, w = ')' :: (g ++ '{' :: v) ∧ ∀ b ∈ g, Text.isBlank b = true := by
  cases w with
  | nil => simp [opensBlock]
  | cons c w =>
    simp only [opensBlock, Bool.and_eq_true, beq_iff_eq, List.cons.injEq]
    constructor
    · rintro ⟨rfl, hbrace⟩
      obtain ⟨v, hv⟩ := List.head?_eq_some_iff.mp hbrace
      refine ⟨w.takeWhile Text.isBlank, v, ⟨rfl, ?_⟩, List.all_eq_true.mp List.all_takeWhile⟩
      rw [← hv]
      exact List.takeWhile_append_dropWhile.symm
    · rintro ⟨g, v, ⟨rfl, rfl⟩, hg⟩
      rw [dropBlanks_brace hg]
      exact ⟨rfl, rfl⟩

theorem firstBlock?_of_opensBlock (hg : ∀ b ∈ g, Text.isBlank b = true) :
    firstBlock? (')' :: (g ++ '{' :: v)) = some (g.length + 1) := by
  have hopens : opensBlock (')' :: (g ++ '{' :: v)) = true := opensBlock_iff.mpr ⟨g, v, rfl, hg⟩
  rw [firstBlock?, if_pos hopens, List.takeWhile_append_of_pos hg,
    List.takeWhile_cons_of_neg (by decide), List.append_nil]

theorem firstBlock?_append (hu : ∀ x y, u = x ++ y → y ≠ [] → opensBlock (y ++ v) = false) :
    firstBlock? (u ++ v) = (firstBlock? v).map (· + u.length) := by
  induction u with
  | nil => simp
  | cons c u ih =>
    have hc : opensBlock (c :: (u ++ v)) = false := hu [] (c :: u) rfl (by simp)
    rw [List.cons_append, firstBlock?, hc, if_neg Bool.false_ne_true,
      ih fun x y hxy => hu (c :: x) y (by rw [hxy, List.cons_append]), Option.map_map]
    rfl

theorem not_opensBlock {d : Char} (hd : Text.isBlank d = false) (hbrace : d ≠ '{') (hu : '{' ∉ u)
    (hne : u ≠ []) : opensBlock (u ++ d :: v) = false := by
  apply Bool.eq_false_iff.mpr
  intro h
  obtain ⟨g, r, heq, hg⟩ := opensBlock_iff.mp h
  obtain ⟨c, u, rfl⟩ := List.exists_cons_of_ne_nil hne
  rw [List.cons_append, List.cons.injEq] at heq
  rcases exists_read_of_append heq.2.symm with ⟨t, rfl⟩ | ⟨t, rfl⟩
  · rw [List.append_assoc, List.append_cancel_left_eq] at heq
    cases t with
    | nil => exact hbrace (List.cons.inj heq.2).1
    | cons e t =>
      obtain ⟨rfl, -⟩ := List.cons.inj heq.2
      exact hu (by simp)
  · rw [hg d (by simp)] at hd
    cases hd

theorem firstBlock?_of_block (hu : '{' ∉ u) (hg : ∀ b ∈ g, Text.isBlank b = true) :
    firstBlock? (u ++ ')' :: (g ++ '{' :: v)) = some (u.length + g.length + 1) := by
  rw [firstBlock?_append, firstBlock?_of_opensBlock hg]
  · simp only [Option.map_some, Option.some.injEq]
    omega
  · rintro x y rfl hne
    exact not_opensBlock (by decide) (by decide) (fun h => hu (by simp [h])) hne

theorem firstBlock?_of_semicolon (hu : '{' ∉ u) :
    firstBlock? (u ++ ';' :: v) = (firstBlock? v).map (· + (u.length + 1)) := by
  have hnext : firstBlock? (';' :: v) = (firstBlock? v).map (· + 1) := rfl
  rw [firstBlock?_append, hnext, Option.map_map]
  · congr 1
    funext n
    simp only [Function.comp_apply]
    omega
  · rintro x y rfl hne
    exact not_opensBlock (by decide) (by decide) (fun h => hu (by simp [h])) hne

theorem exists_of_firstBlock? (h : firstBlock? w = some n) :
    ∃ u g v, w = u ++ ')' :: (g ++ '{' :: v) ∧ n = u.length + g.length + 1 ∧
      (∀ b ∈ g, Text.isBlank b = true) ∧
      ∀ x y, u = x ++ y → y ≠ [] → opensBlock (y ++ ')' :: (g ++ '{' :: v)) = false := by
  induction w generalizing n with
  | nil => cases h
  | cons c w ih =>
    by_cases hopens : opensBlock (c :: w) = true
    · obtain ⟨g, v, heq, hg⟩ := opensBlock_iff.mp hopens
      rw [heq, firstBlock?_of_opensBlock hg] at h
      refine ⟨[], g, v, heq, ?_, hg, ?_⟩
      · rw [← Option.some.inj h, List.length_nil, Nat.zero_add]
      · intro x y hxy hne
        exact absurd (List.append_eq_nil_iff.mp hxy.symm).2 hne
    · rw [firstBlock?, if_neg hopens] at h
      obtain ⟨m, hm, rfl⟩ := Option.map_eq_some_iff.mp h
      obtain ⟨u, g, v, rfl, rfl, hg, hfirst⟩ := ih hm
      refine ⟨c :: u, g, v, rfl, ?_, hg, ?_⟩
      · rw [List.length_cons]
        omega
      · intro x y hxy hne
        cases x with
        | nil =>
          obtain rfl : c :: u = y := hxy
          exact Bool.eq_false_iff.mpr hopens
        | cons d x =>
          obtain ⟨rfl, rfl⟩ := List.cons.inj hxy
          exact hfirst x y rfl hne

theorem exists_brace_of_firstBlock? (h : firstBlock? w = some n) : ∃ v, w.drop n = '{' :: v := by
  obtain ⟨u, g, v, rfl, rfl, -, -⟩ := exists_of_firstBlock? h
  have hsplit : u ++ ')' :: (g ++ '{' :: v) = (u ++ ')' :: g) ++ '{' :: v := by simp
  have hlength : u.length + g.length + 1 = (u ++ ')' :: g).length := by
    simp only [List.length_append, List.length_cons]
    omega
  exact ⟨v, by rw [hsplit, hlength, List.drop_left]⟩

variable {x y : Place} {k : Place → Option Place} {least : Nat} {p : Pattern}

theorem blockMark_reads : (blockMark greedy).Reads w ↔
    ∃ g, w = ')' :: (g ++ ['{']) ∧ ∀ b ∈ g, Text.isBlank b = true := by
  constructor
  · rintro ⟨_, _, rfl, ⟨_, g, rfl, rfl, hg, -⟩, rfl⟩
    exact ⟨g, rfl, hg⟩
  · rintro ⟨g, rfl, hg⟩
    exact ⟨')' :: g, ['{'], rfl, ⟨[')'], g, rfl, rfl, hg, Nat.zero_le _⟩, rfl⟩

theorem walk_blockMark (hg : ∀ b ∈ g, Text.isBlank b = true)
    (hx : x.rest = ')' :: (g ++ '{' :: v)) :
    (blockMark greedy).walk s x some = some ⟨x.pos + 1 + g.length + 1, v, x.groups⟩ := by
  have hx : x.rest = [')'] ++ (g ++ '{' :: v) := hx
  rw [blockMark, walk_cat, walk_cat, walk_lit hx, Shape.openBrace]
  cases greedy with
  | true =>
    apply walk_whole_run rfl hg (Nat.zero_le _)
    · simp [CharClass.has, show Text.isBlank '{' = false by decide]
    · exact walk_lit (v := v) rfl
  | false =>
    apply walk_until (d := '{') rfl hg _ (Nat.zero_le _) rfl
    intro hmem
    exact absurd (hg _ hmem) (by decide)

theorem walk_blockMark_none (h : opensBlock x.rest = false) :
    (blockMark greedy).walk s x k = none := by
  apply walk_eq_none (by cases greedy <;> rfl)
  intro w v hw hr
  obtain ⟨g, rfl, hg⟩ := blockMark_reads.mp hr
  have hopens : opensBlock x.rest = true := opensBlock_iff.mpr ⟨g, v, by simp [hw], hg⟩
  rw [h] at hopens
  cases hopens

theorem walk_to_block (hx : x.rest = u ++ w) (hw : firstBlock? w = some n) :
    (run .any u.length none false ++ blockMark greedy).walk s x some =
      some ⟨x.pos + u.length + n + 1, w.drop (n + 1), x.groups⟩ := by
  obtain ⟨r, g, v, rfl, rfl, hg, hfirst⟩ := exists_of_firstBlock? hw
  have hsplit : r ++ ')' :: (g ++ '{' :: v) = (r ++ ')' :: (g ++ ['{'])) ++ v := by simp
  have hlength : r.length + g.length + 1 + 1 = (r ++ ')' :: (g ++ ['{'])).length := by
    simp only [List.length_append, List.length_cons, List.length_nil]
    omega
  have hdrop : (r ++ ')' :: (g ++ '{' :: v)).drop (r.length + g.length + 1 + 1) = v := by
    rw [hsplit, hlength, List.drop_left]
  rw [hdrop, walk_cat]
  apply walk_lazy (w := u ++ r) (by rw [hx, List.append_assoc]) (fun _ _ => rfl)
  · rw [List.length_append]
    exact Nat.le_add_right _ _
  · rw [walk_blockMark hg rfl]
    simp only [List.length_append, Option.some.injEq, Place.mk.injEq, and_true]
    omega
  · intro q t ht hne hle
    apply walk_blockMark_none
    obtain ⟨q, rfl⟩ : ∃ q', q = u ++ q' := by
      rcases List.append_eq_append_iff.mp ht with ⟨z, rfl, -⟩ | ⟨z, rfl, -⟩
      · exact ⟨z, rfl⟩
      · rw [List.length_append] at hle
        obtain rfl : z = [] := List.length_eq_zero_iff.mp (by omega)
        exact ⟨[], by simp⟩
    rw [List.append_assoc, List.append_cancel_left_eq] at ht
    exact hfirst q t ht hne

theorem firstBlock?_ne_none (hg : ∀ b ∈ g, Text.isBlank b = true) :
    firstBlock? (u ++ ')' :: (g ++ '{' :: v)) ≠ none := by
  induction u with
  | nil => simp [firstBlock?_of_opensBlock hg]
  | cons c u ih =>
    rw [List.cons_append, firstBlock?]
    split
    · simp
    · simpa using ih

theorem matchAt_of_no_block (hp : p.isPlain = true) (ha : a ≤ s.length)
    (h : firstBlock? (s.drop a) = none) : (p ++ blockMark greedy).matchAt s a = none := by
  apply matchAt_eq_none _ ha
  · rintro _ v hs ⟨u, _, rfl, -, hmark⟩
    obtain ⟨g, rfl, hg⟩ := blockMark_reads.mp hmark
    apply firstBlock?_ne_none (u := u) (v := v) hg
    rw [← h, hs]
    simp
  · change (p.isPlain && (blockMark greedy).isPlain) = true
    cases greedy <;> simp [hp] <;> rfl

def braceHead (keyword : Text) : Pattern :=
  lit keyword ++ Shape.blanks ++ lit ['('] ++ few1 .any ++ lit [')'] ++ Shape.blanks ++
    Shape.openBrace

variable {margin keyword gap : Text}

theorem matchAt_braceHead {d : Char} (hm : ∀ b ∈ margin, indent.has b = true)
    (hkey : ∃ c r, keyword = c :: r ∧ Text.isWord c = true)
    (hgap : ∀ b ∈ gap, Text.isBlank b = true)
    (hs : s.drop a = margin ++ (keyword ++ (gap ++ '(' :: d :: w))) (hw : firstBlock? w = some n) :
    (Shape.indented (braceHead keyword)).matchAt s a =
      some ⟨a, a + (margin ++ (keyword ++ gap)).length + n + 3, []⟩ := by
  have ha : a ≤ s.length := by
    rw [← List.append_assoc, ← List.append_assoc] at hs
    exact Text.place_le_of_drop hs
  have hblock : (run .any 1 none false ++ blockMark true).walk s
      ⟨a + margin.length + (keyword ++ gap).length + 1, d :: w, []⟩ some = some _ :=
    walk_to_block (u := [d]) rfl hw
  have hplace : a + margin.length + (keyword ++ gap).length + 1 + [d].length + n + 1 =
      a + (margin ++ (keyword ++ gap)).length + n + 3 := by
    simp only [List.length_append, List.length_singleton]
    omega
  rw [hplace] at hblock
  apply matchAt_of_walk (y := ⟨_, _, _⟩) ha
  change (Shape.indented (lit keyword ++ Shape.blanks ++ lit ['('])).walk s (placeAt s a)
    (fun z => (few1 .any ++ blockMark true).walk s z some) = _
  apply walk_indented hm hs
  · obtain ⟨c, r, rfl, hc⟩ := hkey
    simpa using hc
  · exact walk_keyword hgap (by decide) rfl hblock

theorem matchAt_ifHead (hm : ∀ b ∈ margin, indent.has b = true)
    (hgap : ∀ b ∈ gap, Text.isBlank b = true)
    (hs : s.drop a = margin ++ ("if".toList ++ (gap ++ '(' :: v))) :
    (Shape.indented Shape.ifHead).matchAt s a =
      some ⟨a, a + (margin ++ ("if".toList ++ gap)).length + 1, []⟩ := by
  have ha : a ≤ s.length := by
    rw [← List.append_assoc, ← List.append_assoc] at hs
    exact Text.place_le_of_drop hs
  apply matchAt_of_walk (y := ⟨_, v, []⟩) ha
  apply walk_indented hm hs
  · intro b hb
    obtain rfl : 'i' = b := Option.some.inj hb
    decide
  · apply walk_keyword hgap (by decide) rfl
    simp only [placeAt, List.length_append, Nat.add_assoc]

theorem exists_parts (hc : 2 ≤ u.count ';') :
    ∃ x y z, u = x ++ ';' :: (y ++ ';' :: z) ∧ ';' ∉ x ∧ ';' ∉ y := by
  have hmem : ';' ∈ u := List.count_pos_iff.mp (by omega)
  obtain ⟨x, r, rfl, hx⟩ := List.eq_append_cons_of_mem hmem
  have hr : 1 ≤ r.count ';' := by
    rw [List.count_append, List.count_eq_zero.mpr hx, List.count_cons_self] at hc
    omega
  obtain ⟨y, z, rfl, hy⟩ := List.eq_append_cons_of_mem (List.count_pos_iff.mp hr)
  exact ⟨x, y, z, rfl, hx, hy⟩

theorem matchAt_forHead {u' : Text} (hm : ∀ b ∈ margin, indent.has b = true)
    (hgap : ∀ b ∈ gap, Text.isBlank b = true) (hu : ';' ∉ u) (hu' : ';' ∉ u')
    (hs : s.drop a = margin ++ ("for".toList ++ (gap ++ '(' :: (u ++ ';' :: (u' ++ ';' :: w)))))
    (hw : firstBlock? w = some n) :
    (Shape.indented Shape.forHead).matchAt s a =
      some ⟨a, a + (margin ++ ("for".toList ++ gap)).length + u.length + u'.length + n + 4, []⟩ := by
  have ha : a ≤ s.length := by
    rw [← List.append_assoc, ← List.append_assoc] at hs
    exact Text.place_le_of_drop hs
  have hblock : (run .any 0 none false ++ blockMark false).walk s
      ⟨a + margin.length + ("for".toList ++ gap).length + 1 + u.length + 1 + u'.length + 1, w, []⟩
      some = some _ := walk_to_block (u := []) rfl hw
  have hplace : a + margin.length + ("for".toList ++ gap).length + 1 + u.length + 1 + u'.length + 1 +
      ([] : Text).length + n + 1 =
        a + (margin ++ ("for".toList ++ gap)).length + u.length + u'.length + n + 4 := by
    simp only [List.length_append, List.length_nil]
    omega
  rw [hplace] at hblock
  apply matchAt_of_walk (y := ⟨_, _, _⟩) ha
  change (Shape.indented (lit "for".toList ++ Shape.blanks ++ lit ['('])).walk s (placeAt s a)
    (fun z => (few .any).walk s z fun z => (lit [';']).walk s z fun z => (few .any).walk s z
      fun z => (lit [';']).walk s z fun z => (few .any ++ blockMark false).walk s z some) = _
  apply walk_indented hm hs
  · intro b hb
    obtain rfl : 'f' = b := Option.some.inj hb
    decide
  · apply walk_keyword hgap (by decide) rfl
    apply walk_until rfl (fun _ _ => rfl) hu (Nat.zero_le _)
    exact walk_until rfl (fun _ _ => rfl) hu' (Nat.zero_le _) hblock

theorem matchAt_keyword {mark : Char} (hgap : ∀ b ∈ gap, Text.isBlank b = true)
    (hmark : Text.isBlank mark = false) (hs : s.drop a = keyword ++ gap ++ mark :: v) :
    (lit keyword ++ Shape.blanks ++ lit [mark]).matchAt s a =
      some ⟨a, a + (keyword ++ gap).length + 1, []⟩ := by
  have ha : a ≤ s.length := Text.place_le_of_drop hs
  apply matchAt_of_walk (y := ⟨_, _, _⟩) ha
  exact walk_keyword hgap hmark (hs.trans (List.append_assoc ..)) rfl

theorem braced_of_matchAt (x : Block) (hs : s.drop a = u ++ (x.text ++ v))
    (hm : p.matchAt s a = some ⟨a, a + u.length + 1, []⟩) :
    braced p s a = .ok (some (spanOf a (u ++ x.text))) := by
  have hbrace : ((a + u.length + 1 : Nat) : Int) - 1 = (a + u.length : Nat) := by omega
  rw [braced, hm]
  simp only [hbrace, x.partner_eq (Text.drop_of_drop_append hs), spanOf_append]
  rfl

theorem elseRound_done {stop : Int} {t : Token} (h : Token.next s (stop + 1) = .ok t)
    (ht : t.is "else" = false) : elseRound s stop = .ok (.done stop) := by
  rw [elseRound, h]
  simp only [bind, Except.bind, ht]
  rfl

end Statement

end CodeAudit
