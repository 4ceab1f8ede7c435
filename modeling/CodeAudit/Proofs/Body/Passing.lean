import CodeAudit.Proofs.Body.Shapes
import CodeAudit.Proofs.Pattern.Walk

namespace CodeAudit.Body

open Pattern Shape

variable {s t n v w : Text} {a : Nat} {c : Context} {d : Char}

theorem matchAt_deleteStatement (hw : ';' ∉ w)
    (hs : s.drop a = "delete".toList ++ d :: (w ++ ';' :: v)) :
    deleteStatement.matchAt s a = some ⟨a, a + ("delete".toList ++ d :: w).length + 1, []⟩ := by
  have ha : a ≤ s.length := Text.place_le_of_drop hs
  have hrest : (placeAt s a).rest = "delete".toList ++ (d :: w ++ ';' :: v) := hs
  apply matchAt_of_walk (y := ⟨_, v, []⟩) ha
  rw [deleteStatement, walk_cat, walk_cat, walk_lit hrest, few1]
  apply walk_lazy (w := d :: w) rfl (fun _ _ => rfl) (by simp)
  · rw [walk_lit (v := v) rfl]
    simp only [placeAt, List.length_append, Nat.add_assoc]
    rfl
  · intro u r hu hne hle
    obtain ⟨e, u, rfl⟩ := List.exists_cons_of_length_pos hle
    obtain ⟨b, r, rfl⟩ := List.exists_cons_of_ne_nil hne
    apply walk_lit_none
    rintro ⟨q, hq⟩
    obtain rfl : ';' = b := (List.cons.inj hq).1
    exact hw (by simp [(List.cons.inj hu).2])

theorem matchAt_deleteStatement_last (hv : ';' ∉ v)
    (hs : s.drop a = "delete".toList ++ ';' :: v) : deleteStatement.matchAt s a = none := by
  have ha : a ≤ s.length := Text.place_le_of_drop hs
  apply matchAt_eq_none (by decide) ha
  rintro _ r hw ⟨_, _, rfl, ⟨_, x, rfl, rfl, -, hlen⟩, rfl⟩
  obtain ⟨e, x, rfl⟩ := List.exists_cons_of_length_pos hlen
  rw [hs, List.append_assoc, List.append_assoc, List.append_cancel_left_eq] at hw
  apply hv
  rw [(List.cons.inj hw).2]
  simp

theorem walk_name {k : CharClass} {x : Place} (hn : n.isIdentifier = true)
    (hk : ∀ b, Text.isWord b = true → k.has b = true) (hx : x.rest = n ++ ';' :: v) :
    (few1 k).walk s x (fun y => (lit [';']).walk s y some) =
      some ⟨x.pos + n.length + 1, v, x.groups⟩ := by
  apply walk_until hx _ _ (word_reads hn).2 rfl
  · intro b hb
    exact hk b (Text.isWord_of_isIdentifier hn hb)
  · intro hmem
    exact absurd (Text.isWord_of_isIdentifier hn hmem) (by decide)

theorem matchAt_emitStatement (hn : n.isIdentifier = true)
    (hs : s.drop a = "emit".toList ++ ' ' :: n ++ ';' :: v) :
    emitStatement.matchAt s a = some ⟨a, a + ("emit".toList ++ ' ' :: n).length + 1, []⟩ := by
  have ha : a ≤ s.length := Text.place_le_of_drop hs
  have hrest : (placeAt s a).rest = "emit".toList ++ ([' '] ++ (n ++ ';' :: v)) := by
    simp [placeAt, hs]
  have hline : ∀ b, Text.isWord b = true → CharClass.inLine.has b = true := by
    intro b hb
    have hne : b ≠ '\n' := by
      rintro rfl
      exact absurd hb (by decide)
    simp [CharClass.inLine, CharClass.has, hne]
  apply matchAt_of_walk (y := ⟨_, v, []⟩) ha
  rw [emitStatement, walk_cat, walk_cat, walk_cat, walk_lit hrest, blanks1, many1]
  apply walk_whole_run rfl (List.all_eq_true.mp (by decide)) (by decide)
  · obtain ⟨b, r, hb⟩ := List.exists_cons_of_ne_nil (Text.isIdentifier_ne_nil hn)
    have hink := Text.not_isBlank_of_isIdentifier hn (c := b) (by simp [hb])
    simpa [hb, CharClass.has] using hink
  · refine (walk_name hn hline rfl).trans ?_
    simp only [placeAt, List.length_append, List.length_cons, List.length_nil, Option.some.injEq,
      Place.mk.injEq, and_true]
    omega

theorem matchAt_returnStatement (hn : n.isIdentifier = true)
    (hs : s.drop a = "return".toList ++ ' ' :: n ++ ';' :: v) :
    returnStatement.matchAt s a = some ⟨a, a + ("return".toList ++ ' ' :: n).length + 1, []⟩ := by
  have ha : a ≤ s.length := Text.place_le_of_drop hs
  have hrest : (placeAt s a).rest = "return ".toList ++ (n ++ ';' :: v) := by
    simp [placeAt, hs]
  apply matchAt_of_walk (y := ⟨_, v, []⟩) ha
  rw [returnStatement, walk_cat, walk_cat, walk_lit hrest]
  refine (walk_name hn (fun _ _ => rfl) rfl).trans ?_
  have hkey : "return ".toList.length = "return".toList.length + 1 := rfl
  simp only [placeAt, List.length_append, List.length_cons, Option.some.injEq, Place.mk.injEq,
    and_true]
  omega

theorem whole_found {p : Pattern} {b : Nat} (h : p.matchAt s a = some ⟨a, b + 1, []⟩) :
    Form.ofSpan (Statement.whole p) s a c = (.ok (some ⟨⟨a, b⟩, []⟩), c) := by
  have hstop : ((b + 1 : Nat) : Int) - 1 = b := by omega
  simp only [Form.ofSpan, Statement.whole, h, Option.map_some, hstop]
  rfl

theorem first_forms_of_delete (hw : ';' ∉ w)
    (hs : s.drop a = "delete".toList ++ d :: (w ++ ';' :: v)) :
    Form.first forms s a c =
      (.ok (some ⟨⟨a, (a + ("delete".toList ++ d :: w).length : Nat)⟩, []⟩), c) := by
  have ha : a ≤ s.length := Text.place_le_of_drop hs
  have hmatch := matchAt_deleteStatement hw hs
  apply first_forms_of_shape (k := 1) ha rfl _ (whole_found hmatch) (by simp)
  intro p hp
  obtain rfl : p = indented ifHead := List.mem_singleton.mp hp
  exact matchAt_of_misses (u := []) (k := .among []) (d := 'd') (by decide) (by simp) hs

def looksLed (t : Text) : Prop :=
  "delete".toList <+: t ∨ t = "emit".toList ∨ t = "return".toList

instance (t : Text) : Decidable (looksLed t) := inferInstanceAs (Decidable (_ ∨ _ ∨ _))

theorem first_forms_of_looksLed (hled : looksLed t) (ht : word.Reads t) (hn : n.isIdentifier = true)
    (hangle : ∀ b ∈ s.drop a, b ∉ ['<', '>']) (hs : s.drop a = t ++ ' ' :: n ++ ';' :: v) :
    Form.first forms s a c =
      (.ok (some ⟨⟨a, (a + (t ++ ' ' :: n).length : Nat)⟩, []⟩), c) := by
  have ha : a ≤ s.length := Text.place_le_of_drop hs
  have hblank : s.drop a = t ++ ' ' :: (n ++ ';' :: v) := by rw [hs, List.append_assoc]; rfl
  have hother : ∀ p ∈ formShapes.flatMap Prod.snd, p ∉ wordLed → p.matchAt s a = none :=
    fun p hp hled => matchAt_of_declared ht hn hangle hs hp hled
  rcases hled with ⟨r, rfl⟩ | rfl | rfl
  · have hno : ';' ∉ r ++ ' ' :: n := by
      intro h
      have hmem : ';' ∈ "delete".toList ++ r ++ ' ' :: n := by
        rw [List.append_assoc]
        exact List.mem_append_right _ h
      exact absurd (soft_has_declared ht hn ';' hmem) (by decide)
    obtain ⟨d, w, hd⟩ := List.exists_cons_of_ne_nil (show r ++ ' ' :: n ≠ [] by simp)
    rw [hd] at hno
    have hs : s.drop a = "delete".toList ++ d :: (w ++ ';' :: v) := by
      rw [← List.cons_append, ← hd, hs]
      simp
    have hfound := first_forms_of_delete (c := c) (fun h => hno (List.mem_cons_of_mem d h)) hs
    rwa [← hd, ← List.append_assoc] at hfound
  · have hcases : ∀ p ∈ (formShapes.take 7).flatMap Prod.snd,
        p = deleteStatement ∨ p ∈ formShapes.flatMap Prod.snd ∧ p ∉ wordLed := by decide
    have hmatch := matchAt_emitStatement hn hs
    apply first_forms_of_shape (k := 7) ha rfl _ (whole_found hmatch) (by simp)
    intro p hp
    rcases hcases p hp with rfl | ⟨hp, hled⟩
    · exact matchAt_of_not_prefix (by decide) rfl (by decide) (by decide) hblank
    · exact hother p hp hled
  · have hcases : ∀ p ∈ (formShapes.take 11).flatMap Prod.snd,
        p = deleteStatement ∨ p = emitStatement ∨
          p ∈ formShapes.flatMap Prod.snd ∧ p ∉ wordLed := by decide
    apply first_forms_of_shape (k := 11) ha rfl _ (whole_found (matchAt_returnStatement hn hs))
      (by simp)
    intro p hp
    rcases hcases p hp with rfl | rfl | ⟨hp, hled⟩
    · exact matchAt_of_not_prefix (by decide) rfl (by decide) (by decide) hblank
    · exact matchAt_keyword_of_ne (by decide) (.cat (.cat .refl)) (by decide) ht (by decide) hblank
    · exact hother p hp hled

theorem first_forms_of_name (hn : n.isIdentifier = true) (hdelete : deleteStatement.matchAt s a = none)
    (hangle : ∀ b ∈ s.drop a, b ∉ ['<', '>']) (hcast : plainCast.Absent s a)
    (hs : s.drop a = n ++ ';' :: v) : Form.first forms s a c = (.ok none, c) := by
  have ha : a ≤ s.length := Text.place_le_of_drop hs
  have hcases : ∀ p ∈ variableDeclaration :: formShapes.flatMap Prod.snd,
      p = variableDeclaration ∨ p = deleteStatement ∨ p = emitStatement ∨ p = stream ∨
        p.misses .word ';' = true := by decide
  apply first_forms_of_absent ha _ hcast
  intro p hp
  rcases hcases p hp with rfl | rfl | rfl | rfl | h
  · exact matchAt_variableDeclaration_word (word_reads hn) hs
  · exact hdelete
  · exact matchAt_keyword_of_mark (by decide) (.cat (.cat .refl)) (by decide) (by decide) (by decide)
      (word_reads hn) hs
  · exact stream_absent ha hangle
  · exact matchAt_of_misses h (word_has_of_isIdentifier hn) hs

end CodeAudit.Body
