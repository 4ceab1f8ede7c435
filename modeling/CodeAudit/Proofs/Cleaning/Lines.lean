import CodeAudit.Cleaning
import CodeAudit.Proofs.Pattern.Found
import CodeAudit.Proofs.Rounds
import CodeAudit.Proofs.Text.Trimmed

namespace CodeAudit.Cleaning

open Pattern Text

theorem splice_trimmed {s w part : Text} {start stop : Nat}
    (hs : s.drop start = w ++ s.drop stop) (hpart : Trimmed part w) :
    Trimmed (splice s start stop part) s := by
  have he : s = s.take start ++ w ++ s.drop stop := by
    rw [List.append_assoc, ← hs, List.take_append_drop]
  rw [splice]
  nth_rewrite 3 [he]
  exact ((Trimmed.refl _).append hpart).append (Trimmed.refl _)

theorem splice_length {s w part : Text} {start stop : Nat} (hs : s.drop start = w ++ s.drop stop)
    (hpart : part.length < w.length) : (splice s start stop part).length < s.length := by
  have hlen := congrArg List.length hs
  simp only [splice, List.length_append, List.length_drop, List.length_take] at hlen ⊢
  omega

theorem lineComment_text {s : Text} {x y : Place} (h : y ∈ Shape.lineComment.ends s x) :
    ∃ w, x.rest = w ++ y.rest ∧ y.pos = x.pos + w.length ∧ 0 < w.length ∧ ∀ c ∈ w, c ≠ '\n' := by
  obtain ⟨z, hz, hy⟩ := mem_ends_cat.mp h
  obtain ⟨r, hr, rfl⟩ := mem_ends_lit.mp hz
  obtain ⟨w, rest, hw, hc, -, rfl⟩ := mem_ends_run.mp hy
  refine ⟨"//".toList ++ w, by simpa [hr] using hw, by simp; omega, by simp, ?_⟩
  intro c hmem
  rcases List.mem_append.mp hmem with h | h
  · rintro rfl
    simp at h
  · simpa [CharClass.inLine, CharClass.has] using hc c h

theorem blockComment_text {s : Text} {x y : Place} (h : y ∈ Shape.blockComment.ends s x) :
    ∃ w, x.rest = w ++ y.rest ∧ y.pos = x.pos + w.length ∧ w.count '\n' < w.length := by
  obtain ⟨z, hz, hy⟩ := mem_ends_cat.mp h
  obtain ⟨u, hu, hz⟩ := mem_ends_cat.mp hz
  obtain ⟨r, hr, rfl⟩ := mem_ends_lit.mp hu
  obtain ⟨w, hw, hp⟩ := (ends_onward hz).trans (ends_onward hy)
  refine ⟨"/*".toList ++ w, by simpa [hr] using hw, by simp at hp ⊢; omega, ?_⟩
  have hcount : List.count '\n' "/*".toList = 0 := rfl
  rw [List.count_append, List.length_append, hcount]
  have hle : w.count '\n' ≤ w.length := List.count_le_length
  simp
  omega

def spelled : Text → Pattern
  | [] => .lit []
  | [c] => .one (.range c.toNat c.toNat)
  | c :: d :: cs => .cat (.one (.range c.toNat c.toNat)) (spelled (d :: cs))

theorem has_range (c d : Char) : (CharClass.range c.toNat c.toNat).has d = true ↔ d = c := by
  simp only [CharClass.has, Bool.and_eq_true, decide_eq_true_eq]
  constructor
  · rintro ⟨hle, hge⟩
    exact Char.toNat_inj.mp (Nat.le_antisymm hge hle)
  · rintro rfl
    exact ⟨Nat.le_refl _, Nat.le_refl _⟩

theorem mem_ends_spelled {s cs : Text} {x y : Place} (h : y ∈ (spelled cs).ends s x) :
    ∃ r, x.rest = cs ++ r ∧ y = { x with pos := x.pos + cs.length, rest := r } := by
  fun_induction spelled cs generalizing x with
  | case1 => exact mem_ends_lit.mp h
  | case2 c =>
    obtain ⟨d, r, hr, hd, rfl⟩ := mem_ends_one.mp h
    rw [has_range] at hd
    exact ⟨r, by rw [hr, hd]; rfl, rfl⟩
  | case3 c d cs ih =>
    obtain ⟨z, hz, hy⟩ := mem_ends_cat.mp h
    obtain ⟨e, r, hr, he, rfl⟩ := mem_ends_one.mp hz
    obtain ⟨t, ht, rfl⟩ := ih hy
    rw [has_range] at he
    refine ⟨t, ?_, ?_⟩
    · rw [hr, he, List.cons_append, ← ht]
    · simp only [List.length_cons, Place.mk.injEq, and_true]
      omega

def unsignedKey : Pattern :=
  Shape.blanks ++ (group "1" (spelled "unsigned".toList) ++ Shape.blanks1)

theorem removeKeywords_eq (s : Text) : removeKeywords s = removeKeyBy unsignedKey "1" s := by
  have hread : Pattern.read ("\\s*(".toList ++ "unsigned".toList ++ ")\\s+".toList) =
      .ok unsignedKey := Scan.eq_ok_of_toOption (by decide +kernel)
  rw [removeKeywords, removeKey, hread]

theorem unsignedKey_text {s : Text} {x y : Place} (h : y ∈ unsignedKey.ends s x) :
    ∃ a b r, y.groups = ("1", a, b) :: x.groups ∧ x.pos ≤ a ∧ b = a + 8 ∧
      x.rest.drop (a - x.pos) = "unsigned".toList ++ r ∧ r = x.rest.drop (b - x.pos) ∧
      ∃ c ∈ r.head?, isBlank c = true := by
  obtain ⟨u, hu, hy⟩ := mem_ends_cat.mp h
  obtain ⟨z, hz, hy⟩ := mem_ends_cat.mp hy
  obtain ⟨v, r, hv, -, -, rfl⟩ := mem_ends_run.mp hu
  obtain ⟨t, ht, rfl⟩ := mem_ends_group.mp hz
  obtain ⟨r', hr', rfl⟩ := mem_ends_spelled ht
  obtain ⟨w, rest, hw, hblank, hlen, rfl⟩ := mem_ends_run.mp hy
  refine ⟨x.pos + v.length, x.pos + v.length + 8, r', rfl, by omega, rfl, ?_, ?_, ?_⟩
  · simpa [hv] using hr'
  · simp only at hr'
    rw [hv, hr', show x.pos + v.length + 8 - x.pos = v.length + 8 by omega, ← List.drop_drop]
    simp
  · obtain ⟨c, w, rfl⟩ := List.exists_cons_of_length_pos hlen
    exact ⟨c, congrArg List.head? hw, hblank c List.mem_cons_self⟩

theorem lineCommentRound_again {s t : Text} (h : lineCommentRound s = .again t) :
    Trimmed t s ∧ t.length < s.length := by
  unfold lineCommentRound at h
  split at h
  · simp at h
  · rename_i m hm
    obtain ⟨-, -, hmem⟩ := search_eq_some hm
    obtain ⟨w, hw, -, hpos, hc⟩ := lineComment_text hmem
    obtain rfl := Round.again.inj h
    exact ⟨splice_trimmed hw (.nil_of_unbroken hc), splice_length hw (by simpa using hpos)⟩

theorem blockCommentRound_again {s t : Text} (h : blockCommentRound s = .again t) :
    Trimmed t s ∧ t.length < s.length := by
  unfold blockCommentRound at h
  split at h
  · simp at h
  · rename_i m hm
    obtain ⟨-, -, hmem⟩ := search_eq_some hm
    obtain ⟨w, hw, hp, hcount⟩ := blockComment_text hmem
    have htext : m.text s = w := drop_take_eq_of_drop_eq hw hp
    rw [htext] at h
    obtain rfl := Round.again.inj h
    exact ⟨splice_trimmed hw (.replicate_count w), splice_length hw (by simpa using hcount)⟩

theorem keyRound_of_found {s : Text} {m : Match}
    (hm : unsignedKey.search s 0 = some m) :
    ∃ a, s.drop a = "unsigned".toList ++ s.drop (a + 8) ∧
      (∃ c ∈ (s.drop (a + 8)).head?, isBlank c = true) ∧
      keyRound unsignedKey "1" s = .ok (.again (splice s a (a + 8) [])) := by
  obtain ⟨-, -, hmem⟩ := search_eq_some hm
  obtain ⟨a, b, r, hg, ha, rfl, hkey, hr, hblank⟩ := unsignedKey_text hmem
  have hgroup : m.group? "1" = some (a, a + 8) := by
    simp only at hg
    simp [Match.group?, hg]
  simp only [placeAt, List.drop_drop] at ha hkey hr
  rw [show m.start + (a - m.start) = a by omega] at hkey
  rw [show m.start + (a + 8 - m.start) = a + 8 by omega] at hr
  subst hr
  refine ⟨a, hkey, hblank, ?_⟩
  simp only [keyRound, hm, hgroup]

theorem keyRound_unsigned (s : Text) :
    keyRound unsignedKey "1" s = .ok (.done s) ∨
      ∃ t, keyRound unsignedKey "1" s = .ok (.again t) ∧
        Trimmed t s ∧ t.length < s.length := by
  cases hm : unsignedKey.search s 0 with
  | none => exact .inl (by simp only [keyRound, hm])
  | some m =>
    obtain ⟨a, hkey, -, hagain⟩ := keyRound_of_found hm
    refine .inr ⟨splice s a (a + 8) [], hagain, ?_, ?_⟩
    · exact splice_trimmed hkey (.nil_of_unbroken (by simp))
    · exact splice_length hkey (by simp)

theorem rounds_trimmed {round : Text → Scan (Round Text Text)}
    (hround : ∀ s, round s = .ok (.done s) ∨
      ∃ t, round s = .ok (.again t) ∧ Trimmed t s ∧ t.length < s.length)
    (states : Nat) (s : Text) (hs : s.length < states) :
    ∃ r, rounds round states s = .ok r ∧ Trimmed r s := by
  apply rounds_of_smaller List.length _ states s hs
  intro s
  rcases hround s with hd | ⟨t, ht, htrim, hlt⟩
  · exact .inl ⟨s, hd, .refl s⟩
  · exact .inr ⟨t, ht, hlt, fun r hr => hr.trans htrim⟩

theorem removeLineComments_trimmed (s : Text) : ∃ r, removeLineComments s = .ok r ∧ Trimmed r s := by
  apply rounds_trimmed _ _ s (Nat.lt_succ_self _)
  intro s
  cases h : lineCommentRound s with
  | again t => exact .inr ⟨t, rfl, lineCommentRound_again h⟩
  | done t =>
    unfold lineCommentRound at h
    split at h <;> simp at h
    exact .inl (by rw [h])

theorem removeBlockComments_trimmed (s : Text) :
    ∃ r, removeBlockComments s = .ok r ∧ Trimmed r s := by
  apply rounds_trimmed _ _ s (Nat.lt_succ_self _)
  intro s
  cases h : blockCommentRound s with
  | again t => exact .inr ⟨t, rfl, blockCommentRound_again h⟩
  | done t =>
    unfold blockCommentRound at h
    split at h <;> simp at h
    exact .inl (by rw [h])

theorem removeKeywords_trimmed (s : Text) : ∃ r, removeKeywords s = .ok r ∧ Trimmed r s := by
  rw [removeKeywords_eq]
  exact rounds_trimmed keyRound_unsigned _ s (by omega)

theorem clean_trimmed (s : Text) : ∃ r, clean s = .ok r ∧ Trimmed r s := by
  obtain ⟨u, hu, htu⟩ := removeLineComments_trimmed s
  obtain ⟨v, hv, htv⟩ := removeBlockComments_trimmed u
  obtain ⟨r, hr, htr⟩ := removeKeywords_trimmed v
  refine ⟨r, ?_, (htr.trans htv).trans htu⟩
  simp only [clean, removeComments, hu, bind, Except.bind, hv, hr]

theorem clean_keeps_lines (s : Text) :
    ∃ r, clean s = .ok r ∧
      (r.splitOn '\n').length = (s.splitOn '\n').length ∧
      (∀ (k : Nat) (l m : Text), (r.splitOn '\n')[k]? = some l →
        (s.splitOn '\n')[k]? = some m → l.Sublist m) ∧
      ∃ origin : Nat → Nat, StrictMono origin ∧
        ∀ i < r.length, s[origin i]? = r[i]? ∧ s.lineOf (origin i) = r.lineOf i := by
  obtain ⟨r, hr, htrim⟩ := clean_trimmed s
  have hlines := htrim.lines
  refine ⟨r, hr, hlines.length_eq, ?_, htrim.exists_origin⟩
  intro k l m hl hm
  obtain ⟨hkl, rfl⟩ := List.getElem?_eq_some_iff.mp hl
  obtain ⟨hkm, rfl⟩ := List.getElem?_eq_some_iff.mp hm
  exact hlines.get hkl hkm

end CodeAudit.Cleaning
