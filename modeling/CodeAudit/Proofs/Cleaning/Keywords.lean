import CodeAudit.Proofs.Cleaning.Passes

namespace CodeAudit.Cleaning

open Pattern Text

variable {b : Char} {s u v w : Text}

def keyText : Text := "unsigned".toList

def trimKeys (w : Text) : Text :=
  if keyText <:+ w then trimKeys (w.take (w.length - keyText.length)) else w
termination_by w.length
decreasing_by
  rename_i h
  have hlen := h.length_le
  have hkey : 0 < keyText.length := by decide
  rw [List.length_take]
  omega

/-- Every run of ink that a blank ends is without the keywords at its end; `ink` is what has been
read of the run under way. The run that the end of the text ends is kept. -/
def dropKeywords : (ink : Text) → Text → Text
  | ink, [] => ink
  | ink, c :: s =>
    if isBlank c then trimKeys ink ++ c :: dropKeywords [] s else dropKeywords (ink ++ [c]) s

def Keyless (s : Text) : Prop :=
  ∀ u b v, s = u ++ keyText ++ b :: v → isBlank b = false

theorem trimKeys_append (w : Text) : trimKeys (w ++ keyText) = trimKeys w := by
  rw [trimKeys, if_pos (List.suffix_append w keyText), List.length_append, Nat.add_sub_cancel,
    List.take_left]

theorem trimKeys_of_not_suffix (h : ¬keyText <:+ w) : trimKeys w = w := by
  rw [trimKeys, if_neg h]

theorem dropKeywords_blank (ink : Text) (hb : isBlank b = true) :
    dropKeywords ink (b :: s) = trimKeys ink ++ b :: dropKeywords [] s := by
  rw [dropKeywords, if_pos hb]

theorem dropKeywords_ink (ink : Text) (hw : ∀ c ∈ w, isBlank c = false) :
    dropKeywords ink (w ++ s) = dropKeywords (ink ++ w) s := by
  induction w generalizing ink with
  | nil => rw [List.nil_append, List.append_nil]
  | cons c w ih =>
    have hc : ¬isBlank c = true := by simp [hw c List.mem_cons_self]
    rw [List.cons_append, dropKeywords, if_neg hc, ih _ fun d hd => hw d (List.mem_cons_of_mem _ hd),
      List.append_assoc, List.singleton_append]

theorem keyText_ink : ∀ c ∈ keyText, isBlank c = false := by
  intro c hc
  have hall : keyText.all (!isBlank ·) = true := by decide
  simpa using List.all_eq_true.mp hall c hc

theorem dropKeywords_splice (ink u v : Text) (hb : isBlank b = true) :
    dropKeywords ink (u ++ keyText ++ b :: v) = dropKeywords ink (u ++ b :: v) := by
  induction u generalizing ink with
  | nil =>
    rw [List.nil_append, List.nil_append, dropKeywords_ink ink keyText_ink, dropKeywords_blank _ hb,
      dropKeywords_blank _ hb, trimKeys_append]
  | cons c u ih =>
    rw [List.cons_append, List.cons_append, List.cons_append, dropKeywords, dropKeywords, ih, ih]

theorem dropKeywords_of_keyless (ink s : Text) (h : Keyless (ink ++ s)) :
    dropKeywords ink s = ink ++ s := by
  induction s generalizing ink with
  | nil => rw [dropKeywords, List.append_nil]
  | cons c s ih =>
    rw [dropKeywords]
    split
    · rename_i hc
      have hrun : ¬keyText <:+ ink := by
        rintro ⟨u, rfl⟩
        rw [h u c s rfl] at hc
        cases hc
      have hs : Keyless ([] ++ s) := by
        intro u b v hs
        apply h (ink ++ c :: u) b v
        rw [← List.nil_append s, hs]
        simp
      rw [trimKeys_of_not_suffix hrun, ih [] hs, List.nil_append]
    · rw [ih, List.append_assoc, List.singleton_append]
      rwa [List.append_assoc, List.singleton_append]

theorem reads_spelled (cs : Text) : (spelled cs).Reads cs := by
  fun_induction spelled cs with
  | case1 => rfl
  | case2 c => exact ⟨c, rfl, (has_range c c).mpr rfl⟩
  | case3 c d cs ih => exact ⟨[c], d :: cs, rfl, ⟨c, rfl, (has_range c c).mpr rfl⟩, ih⟩

theorem exists_matchAt_unsignedKey {a : Nat} (hs : s.drop a = keyText ++ b :: v)
    (hb : isBlank b = true) : ∃ m, unsignedKey.matchAt s a = some m := by
  have ha : a ≤ s.length := place_le_of_drop hs
  have hreads : unsignedKey.Reads (keyText ++ [b]) := by
    refine ⟨[], keyText ++ [b], rfl, ⟨by simp, Nat.zero_le _⟩, keyText, [b], rfl,
      reads_spelled _, ?_, le_rfl⟩
    intro c hc
    rw [List.mem_singleton.mp hc]
    exact hb
  obtain ⟨m, hm, -⟩ := exists_matchAt ha hreads (v := v) (by simp [hs])
  exact ⟨m, hm⟩

theorem keyRound_cases (s : Text) :
    (Keyless s ∧ keyRound unsignedKey "1" s = .ok (.done s)) ∨
      ∃ u b v, s = u ++ keyText ++ b :: v ∧ isBlank b = true ∧
        keyRound unsignedKey "1" s = .ok (.again (u ++ b :: v)) := by
  cases hm : unsignedKey.search s 0 with
  | none =>
    refine .inl ⟨?_, by simp only [keyRound, hm]⟩
    rintro u b v rfl
    by_contra hb
    have hs : (u ++ keyText ++ b :: v).drop u.length = keyText ++ b :: v := by
      rw [List.append_assoc, List.drop_left]
    obtain ⟨m, hfound⟩ := exists_matchAt_unsignedKey hs (eq_true_of_ne_false hb)
    rw [search_eq_none hm u.length (by simp)] at hfound
    cases hfound
  | some m =>
    obtain ⟨a, hkey, ⟨b, hhead, hb⟩, hagain⟩ := keyRound_of_found hm
    obtain ⟨v, hv⟩ := List.head?_eq_some_iff.mp hhead
    refine .inr ⟨s.take a, b, v, ?_, hb, ?_⟩
    · calc s = s.take a ++ s.drop a := (List.take_append_drop a s).symm
        _ = s.take a ++ keyText ++ b :: v := by rw [hkey, hv, List.append_assoc]; rfl
    · rw [hagain, splice, hv, List.append_nil]

theorem pair_infix_of_splice {c d : Char} (hd : d ≠ b) (h : [c, d] <:+: u ++ b :: v) :
    [c, d] <:+: u ++ w ++ b :: v := by
  rw [pair_infix_append] at h
  rcases h with hu | hv | ⟨-, hhead⟩
  · exact hu.trans ⟨[], w ++ b :: v, by simp⟩
  · exact hv.trans ⟨u ++ w, [], by simp⟩
  · exact absurd (Option.some.inj hhead).symm hd

theorem Uncommented.splice (h : Uncommented (u ++ w ++ b :: v)) (hb : isBlank b = true) :
    Uncommented (u ++ b :: v) := by
  have hslash : '/' ≠ b := by
    rintro rfl
    cases hb
  have hstar : '*' ≠ b := by
    rintro rfl
    cases hb
  refine ⟨fun hline => h.no_line (pair_infix_of_splice hslash hline), ?_⟩
  intro x y hopen hclose
  have hseam : ¬(u.getLast? = some '/' ∧ (b :: v).head? = some '*') :=
    fun hjoined => hstar (Option.some.inj hjoined.2).symm
  rcases pair_of_append hopen hseam with ⟨z, rfl⟩ | ⟨z, hz⟩
  · have hy : y = z ++ b :: v := by simpa using hopen.symm
    rw [hy] at hclose
    exact h.no_block x (z ++ w ++ b :: v) (by simp) (pair_infix_of_splice hslash hclose)
  · exact h.no_block (u ++ w ++ z) y (by rw [hz]; simp) hclose

theorem removeKeywords_spec (s : Text) :
    ∃ r, removeKeywords s = .ok r ∧ r = dropKeywords [] s ∧ Keyless r ∧
      (Uncommented s → Uncommented r) := by
  rw [removeKeywords_eq, removeKeyBy]
  refine rounds_of_smaller (P := fun s r => r = dropKeywords [] s ∧ Keyless r ∧
    (Uncommented s → Uncommented r)) List.length ?_ (s.length + 2) s (by omega)
  intro s
  rcases keyRound_cases s with ⟨hkeyless, hdone⟩ | ⟨u, b, v, rfl, hb, hagain⟩
  · exact .inl ⟨s, hdone, (dropKeywords_of_keyless [] s hkeyless).symm, hkeyless, id⟩
  · have hlen : (u ++ b :: v).length < (u ++ keyText ++ b :: v).length := by
      have hkey : 0 < keyText.length := by decide
      rw [List.length_append, List.length_append, List.length_append]
      omega
    refine .inr ⟨u ++ b :: v, hagain, hlen, ?_⟩
    rintro r ⟨rfl, hkeyless, hkept⟩
    exact ⟨(dropKeywords_splice [] u v hb).symm, hkeyless, fun h => hkept (h.splice hb)⟩

theorem removeKeywords_one_pass (s : Text) :
    removeKeywords s = .ok (dropKeywords [] s) ∧ ∃ r, clean s = .ok r ∧ clean r = .ok r := by
  obtain ⟨_, hs, rfl, -⟩ := removeKeywords_spec s
  refine ⟨hs, ?_⟩
  have hcode := uncommented_dropBlocks (no_mark_cutLines false s)
  obtain ⟨r, hr, -, hkeyless, hkept⟩ := removeKeywords_spec (dropBlocks false (cutLines false s))
  have hagain : removeKeywords r = .ok r := by
    obtain ⟨_, hr, rfl, -⟩ := removeKeywords_spec r
    rw [hr, dropKeywords_of_keyless [] r hkeyless, List.nil_append]
  refine ⟨r, ?_, ?_⟩
  · simp only [clean, removeComments_eq_dropBlocks, bind, Except.bind, hr]
  · simp only [clean, removeComments_of_uncommented (hkept hcode), bind, Except.bind, hagain]

end CodeAudit.Cleaning
