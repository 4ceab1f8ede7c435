import CodeAudit.Proofs.Bracket.Partner
import CodeAudit.Proofs.Lint.Refined
import CodeAudit.Token

namespace CodeAudit

namespace Text

variable {s : Text} {i : Int} {n : Nat} {c : Char}

def ended (s : Text) : Text := s ++ ['\n']

theorem length_ended (s : Text) : s.ended.length = s.length + 1 := List.length_append

theorem drop_ended (hn : n ≤ s.length) : s.ended.drop n = s.drop n ++ ['\n'] :=
  List.drop_append_of_le_length hn

theorem take_ended (hn : n ≤ s.length) : s.ended.take n = s.take n :=
  List.take_append_of_le_length hn

theorem getElem?_ended (hn : n < s.length) : s.ended[n]? = s[n]? :=
  List.getElem?_append_left hn

theorem drop_ended_of_lt (hn : s.length < n) : s.ended.drop n = [] :=
  List.drop_eq_nil_of_le (by rw [length_ended]; omega)

theorem findIdx?_drop_ended {f : Char → Bool} (hf : f '\n' = false) (s : Text) (n : Nat) :
    (s.ended.drop n).findIdx? f = (s.drop n).findIdx? f := by
  by_cases hn : n ≤ s.length
  · rw [drop_ended hn, List.findIdx?_append]
    simp [hf]
  · rw [drop_ended_of_lt (by omega), List.drop_eq_nil_of_le (by omega)]

theorem find_ended (hc : c ≠ '\n') (hi : 0 ≤ i) : s.ended.find c i = s.find c i := by
  obtain ⟨n, rfl⟩ := Int.eq_ofNat_of_zero_le hi
  have hf : (('\n' : Char) == c) = false := beq_eq_false_iff_ne.mpr (Ne.symm hc)
  simp only [find, bound_natCast, findIdx?_drop_ended (f := (· == c)) hf]

theorem find_ended_of_found {q : Nat} (h : s.find c q = n) : s.ended.find c q = n := by
  simp only [find, bound_natCast] at h ⊢
  cases hidx : (s.drop q).findIdx? (· == c) with
  | none =>
    rw [hidx] at h
    have hn : (-1 : Int) = n := h
    omega
  | some k =>
    have hq : q ≤ s.length := by
      apply Nat.le_of_not_lt
      intro hlt
      rw [List.drop_eq_nil_of_le (Nat.le_of_lt hlt)] at hidx
      cases hidx
    rw [hidx] at h
    rw [drop_ended hq, List.findIdx?_append, hidx]
    exact h

theorem find_add_of_not_mem {a : Nat} {w v : Text} (hs : s.drop a = w ++ v) (hw : c ∉ w) :
    s.find c (a + w.length : Nat) = s.find c a := by
  have hnone : w.findIdx? (· == c) = none := by
    apply List.findIdx?_eq_none_iff.mpr
    intro b hb
    exact beq_false_of_ne (ne_of_mem_of_not_mem hb hw)
  simp only [find, bound_natCast, drop_of_drop_append hs, hs, List.findIdx?_append, hnone]
  cases v.findIdx? (· == c) with
  | none => rfl
  | some k => simp; omega

theorem nextInk_ended (hi : 0 ≤ i) : s.ended.nextInk i = s.nextInk i := by
  have hon : ∀ w : Text, w.onward i = .ok (w.drop i.toNat) := by
    intro w
    simp [onward, onward?, hi]
  have hf : (!isBlank '\n') = false := by decide
  simp only [nextInk, hon, bind, Except.bind, findIdx?_drop_ended (f := (!isBlank ·)) hf]

theorem charAt_ended (hi : 0 ≤ i) : (s.charAt i).Refined (s.ended.charAt i) := by
  obtain ⟨n, rfl⟩ := Int.eq_ofNat_of_zero_le hi
  intro a h
  have ha := charAt_natCast s n a h
  have hn : n < s.length := (List.getElem?_eq_some_iff.mp ha).1
  have hchar : s.ended.charAt? n = some a := by
    simp [charAt?, getElem?_ended hn, ha]
  rw [charAt, hchar]

theorem getLast?_of_charAt (h : s.charAt (-1) = .ok c) : s.getLast? = some c := by
  have hlen := length_pos_of_charAt h
  have hchar : s.charAt? (-1) = s.getLast? := by
    rw [charAt?, if_neg (by omega), if_pos (by omega), List.getLast?_eq_getElem?]
    congr 1
    omega
  rw [charAt, hchar] at h
  split at h
  · rename_i d hd
    rw [hd, Except.ok.inj h]
  · cases h

theorem charAt_ended_neg_one (s : Text) : s.ended.charAt (-1) = .ok '\n' := by
  have hchar : s.ended.charAt? (-1) = some '\n' := by
    rw [charAt?, length_ended, if_neg (by omega), if_pos (by omega), ended,
      List.getElem?_append_right (by omega)]
    have hplace : (-1 + (s.length + 1 : Nat) : Int).toNat - s.length = 0 := by omega
    rw [hplace]
    rfl
  rw [charAt, hchar]

theorem find_neg_one (hc : s.getLast? ≠ some c) : s.find c (-1) = -1 := by
  rcases find_cases s c (-1) with ⟨h, -⟩ | ⟨n, -, hle, hn⟩
  · exact h
  · have hlt := (List.getElem?_eq_some_iff.mp hn).1
    rw [bound, if_pos (by omega)] at hle
    obtain rfl : n = s.length - 1 := by omega
    rw [List.getLast?_eq_getElem?] at hc
    exact absurd hn hc

theorem find_lt (s : Text) (c : Char) (i : Int) : s.find c i < s.length := by
  rcases find_cases s c i with ⟨h, -⟩ | ⟨n, h, -, hn⟩
  · omega
  · have := (List.getElem?_eq_some_iff.mp hn).1
    omega

theorem lineEnd_bounds (hn : n ≤ s.length) : n ≤ s.lineEnd n ∧ s.lineEnd n ≤ s.length := by
  obtain ⟨hle, hlen, -⟩ := lineEnd_first hn
  exact ⟨hle, hlen⟩

theorem lineEnd_ended (hi : i ≤ s.length) : s.ended.lineEnd i = s.lineEnd i := by
  have hn : i.toNat ≤ s.length := by omega
  rw [lineEnd, lineEnd, seek_eq, seek_eq, length_ended, Nat.min_eq_left hn,
    Nat.min_eq_left (by omega), drop_ended hn]
  dsimp only
  rw [List.findIdx?_append]
  cases (s.drop i.toNat).findIdx? (· == '\n') with
  | none => simp
  | some k => rfl

theorem seek_ended (hn : n ≤ s.length) : (s.ended.seek n).1 = (s.seek n).1 := by
  rw [seek_natCast hn, seek_natCast (by rw [length_ended]; omega)]

theorem lineBreaks_ended {a b : Nat} (hb : b ≤ s.length) :
    s.ended.lineBreaks a b = s.lineBreaks a b := by
  have htake : ∀ w : Text, (w.drop a).take (b - a) = (w.take b).drop a := by
    intro w
    rw [List.drop_take]
  rw [lineBreaks_natCast, lineBreaks_natCast, htake, htake, take_ended hb]

theorem lineOf_ended (hn : n ≤ s.length) : s.ended.lineOf n = s.lineOf n := by
  rw [lineOf_natCast, lineOf_natCast, take_ended hn]

theorem slice_ended {a b : Int} (ha : 0 ≤ a) (hb : 0 ≤ b) (hle : b ≤ s.length) :
    s.ended.slice a b = s.slice a b := by
  obtain ⟨a, rfl⟩ := Int.eq_ofNat_of_zero_le ha
  obtain ⟨b, rfl⟩ := Int.eq_ofNat_of_zero_le hb
  simp only [slice, bound_natCast]
  rw [take_ended (by omega)]

theorem closing_of_short {w : Text} (hw : w.length ≤ 1) : (w == ['}', ';']) = false := by
  apply beq_false_of_ne
  rintro rfl
  simp at hw

theorem closing_of_neg (s : Text) (hi : -2 ≤ i) (hneg : i < 0) :
    (s.slice i (i + 2) == ['}', ';']) = false := by
  have hbound : s.bound (i + 2) ≤ 1 := by
    rw [bound, if_neg (by omega)]
    omega
  apply closing_of_short
  rw [slice, List.length_drop, List.length_take]
  omega

theorem closing_ended (hi : -2 ≤ i) :
    (s.ended.slice i (i + 2) == ['}', ';']) = (s.slice i (i + 2) == ['}', ';']) := by
  by_cases hneg : i < 0
  · rw [closing_of_neg _ hi hneg, closing_of_neg _ hi hneg]
  · obtain ⟨n, rfl⟩ := Int.eq_ofNat_of_zero_le (Int.not_lt.mp hneg)
    by_cases hle : n + 2 ≤ s.length
    · rw [slice_ended (Int.natCast_nonneg n) (by omega) (by omega)]
    · have hslice : ∀ w : Text, w.slice n (n + 2) = (w.take (n + 2)).drop n := fun w => rfl
      have hlen : (s.slice n (n + 2)).length ≤ 1 := by
        rw [hslice, List.length_drop, List.length_take]
        omega
      rw [closing_of_short hlen]
      apply beq_false_of_ne
      intro heq
      have hlast : s.ended[n + 1]? = some ';' := by
        have hget := congrArg (·[1]?) ((hslice _).symm.trans heq)
        simpa [List.getElem?_drop, List.getElem?_take] using hget
      rw [ended, List.getElem?_append_right (by omega)] at hlast
      have hmem := List.mem_of_getElem? hlast
      simp at hmem

end Text

namespace Token

theorem lead_ended (c : Char) (w : Text) : lead (c :: (w ++ ['\n'])) = lead (c :: w) := by
  have hword : (c :: (w ++ ['\n'])).takeWhile Text.isWord = (c :: w).takeWhile Text.isWord := by
    have hbreak : ['\n'].takeWhile Text.isWord = [] := rfl
    rw [← List.cons_append, List.takeWhile_append]
    split
    · rename_i hlen
      rw [hbreak, List.append_nil, (List.takeWhile_prefix _).eq_of_length hlen]
    · rfl
  have hcolons : [':', ':'].isPrefixOf (c :: (w ++ ['\n'])) = [':', ':'].isPrefixOf (c :: w) := by
    cases w <;> simp [List.isPrefixOf]
  rw [lead, lead, hword, hcolons]

theorem first?_ended (pos : Nat) (w : Text) : first? pos (w ++ ['\n']) = first? pos w := by
  induction w generalizing pos with
  | nil => rfl
  | cons c w ih => rw [List.cons_append, first?, first?, lead_ended, ih]

theorem next_ended (s : Text) (i : Int) : next s.ended i = next s i := by
  have hnext : next? s.ended i = next? s i := by
    rw [next?, next?, Text.seek_eq, Text.seek_eq]
    by_cases hn : i.toNat ≤ s.length
    · rw [Text.length_ended, Nat.min_eq_left hn, Nat.min_eq_left (by omega), Text.drop_ended hn]
      exact first?_ended _ _
    · rw [Text.drop_ended_of_lt (by omega), List.drop_eq_nil_of_le (by omega)]
      rfl
  rw [next, next, hnext]

end Token

namespace Bracket

variable {s : Text} {i : Int}

theorem closeFrom_ended (b : Bracket) {depth : Nat} {w : Text} (h : w ≠ [] ∨ 0 < depth) (k : Nat) :
    b.closeFrom depth k (w ++ ['\n']) = b.closeFrom depth k w := by
  induction w generalizing depth k with
  | nil =>
    have hdeepen : b.deepen depth '\n' = depth := by cases b <;> rfl
    have hdepth : 0 < depth := h.resolve_left fun hne => hne rfl
    rw [List.nil_append, closeFrom.eq_2, hdeepen, if_neg (by omega)]
    rfl
  | cons c w ih =>
    rw [List.cons_append, closeFrom, closeFrom]
    by_cases hzero : b.deepen depth c = 0
    · rw [if_pos hzero, if_pos hzero]
    · rw [if_neg hzero, if_neg hzero]
      exact ih (.inr (Nat.pos_of_ne_zero hzero)) (k + 1)

theorem partner_ended (b : Bracket) (hi : 0 ≤ i) :
    (b.partner s i).Refined (b.partner s.ended i) := by
  apply Scan.Refined.bind (Text.charAt_ended hi)
  intro c hc
  apply Scan.Refined.ite
  · intro _
    obtain ⟨n, rfl⟩ := Int.eq_ofNat_of_zero_le hi
    have hn : n < s.length := (List.getElem?_eq_some_iff.mp (Text.charAt_natCast s n c hc)).1
    have hon : ∀ w : Text, w.onward n = .ok (w.drop n) := by
      intro w
      simp [Text.onward, Text.onward?]
    have hne : s.drop n ≠ [] := by
      rw [Ne, List.drop_eq_nil_iff]
      omega
    rw [hon, hon, Text.drop_ended (Nat.le_of_lt hn)]
    simp only [bind, Except.bind]
    rw [b.closeFrom_ended (.inl hne)]
    exact Scan.Refined.refl _
  · intro _
    exact Scan.refined_throw _ _

end Bracket

end CodeAudit
