import CodeAudit.Proofs.Text.Scanning
import CodeAudit.Stylesheet

namespace CodeAudit

namespace Text

variable {s w part : Text} {a q : Nat} {i : Int}

def Ink (s : Text) (q : Nat) : Prop := ∃ b, s[q]? = some b ∧ isBlank b = false

theorem Ink.lt_length (h : s.Ink q) : q < s.length := by
  obtain ⟨b, hb, -⟩ := h
  exact (List.getElem?_eq_some_iff.mp hb).1

theorem Ink.nextInk_eq (h : s.Ink q) : s.nextInk q = .ok q := by
  obtain ⟨b, hb, hink⟩ := h
  obtain ⟨hlt, rfl⟩ := List.getElem?_eq_some_iff.mp hb
  rw [nextInk_of_drop (u := []) (List.drop_eq_getElem_cons hlt) (by simp) hink]
  rfl

theorem offsetOf_eq_some {k : Nat} (h : offsetOf part w = some k) : part <+: w.drop k := by
  induction w generalizing k with
  | nil =>
    rw [offsetOf] at h
    split at h
    · rename_i hpart
      rw [List.isEmpty_iff.mp hpart]
      exact List.nil_prefix
    · cases h
  | cons c w ih =>
    rw [offsetOf] at h
    split at h
    · rename_i hpart
      obtain rfl := Option.some.inj h
      exact List.isPrefixOf_iff_prefix.mp hpart
    · obtain ⟨k, hk, rfl⟩ := Option.map_eq_some_iff.mp h
      exact ih hk

theorem offsetOf_of_prefix (h : part <+: w) : offsetOf part w = some 0 := by
  cases w with
  | nil =>
    rw [List.prefix_nil.mp h]
    rfl
  | cons c w => rw [offsetOf, if_pos (List.isPrefixOf_iff_prefix.mpr h)]

theorem findText_natCast (ha : a ≤ s.length) (part : Text) :
    s.findText part a = match offsetOf part (s.drop a) with
      | some k => ((a + k : Nat) : Int)
      | none => -1 := by
  rw [findText, if_neg (by omega), bound_natCast]
  dsimp only
  cases offsetOf part (s.drop a) <;> rfl

theorem findText_cases (ha : a ≤ s.length) (part : Text) :
    (s.findText part a = -1 ∧ ¬part <:+: s.drop a) ∨
      ∃ n : Nat, s.findText part a = n ∧ a ≤ n ∧ part <+: s.drop n := by
  rw [findText_natCast ha]
  cases h : offsetOf part (s.drop a) with
  | none =>
    refine .inl ⟨rfl, ?_⟩
    rw [← isSome_offsetOf, h]
    exact Bool.false_ne_true
  | some k =>
    refine .inr ⟨a + k, rfl, Nat.le_add_right _ _, ?_⟩
    rw [← List.drop_drop]
    exact offsetOf_eq_some h

theorem findText_of_prefix (ha : a ≤ s.length) (h : part <+: s.drop a) :
    s.findText part a = a := by
  rw [findText_natCast ha, offsetOf_of_prefix h]
  rfl

theorem offsetOf_singleton (c : Char) (w : Text) : offsetOf [c] w = w.findIdx? (· == c) := by
  induction w with
  | nil => rfl
  | cons d w ih =>
    have hfirst : List.isPrefixOf [c] (d :: w) = (d == c) := by
      rw [List.isPrefixOf_cons_cons, List.isPrefixOf_nil_left, Bool.and_true, BEq.comm]
    rw [offsetOf, List.findIdx?_cons, hfirst, ih]

theorem findText_singleton (ha : a ≤ s.length) (c : Char) : s.findText [c] a = s.find c a := by
  rw [findText_natCast ha, offsetOf_singleton, find, bound_natCast]
  rfl

theorem neg_one_le_findText (s part : Text) (i : Int) : -1 ≤ s.findText part i := by
  rw [findText]
  split
  · omega
  · dsimp only
    split <;> omega

theorem nextInk_neg_one {b : Char} (hb : s.getLast? = some b) :
    s.nextInk (-1) = if isBlank b then s.nextInk 0 else .ok (-1) := by
  obtain ⟨u, rfl⟩ := List.getLast?_eq_some_iff.mp hb
  have hlast : onward (u ++ [b]) (-1) = .ok (b :: (u ++ [b])) := by
    have hlen : ((-1 : Int) + (u ++ [b]).length).toNat = u.length := by
      rw [List.length_append, List.length_singleton]
      omega
    have hpos : (0 : Int) ≤ -1 + (u ++ [b]).length := by
      rw [List.length_append, List.length_singleton]
      omega
    rw [onward, onward?, if_neg (by omega), if_pos hpos, hlen, List.drop_left]
    rfl
  have hfirst : onward (u ++ [b]) 0 = .ok (u ++ [b]) := rfl
  rw [nextInk, nextInk, hlast, hfirst]
  simp only [bind, Except.bind, List.findIdx?_cons]
  cases isBlank b with
  | false => rfl
  | true =>
    cases (u ++ [b]).findIdx? (!isBlank ·) with
    | none => rfl
    | some k =>
      simp only [Bool.not_true, Bool.false_eq_true, if_false, Option.map_some, if_true]
      congr 1
      omega

end Text

namespace Stylesheet

variable {s mark closing : Text} {a q : Nat} {i j : Int}

theorem skipRound_of_blank (h : s.nextInk i = .ok (-1)) :
    skipRound s mark i = .ok (.done (-1)) := by
  have hstart := Text.neg_one_le_findText s mark (-1)
  rw [skipRound, h]
  simp only [bind, Except.bind]
  rw [if_pos]
  · rfl
  · simp only [Bool.or_eq_true, beq_iff_eq, decide_eq_true_eq]
    omega

theorem skipRound_of_ink (h : s.nextInk i = .ok q) (hq : q ≤ s.length)
    (hmark : ¬mark <+: s.drop q) : skipRound s mark i = .ok (.done q) := by
  rw [skipRound, h]
  simp only [bind, Except.bind]
  rw [if_pos]
  · rfl
  · simp only [Bool.or_eq_true, beq_iff_eq, decide_eq_true_eq]
    rcases Text.findText_cases hq mark with ⟨hfind, -⟩ | ⟨n, hfind, hle, hn⟩
    · exact .inl hfind
    · right
      rw [hfind]
      have hne : n ≠ q := by
        rintro rfl
        exact hmark hn
      omega

theorem skipRound_of_mark (h : s.nextInk i = .ok q) (hq : q ≤ s.length) (hmark : mark <+: s.drop q)
    (hclosing : closingMark? mark = some closing) :
    skipRound s mark i = .ok (if s.findText closing q = -1 then .done (-1)
      else .again (s.findText closing q + closing.length)) := by
  have hstart := Text.findText_of_prefix hq hmark
  rw [skipRound, h]
  simp only [bind, Except.bind, hstart]
  rw [if_neg, hclosing]
  · dsimp only
    simp only [beq_iff_eq]
    split <;> rfl
  · simp only [Bool.or_eq_true, beq_iff_eq, decide_eq_true_eq]
    omega

theorem skipRegions_congr {k : Int} (h : s.nextInk i = s.nextInk k) :
    skipRegions s mark i = skipRegions s mark k := by
  have hround : skipRound s mark i = skipRound s mark k := by
    rw [skipRound, skipRound, h]
  rw [skipRegions, skipRegions, rounds, rounds, hround]

theorem skipRegions_of_ink (h : s.Ink q) (hmark : ¬mark <+: s.drop q) :
    skipRegions s mark q = .ok q :=
  rounds_done (skipRound_of_ink h.nextInk_eq (Nat.le_of_lt h.lt_length) hmark) _

def Skipped (s mark : Text) (a : Nat) (j : Int) : Prop :=
  j = -1 ∨ ∃ q : Nat, j = q ∧ a ≤ q ∧ s.Ink q ∧ ¬mark <+: s.drop q

theorem skipRound_natCast (hclosing : closingMark? mark = some closing) (hne : closing ≠ [])
    (a : Nat) :
    (∃ j, skipRound s mark a = .ok (.done j) ∧ Skipped s mark a j) ∨
      ∃ n : Nat, skipRound s mark a = .ok (.again n) ∧ a < n ∧ n ≤ s.length := by
  rcases Text.nextInk_natCast s a with ⟨hnext, -⟩ | ⟨q, hnext, hle, hink⟩
  · exact .inl ⟨-1, skipRound_of_blank hnext, .inl rfl⟩
  · have hq : q ≤ s.length := Nat.le_of_lt (Text.Ink.lt_length hink)
    by_cases hmark : mark <+: s.drop q
    · have hround := skipRound_of_mark hnext hq hmark hclosing
      rcases Text.findText_cases hq closing with ⟨hfind, -⟩ | ⟨n, hfind, hqn, hn⟩
      · rw [if_pos hfind] at hround
        exact .inl ⟨-1, hround, .inl rfl⟩
      · rw [hfind, if_neg (by omega)] at hround
        have hlen := hn.length_le
        have hpos := List.length_pos_iff.mpr hne
        rw [List.length_drop] at hlen
        exact .inr ⟨n + closing.length, hround, by omega, by omega⟩
    · exact .inl ⟨q, skipRound_of_ink hnext hq hmark, .inr ⟨q, rfl, hle, hink, hmark⟩⟩

theorem skipRegions_natCast (hclosing : closingMark? mark = some closing) (hne : closing ≠ [])
    (a : Nat) : ∃ j, skipRegions s mark a = .ok j ∧ Skipped s mark a j := by
  have hround : ∀ x : Int, 0 ≤ x →
      (∃ j, skipRound s mark x = .ok (.done j) ∧ Skipped s mark x.toNat j) ∨
      ∃ y, skipRound s mark x = .ok (.again y) ∧ 0 ≤ y ∧
        s.length - y.toNat < s.length - x.toNat ∧
        ∀ j, Skipped s mark y.toNat j → Skipped s mark x.toNat j := by
    intro x hx
    obtain ⟨n, rfl⟩ := Int.eq_ofNat_of_zero_le hx
    rw [Int.toNat_natCast]
    refine (skipRound_natCast hclosing hne n).imp id ?_
    rintro ⟨m, hm, hlt, hle⟩
    refine ⟨m, hm, Int.natCast_nonneg m, by omega, ?_⟩
    intro j hj
    rw [Int.toNat_natCast] at hj
    refine hj.imp id ?_
    rintro ⟨q, rfl, hq, h⟩
    exact ⟨q, rfl, by omega, h⟩
  exact rounds_of_smaller_in _ _ hround (s.length + 3) (a : Int) (Int.natCast_nonneg a) (by omega)

variable {name : Pattern} {told : List Report}

def selectorReports (name : Pattern) (s : Text) (q : Nat) : List Report :=
  if (name.matchAt s q).isSome then []
  else [⟨s.lineOf q, .foreignSelector, some (s.slice q (s.lineEnd q)), none⟩]

theorem skipRegions_of_blank (h : s.nextInk i = .ok (-1)) : skipRegions s mark i = .ok (-1) :=
  rounds_done (skipRound_of_blank h) _

theorem round_of_end (h : skipRegions s "/*".toList a = .ok (-1)) :
    round name s ⟨a, told⟩ = .ok (.done told) := by
  rcases Text.nextInk_natCast s a with ⟨hnext, -⟩ | ⟨q, hnext, -, hink⟩
  · rw [round, hnext]
    rfl
  · have hskip : skipRegions s "/*".toList q = .ok (-1) := by
      rw [← h, skipRegions_congr (hnext.trans (Text.Ink.nextInk_eq hink).symm)]
    have hq : ¬((q : Int) == -1) = true := by simp
    rw [round, hnext]
    simp only [bind, Except.bind, hq, hskip]
    rfl

theorem round_of_selector (h : skipRegions s "/*".toList a = .ok q)
    (hstop : skipRegions s ['{'] (s.find '{' q) = .ok j) (hj : j < s.length) :
    round name s ⟨a, told⟩ = .ok (if j = -1 then .done (told ++ selectorReports name s q)
      else .again ⟨j, told ++ selectorReports name s q⟩) := by
  rcases Text.nextInk_natCast s a with ⟨hnext, -⟩ | ⟨p, hnext, -, hink⟩
  · rw [skipRegions_of_blank hnext] at h
    cases h
  · have hskip : skipRegions s "/*".toList p = .ok q := by
      rw [← h, skipRegions_congr (hnext.trans (Text.Ink.nextInk_eq hink).symm)]
    have hp : ¬((p : Int) == -1) = true := by simp
    have hq : ¬((q : Int) == -1) = true := by simp
    rw [round, hnext]
    simp only [bind, Except.bind, hp, hskip, hq, hstop]
    by_cases hend : j = -1
    · simp only [hend]
      rfl
    · have hgo : ¬(j == -1 || decide ((s.length : Int) ≤ j)) = true := by
        simp only [Bool.or_eq_true, beq_iff_eq, decide_eq_true_eq]
        omega
      rw [if_neg hgo, if_neg hend]
      rfl

end Stylesheet

end CodeAudit
