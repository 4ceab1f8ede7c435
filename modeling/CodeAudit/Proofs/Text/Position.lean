import CodeAudit.Text.Basic

namespace CodeAudit.Text

@[simp] theorem bound_natCast (s : Text) (n : Nat) : s.bound n = n := by
  rw [bound, if_neg (by omega), Int.toNat_natCast]

theorem advance_eq (k pos : Nat) (s : Text) :
    advance k pos s = (pos + min k s.length, s.drop k) := by
  induction k generalizing pos s with
  | zero => simp [advance]
  | succ k ih =>
    cases s with
    | nil => simp [advance]
    | cons c s => simp only [advance, ih, List.length_cons, List.drop_succ_cons]; congr 1; omega

theorem seek_eq (s : Text) (i : Int) : s.seek i = (min i.toNat s.length, s.drop i.toNat) := by
  simp [seek, advance_eq]

theorem seek_natCast {s : Text} {n : Nat} (hn : n ≤ s.length) : s.seek n = (n, s.drop n) := by
  rw [seek_eq, Int.toNat_natCast, Nat.min_eq_left hn]

theorem drop_min_length (s : Text) (n : Nat) : s.drop (min n s.length) = s.drop n := by
  by_cases hn : n ≤ s.length
  · rw [Nat.min_eq_left hn]
  · rw [Nat.min_eq_right (by omega), List.drop_length, List.drop_eq_nil_of_le (by omega)]

theorem breaksWithin_eq (n told : Nat) (s : Text) :
    breaksWithin n told s = told + (s.take n).count '\n' := by
  induction n generalizing told s with
  | zero => simp [breaksWithin]
  | succ n ih =>
    cases s with
    | nil => simp [breaksWithin]
    | cons c s =>
      simp only [breaksWithin, ih, List.take_succ_cons, List.count_cons]
      split <;> omega

theorem lineBreaks_natCast (s : Text) (a b : Nat) :
    s.lineBreaks a b = ((s.drop a).take (b - a)).count '\n' := by
  simp [lineBreaks, breaksWithin_eq]

theorem lineOf_natCast (s : Text) (n : Nat) : s.lineOf n = (s.take n).count '\n' + 1 := by
  have h := lineBreaks_natCast s 0 n
  simp only [lineOf]
  simpa using h

theorem lineOf_add_lineBreaks {s : Text} {a b : Nat} (hab : a ≤ b) :
    s.lineOf a + s.lineBreaks a b = s.lineOf b := by
  have htake : s.take b = s.take a ++ (s.drop a).take (b - a) := by
    rw [← List.take_add, Nat.add_sub_cancel' hab]
  rw [lineOf_natCast, lineOf_natCast, lineBreaks_natCast, htake, List.count_append]
  omega

theorem count_take_of_drop {s w r : Text} {a : Nat} (hs : s.drop a = w ++ r) (c : Char) :
    (s.take (a + w.length)).count c = (s.take a).count c + w.count c := by
  rw [List.take_add, hs, List.take_left, List.count_append]

theorem drop_take_eq_of_drop_eq {s w r : Text} {a b : Nat} (hs : s.drop a = w ++ r)
    (hb : b = a + w.length) : (s.take b).drop a = w := by
  rw [List.drop_take, hs, hb, Nat.add_sub_cancel_left, List.take_left]

end CodeAudit.Text
