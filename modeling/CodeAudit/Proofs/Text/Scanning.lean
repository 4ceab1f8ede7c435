import CodeAudit.Proofs.Rounds
import CodeAudit.Proofs.Text.Position

namespace CodeAudit.Text

variable {s u v w : Text} {c : Char} {a : Nat}

theorem drop_of_drop_append (hs : s.drop a = u ++ v) : s.drop (a + u.length) = v := by
  rw [← List.drop_drop, hs, List.drop_left]

theorem take_of_drop {s w v : Text} {a : Nat} (hs : s.drop a = w ++ v) :
    s.take (a + w.length) = s.take a ++ w := by
  rw [List.take_add, hs, List.take_left]

theorem le_length_of_drop (hs : s.drop a = u ++ c :: v) : a + u.length < s.length := by
  have hl := congrArg List.length hs
  simp only [List.length_drop, List.length_append, List.length_cons] at hl
  omega

theorem place_le_of_drop (hs : s.drop a = u ++ c :: v) : a ≤ s.length :=
  Nat.le_trans (Nat.le_add_right _ _) (Nat.le_of_lt (le_length_of_drop hs))

theorem mem_drop_of_getElem? {n : Nat} (ha : a ≤ n) (hn : s[n]? = some c) : c ∈ s.drop a := by
  apply List.mem_of_getElem? (i := n - a)
  rw [List.getElem?_drop, Nat.add_sub_cancel' ha, hn]

theorem charAt?_of_drop (hs : s.drop a = c :: v) : s.charAt? a = some c := by
  have h : s[a]? = some c := by
    rw [← List.head?_drop, hs]
    rfl
  simp [charAt?, h]

theorem charAt_natCast (s : Text) (a : Nat) :
    Scan.Ensures (s.charAt a) fun e => s[a]? = some e := by
  have hchar : s.charAt? a = s[a]? := by simp [Text.charAt?]
  intro e he
  rw [Text.charAt, hchar] at he
  split at he
  · rename_i d hd
    rw [hd, Except.ok.inj he]
  · cases he

theorem charAt_of_drop (hs : s.drop a = c :: v) : s.charAt a = .ok c := by
  rw [charAt, charAt?_of_drop hs]

theorem findIdx?_append_cons {f : Char → Bool} (hu : ∀ b ∈ u, f b = false) (hc : f c = true) :
    (u ++ c :: v).findIdx? f = some u.length := by
  rw [List.findIdx?_append, List.findIdx?_eq_none_iff.mpr hu, List.findIdx?_cons, if_pos hc]
  simp

theorem find_of_drop (hs : s.drop a = u ++ c :: v) (hu : c ∉ u) :
    s.find c a = (a + u.length : Nat) := by
  have h : (u ++ c :: v).findIdx? (· == c) = some u.length := by
    apply findIdx?_append_cons
    · intro b hb
      exact beq_false_of_ne (ne_of_mem_of_not_mem hb hu)
    · exact beq_self_eq_true c
  simp [find, hs, h]

theorem find_of_drop_cons (hs : s.drop a = c :: v) : s.find c a = a := by
  rw [find_of_drop (u := []) hs List.not_mem_nil]
  simp

theorem find_of_not_mem (h : c ∉ s) (i : Int) : s.find c i = -1 := by
  have hnone : (s.drop (s.bound i)).findIdx? (· == c) = none := by
    apply List.findIdx?_eq_none_iff.mpr
    intro b hb
    exact beq_false_of_ne (ne_of_mem_of_not_mem (List.mem_of_mem_drop hb) h)
  simp [find, hnone]

theorem find_cases (s : Text) (c : Char) (i : Int) :
    (s.find c i = -1 ∧ c ∉ s.drop (s.bound i)) ∨
      ∃ n : Nat, s.find c i = n ∧ s.bound i ≤ n ∧ s[n]? = some c := by
  simp only [find]
  cases hfind : (s.drop (s.bound i)).findIdx? (· == c) with
  | none =>
    refine .inl ⟨rfl, ?_⟩
    intro hc
    have h := List.findIdx?_eq_none_iff.mp hfind c hc
    simp at h
  | some k =>
    obtain ⟨hlt, hk, -⟩ := List.findIdx?_eq_some_iff_getElem.mp hfind
    refine .inr ⟨s.bound i + k, rfl, Nat.le_add_right _ _, ?_⟩
    rw [← List.getElem?_drop, List.getElem?_eq_getElem hlt, eq_of_beq hk]

theorem neg_one_le_find (s : Text) (c : Char) (i : Int) : -1 ≤ s.find c i := by
  rcases find_cases s c i with ⟨h, -⟩ | ⟨n, h, -⟩ <;> omega

theorem le_find (s : Text) (c : Char) {i : Int} (hi : 0 ≤ i) :
    s.find c i = -1 ∨ i ≤ s.find c i := by
  obtain ⟨a, rfl⟩ := Int.eq_ofNat_of_zero_le hi
  rcases find_cases s c a with ⟨h, -⟩ | ⟨n, h, hle, -⟩
  · exact .inl h
  · rw [bound_natCast] at hle
    omega

theorem nextInk_of_drop (hs : s.drop a = u ++ c :: v) (hu : ∀ b ∈ u, isBlank b = true)
    (hc : isBlank c = false) : s.nextInk a = .ok (a + u.length : Nat) := by
  have h : (u ++ c :: v).findIdx? (!isBlank ·) = some u.length := by
    apply findIdx?_append_cons
    · intro b hb
      rw [hu b hb]
      rfl
    · rw [hc]
      rfl
  have hon : s.onward a = .ok (u ++ c :: v) := by simp [onward, onward?, hs]
  rw [nextInk, hon]
  simp only [bind, Except.bind, h]
  rfl

theorem nextInk_cases (s : Text) (a : Nat) :
    (s.nextInk a = .ok (-1) ∧ ∀ b ∈ s.drop a, isBlank b = true) ∨
      ∃ u c v, s.drop a = u ++ c :: v ∧ (∀ b ∈ u, isBlank b = true) ∧ isBlank c = false ∧
        s.nextInk a = .ok (a + u.length : Nat) := by
  have hon : s.onward a = .ok (s.drop a) := by simp [onward, onward?]
  cases hfind : (s.drop a).findIdx? (!isBlank ·) with
  | none =>
    left
    constructor
    · rw [nextInk, hon]
      simp only [bind, Except.bind, hfind]
      rfl
    · intro b hb
      have h := List.findIdx?_eq_none_iff.mp hfind b hb
      simpa using h
  | some k =>
    right
    obtain ⟨hlt, hk, hbefore⟩ := List.findIdx?_eq_some_iff_getElem.mp hfind
    have hs : s.drop a = (s.drop a).take k ++ (s.drop a)[k] :: (s.drop a).drop (k + 1) := by
      rw [List.getElem_cons_drop, List.take_append_drop]
    have hblank : ∀ b ∈ (s.drop a).take k, isBlank b = true := by
      intro b hb
      obtain ⟨j, hj, rfl⟩ := List.mem_take_iff_getElem.mp hb
      have h := hbefore j (by omega)
      simpa using h
    refine ⟨_, _, _, hs, hblank, by simpa using hk, ?_⟩
    exact nextInk_of_drop hs hblank (by simpa using hk)

theorem nextInk_before {n : Nat} (ha : a ≤ n) (hn : s[n]? = some c) (hc : isBlank c = false) :
    ∃ q : Nat, s.nextInk a = .ok q ∧ a ≤ q ∧ q ≤ n := by
  have hne : ∀ b, isBlank b = true → b ≠ c := by
    rintro b hb rfl
    rw [hb] at hc
    cases hc
  rcases nextInk_cases s a with ⟨-, hblank⟩ | ⟨u, d, v, hs, hblank, -, hnext⟩
  · exact absurd rfl (hne c (hblank c (mem_drop_of_getElem? ha hn)))
  · refine ⟨a + u.length, hnext, Nat.le_add_right _ _, Nat.le_of_not_lt ?_⟩
    intro hlt
    have hmem : (s.drop a)[n - a]? = some c := by
      rw [List.getElem?_drop, Nat.add_sub_cancel' ha, hn]
    rw [hs, List.getElem?_append_left (by omega)] at hmem
    exact absurd rfl (hne c (hblank c (List.mem_of_getElem? hmem)))

theorem nextInk_natCast (s : Text) (a : Nat) :
    (s.nextInk a = .ok (-1) ∧ ∀ b ∈ s.drop a, isBlank b = true) ∨
      ∃ q : Nat, s.nextInk a = .ok q ∧ a ≤ q ∧ ∃ b, s[q]? = some b ∧ isBlank b = false := by
  rcases nextInk_cases s a with h | ⟨u, c, v, hs, -, hc, hnext⟩
  · exact .inl h
  · refine .inr ⟨a + u.length, hnext, Nat.le_add_right _ _, c, ?_, hc⟩
    rw [← List.getElem?_drop, hs, List.getElem?_append_right (Nat.le_refl _), Nat.sub_self]
    rfl

theorem nextInk_of_blank (h : ∀ b ∈ s.drop a, isBlank b = true) : s.nextInk a = .ok (-1) := by
  rcases nextInk_natCast s a with ⟨hnext, -⟩ | ⟨q, -, hle, b, hb, hink⟩
  · exact hnext
  · rw [h b (mem_drop_of_getElem? hle hb)] at hink
    cases hink

def BeforeTail (s : Text) (i : Int) : Prop :=
  ∀ a : Nat, (∀ b ∈ s.drop a, isBlank b = true) → i < a

theorem beforeTail_neg_one (s : Text) : s.BeforeTail (-1) := by
  intro a _
  omega

theorem beforeTail_of_ink {i : Int} {n : Nat} (hi : i ≤ n) (hn : s[n]? = some c)
    (hc : isBlank c = false) : s.BeforeTail i := by
  intro a ha
  apply Int.lt_of_not_ge
  intro hle
  rw [ha c (mem_drop_of_getElem? (by omega) hn)] at hc
  cases hc

theorem beforeTail_find (hc : isBlank c = false) (i : Int) : s.BeforeTail (s.find c i) := by
  rcases find_cases s c i with ⟨h, -⟩ | ⟨n, h, -, hn⟩
  · rw [h]
    exact beforeTail_neg_one s
  · exact beforeTail_of_ink (by omega) hn hc

theorem length_pos_of_charAt {i : Int} (h : s.charAt i = .ok c) : 0 < s.length := by
  apply List.length_pos_iff.mpr
  rintro rfl
  have hnone : charAt? [] i = none := by
    rw [charAt?]
    split
    · rfl
    · split <;> rfl
  rw [charAt, hnone] at h
  cases h

theorem onward_length (s : Text) (i : Int) : Scan.Ensures (s.onward i) fun v =>
    0 < v.length → i + v.length ≤ s.length := by
  intro v hv hpos
  rw [onward, onward?] at hv
  split at hv
  · rename_i u hu
    obtain rfl : u = v := Except.ok.inj hv
    split at hu
    · obtain rfl := Option.some.inj hu
      rw [List.length_drop] at hpos ⊢
      omega
    · split at hu
      · obtain rfl := Option.some.inj hu
        rw [List.length_append, List.length_drop]
        omega
      · cases hu
  · cases hv

theorem nextInk_bounds (s : Text) (i : Int) : Scan.Ensures (s.nextInk i) fun j =>
    j = -1 ∨ i ≤ j ∧ j < s.length := by
  simp only [nextInk, Scan.ensures_bind]
  refine Scan.ensures_mono (onward_length s i) ?_
  intro v hv
  split
  · rename_i k hk
    obtain ⟨hlt, -⟩ := List.findIdx?_eq_some_iff_getElem.mp hk
    have hle := hv (Nat.zero_lt_of_lt hlt)
    simp only [Scan.ensures_pure]
    omega
  · simp

theorem slice_of_drop {b : Nat} (hs : s.drop a = w ++ v) (hb : b = a + w.length) :
    s.slice a b = w := by
  rw [slice, bound_natCast, bound_natCast]
  exact drop_take_eq_of_drop_eq hs hb

theorem lineEnd_of_drop (hs : s.drop a = u ++ '\n' :: v) (hu : '\n' ∉ u) :
    s.lineEnd a = a + u.length := by
  have ha : a ≤ s.length := by have := le_length_of_drop hs; omega
  have hidx : (u ++ '\n' :: v).findIdx? (· == '\n') = some u.length := by
    apply findIdx?_append_cons
    · intro b hb
      exact beq_false_of_ne (ne_of_mem_of_not_mem hb hu)
    · rfl
  simp only [lineEnd, seek_natCast ha, hs, hidx]

theorem lineEnd_of_line (ha : a ≤ s.length) (hs : s.drop a = u ++ v) (hu : '\n' ∉ u)
    (hv : ∀ b ∈ v.head?, b = '\n') : s.lineEnd a = a + u.length := by
  cases v with
  | nil =>
    have hidx : u.findIdx? (· == '\n') = none := by
      apply List.findIdx?_eq_none_iff.mpr
      intro b hb
      exact beq_false_of_ne (ne_of_mem_of_not_mem hb hu)
    simp only [lineEnd, seek_natCast ha, hs, List.append_nil, hidx]
  | cons b v =>
    obtain rfl : b = '\n' := hv b rfl
    exact lineEnd_of_drop hs hu

theorem lineEnd_first (ha : a ≤ s.length) :
    a ≤ s.lineEnd a ∧ s.lineEnd a ≤ s.length ∧
      (∀ q, a ≤ q → q < s.lineEnd a → s[q]? ≠ some '\n') ∧
      (s.lineEnd a < s.length → s[s.lineEnd a]? = some '\n') := by
  rw [lineEnd, seek_natCast ha]
  dsimp only
  cases hfind : (s.drop a).findIdx? (· == '\n') with
  | none =>
    have hnone := List.findIdx?_eq_none_iff.mp hfind
    dsimp only
    rw [List.length_drop, Nat.add_sub_cancel' ha]
    refine ⟨ha, Nat.le_refl _, ?_, fun hlt => absurd hlt (Nat.lt_irrefl _)⟩
    intro q hq _ hbreak
    have h := hnone '\n' (mem_drop_of_getElem? hq hbreak)
    simp at h
  | some k =>
    obtain ⟨hlt, hk, hbefore⟩ := List.findIdx?_eq_some_iff_getElem.mp hfind
    dsimp only
    have hlen := hlt
    rw [List.length_drop] at hlen
    refine ⟨by omega, by omega, ?_, ?_⟩
    · intro q hq hqk hbreak
      have h := hbefore (q - a) (by omega)
      have hget : (s.drop a)[q - a]? = some '\n' := by
        rw [List.getElem?_drop, Nat.add_sub_cancel' hq, hbreak]
      rw [List.getElem?_eq_getElem (by omega)] at hget
      simp [Option.some.inj hget] at h
    · intro _
      rw [← List.getElem?_drop, List.getElem?_eq_getElem hlt, eq_of_beq hk]

theorem slice_lineEnd {s : Text} {q : Nat} (hq : q ≤ s.length) :
    s.slice q (s.lineEnd q) = (s.drop q).takeWhile (· != '\n') := by
  have hsplit : s.drop q = (s.drop q).takeWhile (· != '\n') ++ (s.drop q).dropWhile (· != '\n') :=
    List.takeWhile_append_dropWhile.symm
  have hline : '\n' ∉ (s.drop q).takeWhile (· != '\n') := by
    intro h
    have h := List.all_eq_true.mp List.all_takeWhile _ h
    simp at h
  have hbreak : ∀ b ∈ ((s.drop q).dropWhile (· != '\n')).head?, b = '\n' := by
    intro b hb
    have h := List.head?_dropWhile_not (· != '\n') (s.drop q)
    rw [Option.mem_def.mp hb] at h
    simpa using h
  exact slice_of_drop hsplit (lineEnd_of_line hq hsplit hline hbreak)

theorem le_lineEnd_of_drop (ha : a ≤ s.length) (hs : s.drop a = u ++ v) (hu : '\n' ∉ u) :
    a + u.length ≤ s.lineEnd a := by
  simp only [lineEnd, seek_natCast ha, hs]
  split
  · rename_i k hk
    obtain ⟨hlt, hget, -⟩ := List.findIdx?_eq_some_iff_getElem.mp hk
    apply Nat.add_le_add_left
    apply Nat.le_of_not_lt
    intro hku
    rw [List.getElem_append_left hku, beq_iff_eq] at hget
    exact hu (hget ▸ List.getElem_mem hku)
  · rw [List.length_append]
    omega

theorem take_beq (w : Text) (s : Text) : (s.take w.length == w) = decide (w <+: s) := by
  rw [Bool.eq_iff_iff, beq_iff_eq, decide_eq_true_eq, List.prefix_iff_eq_take]
  exact eq_comm

theorem isSome_offsetOf (part : Text) : (offsetOf part s).isSome = true ↔ part <:+: s := by
  induction s with
  | nil =>
    rw [offsetOf, List.infix_nil]
    cases part <;> simp
  | cons b s ih =>
    rw [List.infix_cons_iff, ← ih, ← List.isPrefixOf_iff_prefix, offsetOf]
    by_cases hp : part.isPrefixOf (b :: s) = true
    · simp [hp]
    · simp [hp]

theorem holds_iff (part : Text) : s.holds part = true ↔ part <:+: s :=
  isSome_offsetOf part

end CodeAudit.Text
