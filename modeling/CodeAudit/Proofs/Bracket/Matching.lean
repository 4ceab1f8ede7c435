import CodeAudit.Proofs.Bracket.Balanced

namespace CodeAudit.Bracket

variable {b : Bracket} {s u v w : Text} {a i j k depth : Nat}

/-- The text from place `a` to place `i`, both of them included, is a pair of brackets around a
balanced text. -/
def Encloses (b : Bracket) (s : Text) (a i : Nat) : Prop :=
  i < s.length ∧ ∃ w, b.Balanced w ∧ s.slice a (i + 1 : Nat) = b.opening :: w ++ [b.closing]

def Levels (b : Bracket) : (depth : Nat) → Text → Prop
  | 0, w => b.Balanced w
  | depth + 1, w => ∃ u v, w = u ++ b.closing :: v ∧ b.Balanced u ∧ b.Levels depth v

theorem Levels.append (hu : b.Balanced u) (hv : b.Levels depth v) : b.Levels depth (u ++ v) := by
  cases depth with
  | zero => exact hu.append hv
  | succ depth =>
    obtain ⟨x, y, rfl, hx, hy⟩ := hv
    exact ⟨u ++ x, y, by simp, hu.append hx, hy⟩

theorem exists_levels_of_closeFrom (h : b.closeFrom (depth + 1) k w = some j) :
    ∃ u v, w = u ++ b.closing :: v ∧ j = k + u.length ∧ b.Levels depth u := by
  induction w generalizing depth k with
  | nil => cases h
  | cons c w ih =>
    rw [closeFrom] at h
    by_cases ho : c = b.opening
    · subst ho
      rw [deepen_opening, if_neg (by omega)] at h
      obtain ⟨u, v, rfl, rfl, x, y, rfl, hx, hy⟩ := ih h
      refine ⟨(b.opening :: x ++ [b.closing]) ++ y, v, by simp, ?_, .append (.wrap hx) hy⟩
      simp only [List.length_append, List.length_cons, List.length_nil]
      omega
    · by_cases hc : c = b.closing
      · subst hc
        rw [deepen_closing, Nat.add_sub_cancel] at h
        cases depth with
        | zero =>
          rw [if_pos rfl] at h
          obtain rfl := Option.some.inj h
          exact ⟨[], w, rfl, rfl, Balanced.nil⟩
        | succ depth =>
          rw [if_neg (by omega)] at h
          obtain ⟨u, v, rfl, rfl, hu⟩ := ih h
          refine ⟨b.closing :: u, v, rfl, ?_, [], u, rfl, Balanced.nil, hu⟩
          rw [List.length_cons]
          omega
      · rw [deepen_other ho hc, if_neg (by omega)] at h
        obtain ⟨u, v, rfl, rfl, hu⟩ := ih h
        refine ⟨c :: u, v, rfl, ?_, .append (u := [c]) (.other ho hc) hu⟩
        rw [List.length_cons]
        omega

theorem exists_balanced_of_closeFrom (h : b.closeFrom 0 0 (b.opening :: w) = some j) :
    ∃ u v, w = u ++ b.closing :: v ∧ j = u.length + 1 ∧ b.Balanced u := by
  rw [closeFrom, deepen_opening, if_neg (by omega)] at h
  obtain ⟨u, v, hw, hj, hu⟩ := exists_levels_of_closeFrom h
  exact ⟨u, v, hw, by omega, hu⟩

theorem encloses_iff_drop : b.Encloses s a i ↔
    ∃ w v, b.Balanced w ∧ s.drop a = b.opening :: w ++ b.closing :: v ∧ i = a + w.length + 1 := by
  constructor
  · rintro ⟨hi, w, hw, hslice⟩
    rw [Text.slice, Text.bound_natCast, Text.bound_natCast] at hslice
    have hlen : i + 1 - a = w.length + 2 := by
      have h := congrArg List.length hslice
      simp only [List.length_drop, List.length_take, List.length_append, List.length_cons,
        List.length_nil] at h
      omega
    have hle : a ≤ (s.take (i + 1)).length := by
      rw [List.length_take]
      omega
    refine ⟨w, s.drop (i + 1), hw, ?_, by omega⟩
    calc s.drop a = (s.take (i + 1) ++ s.drop (i + 1)).drop a := by rw [List.take_append_drop]
      _ = (s.take (i + 1)).drop a ++ s.drop (i + 1) := List.drop_append_of_le_length hle
      _ = b.opening :: w ++ b.closing :: s.drop (i + 1) := by rw [hslice]; simp
  · rintro ⟨w, v, hw, hs, rfl⟩
    have hs' : s.drop a = (b.opening :: w ++ [b.closing]) ++ v := by simp [hs]
    refine ⟨?_, w, hw, Text.slice_of_drop hs' ?_⟩
    · have hlt := Text.le_length_of_drop hs
      rw [List.length_cons] at hlt
      omega
    · simp only [List.length_append, List.length_cons, List.length_nil]
      omega

theorem partner_of_encloses (h : b.Encloses s a i) : b.partner s a = .ok (i : Int) := by
  obtain ⟨w, v, hw, hs, rfl⟩ := encloses_iff_drop.mp h
  exact partner_of_drop hw hs

theorem partner_cases (ha : s[a]? = some b.opening) :
    (∃ i : Nat, b.partner s a = .ok (i : Int) ∧ b.Encloses s a i) ∨ b.partner s a = .ok (-1) := by
  obtain ⟨hlt, ha⟩ := List.getElem?_eq_some_iff.mp ha
  have hs : s.drop a = b.opening :: s.drop (a + 1) := by rw [List.drop_eq_getElem_cons hlt, ha]
  cases hclose : b.closeFrom 0 0 (b.opening :: s.drop (a + 1)) with
  | none =>
    right
    rw [partner_of_opening hs, hclose]
    rfl
  | some k =>
    left
    obtain ⟨u, v, hw, rfl, hu⟩ := exists_balanced_of_closeFrom hclose
    have henc : b.Encloses s a (a + u.length + 1) :=
      encloses_iff_drop.mpr ⟨u, v, hu, by rw [hs, hw]; rfl, rfl⟩
    exact ⟨_, partner_of_encloses henc, henc⟩

theorem partner_iff_encloses (b : Bracket) (s : Text) (a : Nat) (ha : s[a]? = some b.opening) :
    (∀ i : Nat, b.partner s a = .ok (i : Int) ↔ b.Encloses s a i) ∧
    (∀ i j, b.Encloses s a i → b.Encloses s a j → i = j) ∧
    (b.partner s a = .ok (-1) ↔ ¬∃ i, b.Encloses s a i) := by
  have hunique : ∀ {i : Nat} {x : Int}, b.partner s a = .ok x → b.Encloses s a i → x = i :=
    fun hx hi => Except.ok.inj (hx.symm.trans (partner_of_encloses hi))
  refine ⟨fun i => ⟨fun hi => ?_, partner_of_encloses⟩, fun i j hi hj => ?_, ?_, ?_⟩
  · rcases partner_cases ha with ⟨j, -, hj⟩ | hnone
    · obtain rfl : i = j := by exact_mod_cast hunique hi hj
      exact hj
    · have h := Except.ok.inj (hi.symm.trans hnone)
      omega
  · exact_mod_cast hunique (partner_of_encloses hi) hj
  · rintro hnone ⟨i, hi⟩
    have h := hunique hnone hi
    omega
  · intro hno
    rcases partner_cases ha with ⟨i, -, hi⟩ | hnone
    · exact absurd ⟨i, hi⟩ hno
    · exact hnone

def nestedBraces : Text := "x\x7ba(\x7b\x7d\x7d\x7d".toList

theorem nestedBraces_partner :
    nestedBraces[1]? = some brace.opening ∧ brace.Encloses nestedBraces 1 6 ∧
      ∀ j, brace.Encloses nestedBraces 1 j → j = 6 := by
  have ha : nestedBraces[1]? = some brace.opening := by decide
  obtain ⟨hfound, hunique, -⟩ := partner_iff_encloses brace nestedBraces 1 ha
  have h : brace.Encloses nestedBraces 1 6 :=
    (hfound 6).mp (Scan.eq_ok_of_toOption (by decide +kernel))
  exact ⟨ha, h, fun j hj => hunique j 6 hj h⟩

end CodeAudit.Bracket
