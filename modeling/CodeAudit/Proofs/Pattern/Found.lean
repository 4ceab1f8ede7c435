import CodeAudit.Proofs.Pattern.Reading
import CodeAudit.Proofs.Text.Position

namespace CodeAudit.Pattern

variable {p : Pattern} {s : Text} {m : Match} {a : Nat}

def placeAt (s : Text) (a : Nat) : Place := ⟨a, s.drop a, []⟩

theorem placeAt_onward {y : Place} (ha : a ≤ s.length) (h : (placeAt s a).Onward y) :
    a ≤ y.pos ∧ y.pos ≤ s.length ∧ y.rest = s.drop y.pos := by
  obtain ⟨w, hw, hp⟩ := h
  simp only [placeAt] at hw hp
  have hl := congrArg List.length hw
  rw [List.length_drop, List.length_append] at hl
  refine ⟨by omega, by omega, ?_⟩
  rw [hp, ← List.drop_drop, hw, List.drop_left]

theorem matchHere_eq_some (ha : a ≤ s.length) (h : p.matchHere s a (s.drop a) = some m) :
    m.start = a ∧ a ≤ m.stop ∧ m.stop ≤ s.length ∧
      ⟨m.stop, s.drop m.stop, m.groups⟩ ∈ p.ends s (placeAt s a) := by
  rw [matchHere_eq, Option.map_eq_some_iff] at h
  obtain ⟨y, hy, rfl⟩ := h
  have hmem : y ∈ p.ends s (placeAt s a) := List.mem_of_mem_head? hy
  obtain ⟨h1, h2, h3⟩ := placeAt_onward ha (ends_onward hmem)
  exact ⟨rfl, h1, h2, h3 ▸ hmem⟩

theorem matchHere_eq_none_iff :
    p.matchHere s a (s.drop a) = none ↔ p.ends s (placeAt s a) = [] := by
  rw [matchHere_eq, Option.map_eq_none_iff, List.head?_eq_none_iff]
  rfl

theorem matchAt_eq_matchHere (p : Pattern) (s : Text) (i : Int) :
    p.matchAt s i = p.matchHere s (min i.toNat s.length) (s.drop (min i.toNat s.length)) := by
  simp only [matchAt, Text.seek_eq, Text.drop_min_length]

theorem matchAt_natCast (ha : a ≤ s.length) : p.matchAt s a = p.matchHere s a (s.drop a) := by
  rw [matchAt_eq_matchHere, Int.toNat_natCast, Nat.min_eq_left ha]

theorem matchAt_eq_some {i : Int} (h : p.matchAt s i = some m) :
    m.start = min i.toNat s.length ∧ m.start ≤ m.stop ∧ m.stop ≤ s.length ∧
      ⟨m.stop, s.drop m.stop, m.groups⟩ ∈ p.ends s (placeAt s m.start) := by
  rw [matchAt_eq_matchHere] at h
  obtain ⟨h1, h2, h3, h4⟩ := matchHere_eq_some (Nat.min_le_right ..) h
  exact ⟨h1, h1 ▸ h2, h3, h1 ▸ h4⟩

theorem searchHere_eq_some (ha : a ≤ s.length) (h : p.searchHere s a (s.drop a) = some m) :
    a ≤ m.start ∧ m.start ≤ s.length ∧
      p.matchHere s m.start (s.drop m.start) = some m := by
  generalize hrest : s.drop a = rest at h
  induction rest generalizing a with
  | nil =>
    rw [searchHere, ← hrest] at h
    obtain ⟨rfl, -⟩ := matchHere_eq_some ha h
    exact ⟨Nat.le_refl _, ha, h⟩
  | cons x xs ih =>
    have hlt : a < s.length := by
      have := congrArg List.length hrest
      simp only [List.length_drop, List.length_cons] at this
      omega
    have hxs : s.drop (a + 1) = xs := by
      rw [← List.drop_drop, hrest, List.drop_succ_cons, List.drop_zero]
    rw [searchHere] at h
    split at h
    · rename_i n hn
      rw [← hrest] at hn
      obtain rfl := Option.some.inj h
      obtain ⟨rfl, -⟩ := matchHere_eq_some ha hn
      exact ⟨Nat.le_refl _, ha, hn⟩
    · obtain ⟨h1, h2⟩ := ih hlt hxs h
      exact ⟨by omega, h2⟩

theorem search_eq_some (h : p.search s 0 = some m) :
    m.start ≤ m.stop ∧ m.stop ≤ s.length ∧
      ⟨m.stop, s.drop m.stop, m.groups⟩ ∈ p.ends s (placeAt s m.start) := by
  have hseek : s.seek 0 = (0, s.drop 0) := Text.seek_natCast (Nat.zero_le _)
  rw [search, hseek] at h
  obtain ⟨-, h2, h3⟩ := searchHere_eq_some (Nat.zero_le _) h
  exact (matchHere_eq_some h2 h3).2

end CodeAudit.Pattern
