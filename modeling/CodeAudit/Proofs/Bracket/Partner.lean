import CodeAudit.Bracket
import CodeAudit.Proofs.Text.Scanning

namespace CodeAudit.Bracket

variable {s w : Text} {i : Int}

theorem neg_one_le_partner (b : Bracket) (hi : -1 ≤ i) :
    Scan.Ensures (b.partner s i) fun j => -1 ≤ j := by
  simp only [partner, Scan.ensures_bind]
  intro c _
  split
  · simp only [Scan.ensures_bind]
    intro w _
    split
    · simp only [Scan.ensures_pure]
      omega
    · simp
  · simp

theorem le_partner (b : Bracket) (s : Text) (i : Int) :
    Scan.Ensures (b.partner s i) fun j => j = -1 ∨ i ≤ j := by
  simp only [partner, Scan.ensures_bind]
  intro c _
  split
  · simp only [Scan.ensures_bind]
    intro w _
    split
    · simp only [Scan.ensures_pure]
      omega
    · simp
  · simp

theorem closeFrom_eq_some {b : Bracket} {w : Text} {depth k j : Nat} (hd : 0 < depth)
    (h : b.closeFrom depth k w = some j) : ∃ n, j = k + n ∧ w[n]? = some b.closing := by
  induction w generalizing depth k with
  | nil => simp [closeFrom] at h
  | cons c w ih =>
    rw [closeFrom] at h
    split at h
    · rename_i hzero
      obtain rfl := Option.some.inj h
      refine ⟨0, rfl, ?_⟩
      simp only [deepen, beq_iff_eq] at hzero
      split at hzero
      · omega
      · split at hzero
        · rename_i hc
          rw [hc]
          rfl
        · omega
    · rename_i hdeep
      obtain ⟨n, rfl, hn⟩ := ih (Nat.pos_of_ne_zero hdeep) h
      exact ⟨n + 1, by omega, by simpa using hn⟩

theorem partner_closing {b : Bracket} {a : Nat} (ha : s[a]? = some b.opening) :
    Scan.Ensures (b.partner s a) fun j =>
      j = -1 ∨ ∃ n : Nat, j = n ∧ s[n]? = some b.closing := by
  obtain ⟨hlt, ha⟩ := List.getElem?_eq_some_iff.mp ha
  have hdrop : s.drop a = b.opening :: s.drop (a + 1) := by
    rw [List.drop_eq_getElem_cons hlt, ha]
  have hon : s.onward a = .ok (b.opening :: s.drop (a + 1)) := by
    simp [Text.onward, Text.onward?, hdrop]
  simp only [partner, Scan.ensures_bind]
  intro c _
  split
  · simp only [Scan.ensures_bind]
    intro w hw
    obtain rfl : b.opening :: s.drop (a + 1) = w := Except.ok.inj (hon.symm.trans hw)
    split
    · rename_i k hk
      have hopen : b.deepen 0 b.opening = 1 := by simp [deepen]
      rw [closeFrom, hopen, if_neg (by omega)] at hk
      obtain ⟨n, rfl, hn⟩ := closeFrom_eq_some (by omega) hk
      simp only [Scan.ensures_pure]
      refine .inr ⟨a + (0 + 1 + n), by omega, ?_⟩
      rw [List.getElem?_drop] at hn
      rw [← hn]
      congr 1
      omega
    · simp
  · simp

theorem closeFrom_lt {e : Bracket} {depth k j : Nat}
    (h : e.closeFrom depth k w = some j) : j < k + w.length := by
  induction w generalizing depth k with
  | nil => simp [closeFrom] at h
  | cons a w ih =>
    rw [closeFrom] at h
    rw [List.length_cons]
    split at h
    · obtain rfl := Option.some.inj h
      omega
    · have := ih h
      omega

theorem bound_partner_lt (e : Bracket) (s : Text) (i : Int) :
    Scan.Ensures (e.partner s i) fun j => s.bound j < s.length := by
  simp only [partner, Scan.ensures_bind]
  intro d hd
  have hlen := Text.length_pos_of_charAt hd
  have hlast : s.bound (-1) < s.length := by
    rw [Text.bound, if_pos (by omega)]
    omega
  split
  · simp only [Scan.ensures_bind]
    refine Scan.ensures_mono (Text.onward_length s i) ?_
    intro v hv
    split
    · rename_i k hk
      have h := closeFrom_lt hk
      have hle := hv (by omega)
      simp only [Scan.ensures_pure]
      rw [Text.bound]
      split <;> omega
    · simpa only [Scan.ensures_pure] using hlast
  · simp

end CodeAudit.Bracket
