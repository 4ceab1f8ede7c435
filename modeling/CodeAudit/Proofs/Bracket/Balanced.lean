import CodeAudit.Bracket
import CodeAudit.Proofs.Text.Scanning

namespace CodeAudit.Bracket

inductive Balanced (b : Bracket) : Text → Prop
  | nil : Balanced b []
  | other {c : Char} (ho : c ≠ b.opening) (hc : c ≠ b.closing) : Balanced b [c]
  | wrap {w : Text} (hw : Balanced b w) : Balanced b (b.opening :: w ++ [b.closing])
  | append {u v : Text} (hu : Balanced b u) (hv : Balanced b v) : Balanced b (u ++ v)

variable {b : Bracket} {s v w : Text} {a : Nat}

theorem Balanced.of_forall (h : ∀ c ∈ w, c ≠ b.opening ∧ c ≠ b.closing) : b.Balanced w := by
  induction w with
  | nil => exact .nil
  | cons c w ih =>
    obtain ⟨ho, hc⟩ := h c List.mem_cons_self
    exact (Balanced.other ho hc).append (ih fun d hd => h d (List.mem_cons_of_mem _ hd))

theorem opening_ne_closing (b : Bracket) : b.opening ≠ b.closing := by
  cases b <;> decide

theorem deepen_opening (b : Bracket) (depth : Nat) : b.deepen depth b.opening = depth + 1 := by
  simp [deepen]

theorem deepen_closing (b : Bracket) (depth : Nat) : b.deepen depth b.closing = depth - 1 := by
  simp [deepen, b.opening_ne_closing.symm]

theorem deepen_other {c : Char} (ho : c ≠ b.opening) (hc : c ≠ b.closing) (depth : Nat) :
    b.deepen depth c = depth := by
  simp [deepen, ho, hc]

theorem closeFrom_append (h : b.Balanced w) (depth k : Nat) (rest : Text) :
    b.closeFrom (depth + 1) k (w ++ rest) = b.closeFrom (depth + 1) (k + w.length) rest := by
  induction h generalizing depth k rest with
  | nil => rfl
  | other ho hc =>
    rw [List.singleton_append, closeFrom, deepen_other ho hc, if_neg (by omega)]
    rfl
  | @wrap w hw ih =>
    rw [List.cons_append, List.cons_append, List.append_assoc, closeFrom, deepen_opening,
      if_neg (by omega), ih, List.singleton_append, closeFrom, deepen_closing, if_neg (by omega)]
    congr 1
    simp only [List.length_cons, List.length_append, List.length_nil]
    omega
  | @append u v hu hv ihu ihv =>
    rw [List.append_assoc, ihu, ihv, List.length_append, Nat.add_assoc]

theorem partner_of_opening (hs : s.drop a = b.opening :: w) :
    b.partner s a =
      (b.closeFrom 0 0 (b.opening :: w)).elim (.ok (-1)) fun k => .ok (a + k : Nat) := by
  have hon : s.onward a = .ok (b.opening :: w) := by simp [Text.onward, Text.onward?, hs]
  have hany : (all.any (·.opening == b.opening)) = true := by cases b <;> rfl
  rw [partner, Text.charAt_of_drop hs, hon]
  simp only [bind, Except.bind, hany, if_true]
  cases b.closeFrom 0 0 (b.opening :: w) <;> rfl

theorem partner_of_drop (h : b.Balanced w) (hs : s.drop a = b.opening :: w ++ b.closing :: v) :
    b.partner s a = .ok (a + w.length + 1 : Nat) := by
  have hclose : b.closeFrom 0 0 (b.opening :: (w ++ b.closing :: v)) = some (w.length + 1) := by
    rw [closeFrom, deepen_opening, if_neg (by omega), closeFrom_append h, closeFrom,
      deepen_closing, if_pos (by omega)]
    congr 1
    omega
  have hs : s.drop a = b.opening :: (w ++ b.closing :: v) := hs
  rw [partner_of_opening hs, hclose]
  rfl

end CodeAudit.Bracket
