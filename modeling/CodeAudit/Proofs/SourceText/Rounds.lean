import CodeAudit.Proofs.Lint.Forms
import CodeAudit.Proofs.Text.Scanning
import CodeAudit.SourceText

namespace CodeAudit.SourceText

variable {s u v : Text} {d : Char} {a n : Nat} {old : Int} {r : List Report} {c c' : Context}

theorem rounds_of_blank (hblank : ∀ b ∈ s.drop a, Text.isBlank b = true) :
    rounds (round s) (n + 1) ⟨old, a, r⟩ c = (.ok r, c) := by
  have hround : round s ⟨old, a, r⟩ c = (.ok (.done r), c) := by
    simp only [round, Text.nextInk_of_blank hblank, Lint.lift_ok_bind]
    rfl
  rw [rounds, Lint.bind_ok hround]
  rfl

theorem rounds_of_found {x : Finding} (hs : s.drop a = u ++ d :: v)
    (hu : ∀ b ∈ u, Text.isBlank b = true) (hd : Text.isBlank d = false) (hold : old < a)
    (hfirst : Form.first forms s (a + u.length : Nat) { c with line := s.lineOf (a + u.length : Nat) } =
      (.ok (some x), c')) :
    rounds (round s) (n + 1) ⟨old, a, r⟩ c =
      rounds (round s) n ⟨(a + u.length : Nat), x.stop + 1, r ++ x.reports⟩ c' := by
  have hnext : s.nextInk a = .ok (a + u.length : Nat) := Text.nextInk_of_drop hs hu hd
  have hfound : (((a + u.length : Nat) : Int) == -1) = false := beq_false_of_ne (by omega)
  have hon : old < (a + u.length : Nat) := by omega
  have hround : round s ⟨old, a, r⟩ c =
      (.ok (.again ⟨(a + u.length : Nat), x.stop + 1, r ++ x.reports⟩), c') := by
    simp only [round, hnext, Lint.lift_ok_bind, hfound, Bool.false_eq_true, if_false, hon, if_true]
    rw [Lint.setLine_bind, Lint.bind_ok hfirst]
    rfl
  rw [rounds, Lint.bind_ok hround]

end CodeAudit.SourceText
