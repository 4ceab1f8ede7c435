import CodeAudit.Proofs.Text.Position
import Mathlib.Data.List.Forall2
import Mathlib.Order.Monotone.Basic

namespace CodeAudit.Text

/-- `r` is what is left of `s` after characters other than line breaks are deleted. -/
inductive Trimmed : (r s : Text) → Prop where
  | nil : Trimmed [] []
  | keep (c : Char) {r s : Text} : Trimmed r s → Trimmed (c :: r) (c :: s)
  | delete {c : Char} {r s : Text} : c ≠ '\n' → Trimmed r s → Trimmed r (c :: s)

namespace Trimmed

variable {r s t : Text}

theorem refl : (s : Text) → Trimmed s s
  | [] => .nil
  | c :: s => .keep c (refl s)

theorem trans (hrs : Trimmed r s) (hst : Trimmed s t) : Trimmed r t := by
  induction hst generalizing r with
  | nil => exact hrs
  | keep c _ ih =>
    cases hrs with
    | keep _ hrs => exact .keep c (ih hrs)
    | delete hc hrs => exact .delete hc (ih hrs)
  | delete hc _ ih => exact .delete hc (ih hrs)

theorem append {r' s' : Text} (h : Trimmed r s) (h' : Trimmed r' s') :
    Trimmed (r ++ r') (s ++ s') := by
  induction h with
  | nil => exact h'
  | keep c _ ih => exact .keep c ih
  | delete hc _ ih => exact .delete hc ih

theorem nil_of_unbroken (h : ∀ c ∈ s, c ≠ '\n') : Trimmed [] s := by
  induction s with
  | nil => exact .nil
  | cons c s ih =>
    exact .delete (h c (by simp)) (ih fun d hd => h d (by simp [hd]))

theorem replicate_count (s : Text) : Trimmed (List.replicate (s.count '\n') '\n') s := by
  induction s with
  | nil => exact .nil
  | cons c s ih =>
    by_cases hc : c = '\n'
    · subst hc
      rw [List.count_cons_self, List.replicate_succ]
      exact .keep _ ih
    · rw [List.count_cons_of_ne hc]
      exact .delete hc ih

theorem forall₂_modifyHead {f g : Text → Text} (hfg : ∀ l m, l.Sublist m → (f l).Sublist (g m))
    {ls ms : List Text} (h : List.Forall₂ List.Sublist ls ms) :
    List.Forall₂ List.Sublist (ls.modifyHead f) (ms.modifyHead g) := by
  cases h with
  | nil => exact .nil
  | cons hl ht => exact .cons (hfg _ _ hl) ht

theorem lines (h : Trimmed r s) :
    List.Forall₂ List.Sublist (r.splitOn '\n') (s.splitOn '\n') := by
  induction h with
  | nil => simp
  | @keep c r s _ ih =>
    simp only [List.splitOn, List.splitOnP_cons_eq_if_modifyHead] at ih ⊢
    split
    · exact .cons (List.Sublist.refl _) ih
    · exact forall₂_modifyHead (fun _ _ hl => hl.cons_cons c) ih
  | @delete c r s hc _ ih =>
    simp only [List.splitOn, List.splitOnP_cons_eq_if_modifyHead] at ih ⊢
    rw [if_neg (by simpa using hc)]
    have hid := congrFun List.modifyHead_id (r.splitOnP (· == '\n'))
    rw [← id_eq (r.splitOnP _), ← hid]
    exact forall₂_modifyHead (fun _ _ hl => hl.cons c) ih

theorem exists_origin (h : Trimmed r s) :
    ∃ origin : Nat → Nat, StrictMono origin ∧
      ∀ i < r.length, s[origin i]? = r[i]? ∧ s.lineOf (origin i) = r.lineOf i := by
  simp only [lineOf_natCast]
  induction h with
  | nil => exact ⟨id, strictMono_id, by simp⟩
  | @keep c r s _ ih =>
    obtain ⟨f, hf, hrs⟩ := ih
    refine ⟨fun i => i.casesOn 0 fun j => f j + 1, ?_, ?_⟩
    · apply strictMono_nat_of_lt_succ
      intro n
      cases n with
      | zero => exact Nat.succ_pos _
      | succ n => exact Nat.succ_lt_succ (hf (Nat.lt_succ_self n))
    · intro i hi
      cases i with
      | zero => simp
      | succ i =>
        obtain ⟨h1, h2⟩ := hrs i (by simpa using hi)
        simp only [List.getElem?_cons_succ, List.take_succ_cons, List.count_cons]
        exact ⟨h1, by omega⟩
  | @delete c r s hc _ ih =>
    obtain ⟨f, hf, hrs⟩ := ih
    refine ⟨fun i => f i + 1, fun i j hij => Nat.succ_lt_succ (hf hij), ?_⟩
    intro i hi
    obtain ⟨h1, h2⟩ := hrs i hi
    simp only [List.getElem?_cons_succ, List.take_succ_cons, List.count_cons_of_ne hc]
    exact ⟨h1, h2⟩

end Trimmed

end CodeAudit.Text
