import CodeAudit.Text.Basic
import CodeAudit.Text.Case
import CodeAudit.Text.Numeral

namespace CodeAudit.Text

def isIdentifier : Text → Bool
  | [] => false
  | c :: rest => (c.isAlpha || c == '_') && rest.all fun d => d.isAlphanum || d == '_'

variable {w : Text} {c : Char}

theorem isIdentifier_ne_nil (h : isIdentifier w = true) : w ≠ [] := by
  rintro rfl
  exact Bool.false_ne_true h

theorem char_isUpper_iff (c : Char) : c.isUpper = true ↔ 65 ≤ c.toNat ∧ c.toNat ≤ 90 := by
  delta Char.isUpper
  simp only [decide_eq_true_eq, ge_iff_le, UInt32.le_iff_toNat_le]
  exact Iff.rfl

theorem char_isLower_iff (c : Char) : c.isLower = true ↔ 97 ≤ c.toNat ∧ c.toNat ≤ 122 := by
  delta Char.isLower
  simp only [Bool.and_eq_true, decide_eq_true_eq, ge_iff_le, UInt32.le_iff_toNat_le]
  exact Iff.rfl

theorem char_isDigit_iff (c : Char) : c.isDigit = true ↔ 48 ≤ c.toNat ∧ c.toNat ≤ 57 := by
  simp only [Char.isDigit, Bool.and_eq_true, decide_eq_true_eq, ge_iff_le, UInt32.le_iff_toNat_le]
  exact Iff.rfl

theorem toNat_of_isIdentifier (h : isIdentifier w = true) (hc : c ∈ w) :
    (48 ≤ c.toNat ∧ c.toNat ≤ 57) ∨ (65 ≤ c.toNat ∧ c.toNat ≤ 90) ∨ c.toNat = 95 ∨
      (97 ≤ c.toNat ∧ c.toNat ≤ 122) := by
  have hword : c.isAlphanum = true ∨ c = '_' := by
    cases w with
    | nil => exact absurd hc List.not_mem_nil
    | cons d rest =>
      simp only [isIdentifier, Bool.and_eq_true, Bool.or_eq_true, beq_iff_eq,
        List.all_eq_true] at h
      rcases List.mem_cons.mp hc with rfl | hc
      · exact h.1.imp (fun ha => by simp [Char.isAlphanum, ha]) id
      · exact h.2 c hc
  rcases hword with hword | rfl
  · delta Char.isAlphanum Char.isAlpha at hword
    simp only [Bool.or_eq_true, char_isUpper_iff, char_isLower_iff, char_isDigit_iff] at hword
    omega
  · decide

theorem isWord_of_isIdentifier (h : isIdentifier w = true) (hc : c ∈ w) : isWord c = true := by
  have hn := toNat_of_isIdentifier h hc
  have hlt : c.toNat < 128 := by omega
  simp only [isWord, hlt, if_true, Bool.or_eq_true, Bool.and_eq_true, decide_eq_true_eq,
    beq_iff_eq]
  omega

theorem not_isBlank_of_isIdentifier (h : isIdentifier w = true) (hc : c ∈ w) :
    isBlank c = false := by
  have hn := toNat_of_isIdentifier h hc
  have hlt : c.toNat < 128 := by omega
  simp only [isBlank, hlt, if_true, Bool.or_eq_false_iff, Bool.and_eq_false_iff,
    decide_eq_false_iff_not]
  omega

def isPlainWord (w : Text) : Bool :=
  !w.isEmpty && w.all fun d => d.isAlphanum || d == '_'

theorem isIdentifier_of_isPlainWord (h : isPlainWord w = true) : isIdentifier ('_' :: w) = true := by
  rw [isPlainWord, Bool.and_eq_true] at h
  exact h.2

theorem isPlainWord_ne_nil (h : isPlainWord w = true) : w ≠ [] := by
  rintro rfl
  exact Bool.false_ne_true h

theorem isUpper_of_isIdentifier (h : isIdentifier w = true) (hc : c ∈ w) :
    isUpper c = c.isUpper := by
  have hn := toNat_of_isIdentifier h hc
  have hlt : c.toNat < 128 := by omega
  rw [Bool.eq_iff_iff, char_isUpper_iff]
  simp only [isUpper, hlt, if_true, Bool.and_eq_true, decide_eq_true_eq]

theorem isDigit_of_isIdentifier (h : isIdentifier w = true) (hc : c ∈ w) :
    isDigit c = c.isDigit := by
  have hn := toNat_of_isIdentifier h hc
  have hlt : c.toNat < 128 := by omega
  rw [Bool.eq_iff_iff, char_isDigit_iff]
  simp only [isDigit, hlt, if_true, Bool.and_eq_true, decide_eq_true_eq]

theorem isLower_of_isIdentifier (h : isIdentifier w = true) (hc : c ∈ w) :
    (!isLetter c || isUpper c) = !c.isLower := by
  have hn := toNat_of_isIdentifier h hc
  have hlt : c.toNat < 128 := by omega
  rw [Bool.eq_iff_iff, Bool.not_eq_true', ← Bool.not_eq_true, char_isLower_iff]
  simp only [isLetter, isUpper, hlt, if_true, Bool.or_eq_true, Bool.and_eq_true,
    Bool.not_eq_true', decide_eq_true_eq, Bool.or_eq_false_iff, Bool.and_eq_false_iff,
    decide_eq_false_iff_not]
  omega

theorem isWord_of_isBlank (hc : isBlank c = true) : isWord c = false := by
  have hwide : ∀ n ∈ [0x85, 0xa0, 0x1680, 0x2000, 0x2001, 0x2002, 0x2003, 0x2004, 0x2005, 0x2006,
      0x2007, 0x2008, 0x2009, 0x200a, 0x2028, 0x2029, 0x202f, 0x205f, 0x3000],
      (between letterEdges n || between numericEdges n) = false := by decide +kernel
  by_cases hlt : c.toNat < 128
  · simp only [isBlank, hlt, if_true, Bool.or_eq_true, Bool.and_eq_true,
      decide_eq_true_eq] at hc
    simp only [isWord, hlt, if_true, Bool.or_eq_false_iff, Bool.and_eq_false_iff,
      decide_eq_false_iff_not, beq_eq_false_iff_ne]
    omega
  · simp only [isBlank, hlt, if_false, Bool.or_eq_true, Bool.and_eq_true, decide_eq_true_eq,
      beq_iff_eq] at hc
    simp only [isWord, hlt, if_false]
    apply hwide
    simp only [List.mem_cons, List.not_mem_nil, or_false]
    omega

theorem not_isBlank_of_isWord (hc : isWord c = true) : isBlank c = false := by
  apply Bool.eq_false_iff.mpr
  intro hblank
  rw [isWord_of_isBlank hblank] at hc
  cases hc

end CodeAudit.Text
