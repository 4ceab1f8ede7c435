import CodeAudit.Proofs.Pattern.FinalBreak
import CodeAudit.Proofs.Shape.Declared
import CodeAudit.Variable

namespace CodeAudit.Variable

open Pattern Shape

variable {s t n u v w : Text} {i j : Int} {m : Match} {a : Nat}

theorem charAt_of_parameter (hm : parameter.matchBefore s i j = some m) :
    s.charAt (m.stop - 1) = .ok ',' := by
  have hline : parameter.endsInLine = true := by decide
  have hlt := start_lt_stop hline hm
  obtain ⟨d, hd, hend⟩ := last_of_matchAt hline hm
  obtain rfl : ',' = d := eq_of_beq ((mayEndWith_cat_lit _ _ _).symm.trans hend)
  have hcomma : s[m.stop - 1]? = some ',' := by
    rw [List.getElem?_take] at hd
    split at hd
    · exact hd
    · cases hd
  have hplace : (m.stop : Int) - 1 = (m.stop - 1 : Nat) := by omega
  simp [Text.charAt, Text.charAt?, hplace, hcomma]

theorem parameterRound_eq (s : Text) (j i : Int) :
    parameterRound s j i = .ok (.done
      (if i < j ∧ (parameter.matchBefore s i j).isSome then some .parameterSpace else none)) := by
  unfold parameterRound
  by_cases hlt : i < j
  · cases hm : parameter.matchBefore s i j with
    | none => simp [hlt]; rfl
    | some m => simp [hlt, charAt_of_parameter hm]; rfl
  · simp [hlt]
    rfl

theorem rounds_parameterRound (s : Text) (j i : Int) (states : Nat) :
    rounds (parameterRound s j) (states + 1) i = .ok
      (if i < j ∧ (parameter.matchBefore s i j).isSome then some .parameterSpace else none) :=
  rounds_done (parameterRound_eq s j i) states

theorem parameterRule?_of_drop (hs : s.drop a = '(' :: w ++ ')' :: v) :
    parameterRule? s a (a + w.length + 1 : Nat) = .ok none := by
  have hclose : s.drop (a + w.length + 1) = ')' :: v := by
    have h := Text.drop_of_drop_append hs
    rwa [List.length_cons, ← Nat.add_assoc] at h
  have hbefore : (s.take (a + w.length + 1)).drop a = '(' :: w :=
    Text.drop_take_eq_of_drop_eq hs (by simp [Nat.add_assoc])
  have hmatch : parameter.matchBefore s a (a + w.length + 1 : Nat) = none := by
    rw [matchBefore, Int.toNat_natCast]
    exact matchAt_of_misses (k := .among []) (u := []) (by decide) (by simp) hbefore
  rw [parameterRule?, Text.charAt_of_drop hs, Text.charAt_of_drop hclose]
  simp only [rounds_parameterRound, hmatch, Option.isSome_none, Bool.false_eq_true, and_false,
    if_false]
  rfl

theorem parameter_reads (ht : t.isIdentifier = true) (hn : n.isIdentifier = true)
    (hu : ∀ b ∈ u, Text.isBlank b = true) : parameter.Reads (u ++ (t ++ ' ' :: n) ++ [',']) := by
  have hblanks : blanks.Reads u := ⟨hu, Nat.zero_le _⟩
  have hname : qualifiedName.Reads ([] ++ t) := Reads.opt_none.cat (word_reads ht)
  have hspace : (many1 (.either .blank (.among ['*', '&']))).Reads [' '] :=
    ⟨by simp only [List.forall_mem_singleton]; decide, Nat.le_refl 1⟩
  have h : parameter.Reads (u ++ [] ++ ([] ++ t) ++ [] ++ [' '] ++ n ++ [',']) :=
    (((((hblanks.cat .opt_none).cat hname).cat .opt_none).cat hspace).cat (word_reads hn)).cat rfl
  simpa using h

theorem parameterRound_of_drop {k : Nat} (ht : t.isIdentifier = true) (hn : n.isIdentifier = true)
    (hu : ∀ b ∈ u, Text.isBlank b = true) (hs : s.drop a = u ++ (t ++ ' ' :: n) ++ ',' :: w ++ v)
    (hk : k = a + (u ++ (t ++ ' ' :: n) ++ ',' :: w).length) :
    parameterRound s k a = .ok (.done (some .parameterSpace)) := by
  have hbefore : (s.take k).drop a = u ++ (t ++ ' ' :: n) ++ [','] ++ w := by
    rw [Text.drop_take_eq_of_drop_eq hs hk, List.append_assoc _ [','] w]
    rfl
  have hlen := congrArg List.length hbefore
  simp only [List.length_drop, List.length_append, List.length_cons] at hlen
  obtain ⟨m, hm, -⟩ := exists_matchAt (by omega) (parameter_reads ht hn hu) hbefore
  have hsome : (parameter.matchBefore s a k).isSome = true := by
    rw [matchBefore, Int.toNat_natCast, hm]
    rfl
  have hlt : (a : Int) < k := by
    simp only [List.length_append, List.length_cons] at hk
    omega
  rw [parameterRound_eq, if_pos ⟨hlt, hsome⟩]

end CodeAudit.Variable
