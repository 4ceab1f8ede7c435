import CodeAudit.Proofs.Cleaning.Comments
import CodeAudit.Proofs.Runs

namespace CodeAudit.Cleaning

open Text

variable {s : Text}

/-- Every block comment is replaced by its line breaks; `inside` says that one is open. One that
never ends is left as it is, with all that follows. -/
def dropBlocks : (inside : Bool) → Text → Text
  | _, [] => []
  | false, '/' :: '*' :: s => if ['*', '/'] <:+: s then dropBlocks true s else '/' :: '*' :: s
  | true, '*' :: '/' :: s => dropBlocks false s
  | false, c :: s => c :: dropBlocks false s
  | true, c :: s => if c = '\n' then c :: dropBlocks true s else dropBlocks true s

structure Uncommented (s : Text) : Prop where
  no_line : ¬['/', '/'] <:+: s
  no_block : ∀ u v, s = u ++ '/' :: '*' :: v → ¬['*', '/'] <:+: v

theorem strip_eq_dropBlocks (inside : Bool) (s : Text) (hs : ¬['/', '/'] <:+: s) :
    strip (if inside then .block else .code) s = dropBlocks inside s := by
  induction inside, s using dropBlocks.induct with
  | case1 inside => cases inside <;> rfl
  | case2 s hclosed ih =>
    rw [pair_infix_cons, not_or, pair_infix_cons, not_or] at hs
    simp only [Bool.false_eq_true, if_false, if_true, strip_open, dropBlocks, if_pos hclosed]
      at ih ⊢
    exact ih hs.2.2
  | case3 s hopen =>
    simp only [Bool.false_eq_true, if_false, strip_open, dropBlocks, if_neg hopen]
  | case4 s ih =>
    rw [pair_infix_cons, not_or, pair_infix_cons, not_or] at hs
    exact ih hs.2.2
  | case5 c s hblock ih =>
    rw [pair_infix_cons, not_or] at hs
    simp only [Bool.false_eq_true, if_false] at ih ⊢
    rw [strip_code_cons hs.1 (not_pair_of hblock), ih hs.2, dropBlocks]
    exact hblock
  | case6 s hclose ih =>
    rw [pair_infix_cons, not_or] at hs
    simp only [if_true] at ih ⊢
    rw [strip_block_cons (not_pair_of hclose), if_pos rfl, ih hs.2, dropBlocks, if_pos rfl]
    exact hclose
  | case7 c s hclose hc ih =>
    rw [pair_infix_cons, not_or] at hs
    simp only [if_true] at ih ⊢
    rw [strip_block_cons (not_pair_of hclose), if_neg hc, ih hs.2, dropBlocks, if_neg hc]
    exact hclose

theorem uncommented_dropBlocks (hline : ¬['/', '/'] <:+: s) : Uncommented (dropBlocks false s) := by
  have hrun : ∃ r, removeBlockComments s = .ok r ∧ Uncommented r := by
    apply rounds_of_smaller_in (P := fun _ r => Uncommented r) (fun t => ¬['/', '/'] <:+: t)
      List.length _ _ s hline (Nat.lt_succ_self _)
    intro t ht
    rcases blockCommentRound_cases t with ⟨hopen, hdone⟩ | ⟨u, w, v, -, -, -, hagain⟩
    · exact .inl ⟨t, by rw [hdone], ht, hopen⟩
    · have hnext := (blockCommentRound_takesOut ht hagain).no_line ht
      refine .inr ⟨_, by rw [hagain], hnext, (blockCommentRound_again hagain).2, ?_⟩
      exact fun _ hr => hr
  obtain ⟨r, hr, huncommented⟩ := hrun
  have hstrip := strip_eq_dropBlocks false s hline
  rw [removeBlockComments_eq hline] at hr
  obtain rfl := Except.ok.inj hr
  rwa [← hstrip]

theorem removeComments_eq_dropBlocks (s : Text) :
    removeComments s = .ok (dropBlocks false (cutLines false s)) := by
  rw [removeComments_eq, ← strip_eq_dropBlocks false _ (no_mark_cutLines false s)]
  rfl

theorem removeComments_of_uncommented (h : Uncommented s) : removeComments s = .ok s := by
  rw [removeComments_eq, cutLines_of_no_mark h.no_line, strip_of_open h.no_line h.no_block]

theorem removeComments_two_passes (s : Text) :
    let r := dropBlocks false (cutLines false s)
    removeComments s = .ok r ∧ Uncommented r ∧ removeComments r = .ok r ∧
      (∀ run, IsRun (Leads fun t => .ok (lineCommentRound t)) s run → run.IsChain TakesOut) ∧
      ∀ run, IsRun (Leads fun t => .ok (blockCommentRound t)) (cutLines false s) run →
        run.IsChain TakesOut := by
  intro r
  have hr : Uncommented r := uncommented_dropBlocks (no_mark_cutLines false s)
  refine ⟨removeComments_eq_dropBlocks s, hr, removeComments_of_uncommented hr, ?_, ?_⟩
  · rintro run ⟨-, hchain⟩
    apply hchain.imp
    intro x y hxy
    exact lineCommentRound_takesOut (Except.ok.inj hxy)
  · intro run hrun
    have hlines : ∀ x ∈ run, ¬['/', '/'] <:+: x := by
      apply hrun.forall_mem (P := fun x => ¬['/', '/'] <:+: x) (no_mark_cutLines false s)
      intro x y hxy hx
      exact (blockCommentRound_takesOut hx (Except.ok.inj hxy)).no_line hx
    apply hrun.chain.imp_of_mem_imp
    intro x y hx _ hxy
    exact blockCommentRound_takesOut (hlines x hx) (Except.ok.inj hxy)

end CodeAudit.Cleaning
