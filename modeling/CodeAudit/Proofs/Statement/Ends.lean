import CodeAudit.Proofs.Pattern.Found
import CodeAudit.Proofs.Runs
import CodeAudit.Proofs.Statement.Bounds
import CodeAudit.Proofs.Token
import Mathlib.Logic.Relation

namespace CodeAudit

namespace Statement

variable {s : Text} {q : Nat} {i : Int} {p : Pattern} {x : Span}

def BranchEnd (s : Text) (q : Nat) (stop : Int) : Prop :=
  ∃ m head t first, (Shape.indented Shape.ifHead).matchAt s q = some m ∧
    Bracket.paren.partner s (m.stop - 1) = .ok head ∧ Token.next s (head + 1) = .ok t ∧
    branchEnd s t m.stop = .ok first ∧ Relation.ReflTransGen (Leads (elseRound s)) first stop

def OpenElse (s : Text) (stop : Int) : Prop :=
  ∃ t u v, Token.next s (stop + 1) = .ok t ∧ t.is "else" = true ∧ Token.next s t.stop = .ok u ∧
    u.is "if" = true ∧ Token.next s u.stop = .ok v ∧ v.is "(" = true ∧
    Bracket.paren.partner s v.start = .ok (-1)

/-- The end of the statement at `q` is looked for in vain. -/
inductive Unended (s : Text) (q : Nat) : Prop where
  | line (p : Pattern) (hp : p ∈ [Shape.stream, Shape.assignment]) (m : Match)
      (hm : p.matchAt s q = some m) (hend : s.find ';' m.stop = -1)
  | block (p : Pattern) (hp : p ∈ [Shape.whileHead, Shape.switchHead]) (m : Match)
      (hm : (Shape.indented p).matchAt s q = some m)
      (hend : Bracket.brace.partner s (m.stop - 1) = .ok (-1))
  | doLoop (m : Match) (stop : Int) (hm : Shape.doHead.matchAt s q = some m)
      (hstop : Bracket.brace.partner s (m.stop - 1) = .ok stop)
      (hend : stop = -1 ∨ s.find ';' (stop + 1) = -1)
  | foreachLoop (m : Match) (head : Int) (hm : Shape.foreachHead.matchAt s q = some m)
      (hhead : Bracket.paren.partner s (m.stop - 1) = .ok head)
      (hend : head = -1 ∨ s.find '{' (head + 1) = -1 ∨
        Bracket.brace.partner s (s.find '{' (head + 1)) = .ok (-1))
  | branch (stop : Int) (h : BranchEnd s q stop) (hend : stop = -1 ∨ OpenElse s stop)

theorem le_stop_of_matchAt {m : Match} (hq : q ≤ s.length) (hm : p.matchAt s q = some m) :
    q ≤ m.stop := by
  obtain ⟨hstart, hle, -⟩ := Pattern.matchAt_eq_some hm
  omega

theorem whole_on (hq : q ≤ s.length) (h : whole p s q = some x) : q ≤ x.stop + 1 := by
  obtain ⟨m, hm, -, hstop⟩ := whole_eq_some h
  have hle := le_stop_of_matchAt hq hm
  omega

theorem line_on (hp : p ∈ [Shape.stream, Shape.assignment]) {m : Match} (hq : q ≤ s.length)
    (hm : p.matchAt s q = some m) : q ≤ s.find ';' m.stop + 1 ∨ Unended s q := by
  have hle := le_stop_of_matchAt hq hm
  rcases Text.le_find s ';' (Int.natCast_nonneg m.stop) with h | h
  · exact .inr (.line p hp m hm h)
  · exact .inl (by omega)

theorem braced_ends (p : Pattern) (s : Text) (i : Int) :
    Scan.Ensures (braced p s i) fun found => ∀ x, found = some x →
      ∃ m, p.matchAt s i = some m ∧ Bracket.brace.partner s (m.stop - 1) = .ok x.stop := by
  unfold braced
  split
  · simp
  · rename_i m hm
    simp only [Scan.ensures_bind]
    intro stop hstop
    simp only [Scan.ensures_pure, Option.some.injEq]
    rintro x rfl
    exact ⟨m, hm, hstop⟩

theorem partner_on {m : Match} (b : Bracket) (hq : q ≤ s.length)
    (hm : p.matchAt s q = some m) {j : Int} (hj : b.partner s (m.stop - 1) = .ok j) :
    q ≤ j + 1 ∨ j = -1 := by
  have hle := le_stop_of_matchAt hq hm
  rcases b.le_partner s _ j hj with h | h <;> omega

theorem forStatement_on (hq : q ≤ s.length) :
    Scan.Ensures (forStatement s q) fun found => ∀ x, found = some x → q ≤ x.stop + 1 := by
  simp only [forStatement, Scan.ensures_bind]
  refine Scan.ensures_mono (braced_ends _ _ _) ?_
  intro found hfound
  split
  · simp only [Scan.ensures_bind, Scan.ensures_throw]
  · rename_i hend
    simp only [Scan.ensures_pure]
    rintro x rfl
    obtain ⟨m, hm, hstop⟩ := hfound x rfl
    apply (partner_on .brace hq hm hstop).resolve_right
    simpa using hend

theorem block_on (hp : p ∈ [Shape.whileHead, Shape.switchHead]) (hq : q ≤ s.length) :
    Scan.Ensures (braced (Shape.indented p) s q) fun found =>
      ∀ x, found = some x → q ≤ x.stop + 1 ∨ Unended s q := by
  refine Scan.ensures_mono (braced_ends _ _ _) ?_
  intro found hfound x hx
  obtain ⟨m, hm, hstop⟩ := hfound x hx
  rcases partner_on .brace hq hm hstop with h | h
  · exact .inl h
  · exact .inr (.block p hp m hm (hstop.trans (congrArg _ h)))

theorem doStatement_on (hq : q ≤ s.length) :
    Scan.Ensures (doStatement s q) fun found =>
      ∀ x, found = some x → q ≤ x.stop + 1 ∨ Unended s q := by
  simp only [doStatement, Scan.ensures_bind]
  refine Scan.ensures_mono (braced_ends _ _ _) ?_
  intro found hfound
  split
  · rename_i x
    obtain ⟨m, hm, hstop⟩ := hfound x rfl
    simp only [Scan.ensures_bind]
    intro c _
    split
    · simp only [Scan.ensures_bind, Scan.ensures_throw]
    · simp only [Scan.ensures_bind]
      intro t _
      split
      · simp only [Scan.ensures_pure, Option.some.injEq]
        rintro y rfl
        rcases partner_on .brace hq hm hstop with h | h
        · rcases Text.le_find s ';' (show 0 ≤ x.stop + 1 by omega) with hend | hend
          · exact .inr (.doLoop m _ hm hstop (.inr hend))
          · exact .inl (show (q : Int) ≤ s.find ';' (x.stop + 1) + 1 by omega)
        · exact .inr (.doLoop m _ hm hstop (.inl h))
      · simp only [Scan.ensures_bind, Scan.ensures_throw]
  · simp

theorem foreachStatement_on (hq : q ≤ s.length) :
    Scan.Ensures (foreachStatement s q) fun found =>
      ∀ x, found = some x → q ≤ x.stop + 1 ∨ Unended s q := by
  unfold foreachStatement
  split
  · rename_i m hm
    simp only [Scan.ensures_bind]
    intro head hhead stop hstop
    simp only [Scan.ensures_pure, Option.some.injEq]
    rintro x rfl
    rcases partner_on .paren hq hm hhead with h | h
    · rcases Text.le_find s '{' (show 0 ≤ head + 1 by omega) with hopen | hopen
      · exact .inr (.foreachLoop m head hm hhead (.inr (.inl hopen)))
      · rcases Bracket.le_partner .brace s _ stop hstop with hend | hend
        · exact .inr (.foreachLoop m head hm hhead (.inr (.inr (hstop.trans (congrArg _ hend)))))
        · exact .inl (show (q : Int) ≤ stop + 1 by omega)
    · exact .inr (.foreachLoop m head hm hhead (.inl h))
  · simp

theorem branchEnd_on {t : Token} (ht : q ≤ t.start) (hi : q ≤ i) :
    Scan.Ensures (branchEnd s t i) fun stop => q ≤ stop ∨ stop = -1 := by
  unfold branchEnd
  split
  · simp only [Scan.ensures_bind]
    refine Scan.ensures_mono (Bracket.le_partner .brace s t.start) ?_
    intro stop hstop
    split
    · simp only [Scan.ensures_bind, Scan.ensures_throw]
    · simp only [Scan.ensures_pure]
      omega
  · have hle := Text.le_find s ';' (show 0 ≤ i by omega)
    simp only [Scan.ensures_pure]
    omega

theorem elseRound_on {stop : Int} (hon : q ≤ stop + 1) :
    Scan.Ensures (elseRound s stop) fun z => match z with
      | .done e => e = stop
      | .again e => q ≤ e ∨ e = -1 ∨ OpenElse s stop := by
  simp only [elseRound, Scan.ensures_bind]
  intro t ht
  have htstart := Token.start_lt_of_next ht
  split
  · rename_i helse
    simp only [Scan.ensures_bind]
    intro u hu
    have hustart := Token.start_lt_of_next hu
    split
    · rename_i hif
      simp only [Scan.ensures_bind]
      intro v hv
      split
      · rename_i hparen
        have hvstart := Token.start_lt_of_next hv
        simp only [Scan.ensures_bind]
        intro head hhead w hw
        have hwstart := Token.start_lt_of_next hw
        rcases Bracket.le_partner .paren s _ head hhead with h | h
        · intro e _
          simp only [Scan.ensures_pure]
          exact .inr (.inr ⟨t, u, v, ht, helse, hu, hif, hv, hparen, hhead.trans (congrArg _ h)⟩)
        · refine Scan.ensures_mono (branchEnd_on (q := q) (by omega) (by omega)) ?_
          intro e he
          simp only [Scan.ensures_pure]
          omega
      · simp only [Scan.ensures_bind, Scan.ensures_throw]
    · simp only [Scan.ensures_bind]
      refine Scan.ensures_mono (branchEnd_on (q := q) (by omega) (by omega)) ?_
      intro e he
      simp only [Scan.ensures_pure]
      omega
  · simp only [Scan.ensures_pure]

theorem BranchEnd.next {e stop : Int} (h : BranchEnd s q e) (hnext : Leads (elseRound s) e stop) :
    BranchEnd s q stop := by
  obtain ⟨m, head, t, first, hm, hhead, ht, hbranch, hpath⟩ := h
  exact ⟨m, head, t, first, hm, hhead, ht, hbranch, hpath.tail hnext⟩

theorem elseRounds_on {first : Int} (hfirst : BranchEnd s q first)
    (hon : q ≤ first + 1 ∨ Unended s q) (states : Nat) :
    Scan.Ensures (rounds (elseRound s) states first) fun stop => q ≤ stop + 1 ∨ Unended s q := by
  refine Scan.ensures_rounds (fun e => BranchEnd s q e ∧ (q ≤ e + 1 ∨ Unended s q)) ?_ states first
    ⟨hfirst, hon⟩
  rintro e ⟨he, hon | hend⟩ z hz
  · have h := elseRound_on hon z hz
    cases z with
    | done stop => exact .inl (show (q : Int) ≤ stop + 1 by rw [h]; exact hon)
    | again stop =>
      have hstop : BranchEnd s q stop := he.next hz
      refine ⟨hstop, ?_⟩
      rcases h with h | h | h
      · exact .inl (by omega)
      · exact .inr (.branch stop hstop (.inl h))
      · exact .inr (.branch e he (.inr h))
  · cases z with
    | done stop => exact .inr hend
    | again stop => exact ⟨he.next hz, .inr hend⟩

theorem ifStatement_on (hq : q ≤ s.length) :
    Scan.Ensures (ifStatement s q) fun found =>
      ∀ x, found = some x → q ≤ x.stop + 1 ∨ Unended s q := by
  unfold ifStatement
  split
  · rename_i m hm
    simp only [Scan.ensures_bind]
    intro head hhead
    split
    · simp only [Scan.ensures_bind, Scan.ensures_throw]
    · rename_i hne
      simp only [Scan.ensures_bind]
      intro t ht first hfirst
      have hhead' := (partner_on .paren hq hm hhead).resolve_right (by simpa using hne)
      have htstart := Token.start_lt_of_next ht
      have hbranch : BranchEnd s q first := ⟨m, head, t, first, hm, hhead, ht, hfirst, .refl⟩
      have hon : q ≤ first + 1 ∨ Unended s q := by
        rcases branchEnd_on (q := q) (by omega) (Int.ofNat_le.mpr (le_stop_of_matchAt hq hm)) first
          hfirst with h | h
        · exact .inl (by omega)
        · exact .inr (.branch first hbranch (.inl h))
      refine Scan.ensures_mono (elseRounds_on hbranch hon _) ?_
      intro stop hstop
      simp only [Scan.ensures_pure, Option.some.injEq]
      rintro x rfl
      exact hstop
  · simp

end Statement

end CodeAudit
