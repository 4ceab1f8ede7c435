import CodeAudit.Proofs.Bracket.Partner
import CodeAudit.Statement

namespace CodeAudit

variable {s : Text} {i : Int}

namespace Statement

theorem whole_eq_some {p : Pattern} {x : Span} (h : whole p s i = some x) :
    ∃ m, p.matchAt s i = some m ∧ x.start = m.start ∧ x.stop = (m.stop : Int) - 1 := by
  obtain ⟨m, hm, rfl⟩ := Option.map_eq_some_iff.mp h
  exact ⟨m, hm, rfl, rfl⟩

theorem upTo_eq_some {c : Char} {p : Pattern} {x : Span} (h : upTo c p s i = some x) :
    ∃ m, p.matchAt s i = some m ∧ x.start = m.start ∧ x.stop = s.find c m.stop := by
  obtain ⟨m, hm, rfl⟩ := Option.map_eq_some_iff.mp h
  exact ⟨m, hm, rfl, rfl⟩

theorem braced_of_none {p : Pattern} (h : p.matchAt s i = none) : braced p s i = .ok none := by
  rw [braced, h]
  rfl

def Begins (p : Pattern) (s : Text) (i : Int) (x : Span) : Prop :=
  (∃ m, p.matchAt s i = some m ∧ x.start = m.start) ∧ -1 ≤ x.stop

theorem braced_begins (p : Pattern) :
    Scan.Ensures (braced p s i) fun found => ∀ x, found = some x → Begins p s i x := by
  unfold braced
  split
  · simp
  · rename_i m hm
    simp only [Scan.ensures_bind]
    refine Scan.ensures_mono (Bracket.neg_one_le_partner .brace (by omega)) ?_
    intro stop hstop
    simp only [Scan.ensures_pure, Option.some.injEq]
    rintro x rfl
    exact ⟨⟨m, hm, rfl⟩, hstop⟩

theorem neg_one_le_branchEnd (t : Token) :
    Scan.Ensures (branchEnd s t i) fun stop => -1 ≤ stop := by
  unfold branchEnd
  split
  · simp only [Scan.ensures_bind]
    refine Scan.ensures_mono (Bracket.neg_one_le_partner .brace (by omega)) ?_
    intro stop hstop
    split
    · simp only [Scan.ensures_bind, Scan.ensures_throw]
    · simpa only [Scan.ensures_pure] using hstop
  · simpa only [Scan.ensures_pure] using Text.neg_one_le_find s ';' i

theorem neg_one_le_elseRound {stop : Int} (hstop : -1 ≤ stop) :
    Scan.Ensures (elseRound s stop) fun z => match z with | .done j | .again j => -1 ≤ j := by
  have hagain : ∀ (t : Token) (j : Int), Scan.Ensures (branchEnd s t j) fun stop =>
      Scan.Ensures (pure (Round.again stop) : Scan (Round Int Int))
        fun z => match z with | .done j | .again j => -1 ≤ j := by
    intro t j
    refine Scan.ensures_mono (neg_one_le_branchEnd t) ?_
    intro stop hstop
    simpa only [Scan.ensures_pure] using hstop
  simp only [elseRound, Scan.ensures_bind]
  intro t _
  split
  · simp only [Scan.ensures_bind]
    intro u _
    split
    · simp only [Scan.ensures_bind]
      intro w _
      split
      · simp only [Scan.ensures_bind]
        intro j _ x _
        exact hagain x _
      · simp only [Scan.ensures_bind, Scan.ensures_throw]
    · simp only [Scan.ensures_bind]
      exact hagain u _
  · simpa only [Scan.ensures_pure] using hstop

theorem ifStatement_begins :
    Scan.Ensures (ifStatement s i) fun found =>
      ∀ x, found = some x → Begins (Shape.indented Shape.ifHead) s i x := by
  unfold ifStatement
  split
  · rename_i m hm
    simp only [Scan.ensures_bind]
    intro j _
    split
    · simp only [Scan.ensures_bind, Scan.ensures_throw]
    · simp only [Scan.ensures_bind]
      intro t _
      refine Scan.ensures_mono (neg_one_le_branchEnd t) ?_
      intro stop hstop
      refine Scan.ensures_mono
        (Scan.ensures_rounds (fun stop => -1 ≤ stop) ?_ _ stop hstop) (Q := fun stop => -1 ≤ stop) ?_
      · intro x hx
        refine Scan.ensures_mono (neg_one_le_elseRound hx) ?_
        intro z hz
        cases z <;> exact hz
      · intro stop hstop
        simp only [Scan.ensures_pure, Option.some.injEq]
        rintro x rfl
        exact ⟨⟨m, hm, rfl⟩, hstop⟩
  · simp

theorem forStatement_begins :
    Scan.Ensures (forStatement s i) fun found =>
      ∀ x, found = some x → Begins (Shape.indented Shape.forHead) s i x := by
  simp only [forStatement, Scan.ensures_bind]
  refine Scan.ensures_mono (braced_begins _) ?_
  intro found hfound
  split
  · simp only [Scan.ensures_bind, Scan.ensures_throw]
  · simpa only [Scan.ensures_pure] using hfound

theorem doStatement_begins :
    Scan.Ensures (doStatement s i) fun found => ∀ x, found = some x → Begins Shape.doHead s i x := by
  simp only [doStatement, Scan.ensures_bind]
  refine Scan.ensures_mono (braced_begins _) ?_
  intro found hfound
  split
  · rename_i x
    obtain ⟨hstart, -⟩ := hfound x rfl
    simp only [Scan.ensures_bind]
    intro c _
    split
    · simp only [Scan.ensures_bind, Scan.ensures_throw]
    · simp only [Scan.ensures_bind]
      intro t _
      split
      · simp only [Scan.ensures_pure, Option.some.injEq]
        rintro y rfl
        exact ⟨hstart, Text.neg_one_le_find ..⟩
      · simp only [Scan.ensures_bind, Scan.ensures_throw]
  · simp

theorem foreachStatement_bounds :
    Scan.Ensures (foreachStatement s i) fun found =>
      ∀ x, found = some x → x.start = i ∧ -1 ≤ x.stop := by
  unfold foreachStatement
  split
  · simp only [Scan.ensures_bind]
    intro j _
    refine Scan.ensures_mono (Bracket.neg_one_le_partner .brace (Text.neg_one_le_find ..)) ?_
    intro stop hstop
    simp only [Scan.ensures_pure, Option.some.injEq]
    rintro x rfl
    exact ⟨rfl, hstop⟩
  · simp

end Statement

end CodeAudit
