import CodeAudit.Proofs.Nesting.Lines
import CodeAudit.Proofs.Statement.FinalBreak

namespace CodeAudit

open Scan

variable {s : Text} {i : Int}

def Span.Headed (s : Text) (x : Span) : Prop :=
  ∃ a : Nat, x.start = a ∧ '(' ∈ s.drop a ∧ x.stop < s.length

namespace Bracket

theorem partner_lt (b : Bracket) (s : Text) (i : Int) :
    Ensures (b.partner s i) fun j => j < s.length := by
  refine ensures_mono (b.bound_partner_lt s i) ?_
  intro j hj
  rw [Text.bound] at hj
  split at hj <;> omega

end Bracket

namespace Statement

theorem braced_lt (p : Pattern) (s : Text) (i : Int) :
    Ensures (braced p s i) fun found => ∀ x, found = some x → x.stop < s.length := by
  refine ensures_mono (braced_ends p s i) ?_
  intro found hfound x hx
  obtain ⟨m, -, hstop⟩ := hfound x hx
  exact Bracket.partner_lt .brace s _ _ hstop

theorem forStatement_lt (s : Text) (i : Int) :
    Ensures (forStatement s i) fun found => ∀ x, found = some x → x.stop < s.length := by
  simp only [forStatement, ensures_bind]
  refine ensures_mono (braced_lt _ s i) ?_
  intro found hfound
  split
  · simp only [ensures_bind, ensures_throw]
  · simpa only [ensures_pure] using hfound

theorem branchEnd_lt (s : Text) (t : Token) (i : Int) :
    Ensures (branchEnd s t i) fun stop => stop < s.length := by
  unfold branchEnd
  split
  · simp only [ensures_bind]
    refine ensures_mono (Bracket.partner_lt .brace s _) ?_
    intro stop hstop
    split
    · simp only [ensures_bind, ensures_throw]
    · simpa only [ensures_pure] using hstop
  · simpa only [ensures_pure] using Text.find_lt s ';' i

theorem elseRound_lt {stop : Int} (hstop : stop < s.length) :
    Ensures (elseRound s stop) fun z => match z with | .done j | .again j => j < s.length := by
  have hagain : ∀ t : Token, Ensures (branchEnd s t t.stop) fun stop =>
      Ensures (pure (Round.again stop) : Scan (Round Int Int))
        fun z => match z with | .done j | .again j => j < s.length := by
    intro t
    refine ensures_mono (branchEnd_lt s t _) ?_
    intro stop hstop
    simpa only [ensures_pure] using hstop
  simp only [elseRound, ensures_bind]
  intro t _
  split
  · simp only [ensures_bind]
    intro u _
    split
    · simp only [ensures_bind]
      intro v _
      split
      · simp only [ensures_bind]
        intro head _ w _
        exact hagain w
      · simp only [ensures_bind, ensures_throw]
    · simp only [ensures_bind]
      exact hagain u
  · simpa only [ensures_pure] using hstop

theorem ifStatement_lt (s : Text) (i : Int) :
    Ensures (ifStatement s i) fun found => ∀ x, found = some x → x.stop < s.length := by
  unfold ifStatement
  split
  · simp only [ensures_bind]
    intro head _
    split
    · simp only [ensures_bind, ensures_throw]
    · simp only [ensures_bind]
      intro t _
      refine ensures_mono (branchEnd_lt s t _) ?_
      intro first hfirst
      have hrounds : Ensures (rounds (elseRound s) (s.length + 2) first) fun e => e < s.length := by
        refine ensures_rounds (fun e : Int => e < s.length) ?_ _ _ hfirst
        intro e he
        refine ensures_mono (elseRound_lt he) ?_
        intro z hz
        cases z <;> exact hz
      refine ensures_mono hrounds ?_
      intro stop hstop
      simp only [ensures_pure, Option.some.injEq]
      rintro x rfl
      exact hstop
  · simp

end Statement

namespace Nesting

theorem measured_headed {keyword : String} {form : Text → Int → Scan (Option Span)}
    (h : (keyword, form) ∈ measured) :
    Ensures (form s i) fun found => ∀ x, found = some x → x.Headed s := by
  have hspan : ∀ p : Pattern, (Shape.indented p).isPlain = true →
      (Shape.indented p).staysIn (.other (.among ['('])) = false → ∀ {form : Scan (Option Span)},
      (Ensures form fun found => ∀ x, found = some x → Statement.Begins (Shape.indented p) s i x) →
      (Ensures form fun found => ∀ x, found = some x → x.stop < s.length) →
      Ensures form fun found => ∀ x, found = some x → x.Headed s := by
    intro p hp hstay form hbegins hlt found hfound x hx
    obtain ⟨⟨m, hm, hstart⟩, -⟩ := hbegins found hfound x hx
    obtain ⟨-, -, -, hmem⟩ := Pattern.matchAt_eq_some hm
    obtain ⟨w, hw, -, hr⟩ := Pattern.reads_of_mem_ends hp hmem
    refine ⟨m.start, hstart, ?_, hlt found hfound x hx⟩
    have hparen : '(' ∈ w := by
      apply Decidable.byContradiction
      intro hno
      rw [Pattern.staysIn_of_reads hr] at hstay
      · cases hstay
      · intro a ha
        have hne : a ≠ '(' := ne_of_mem_of_not_mem ha hno
        simp [CharClass.has, hne]
    change s.drop m.start = _ at hw
    rw [hw]
    exact List.mem_append_left _ hparen
  simp only [measured, List.mem_cons, Prod.mk.injEq, List.not_mem_nil, or_false] at h
  rcases h with ⟨-, rfl⟩ | ⟨-, rfl⟩ | ⟨-, rfl⟩ | ⟨-, rfl⟩
  · exact hspan Shape.ifHead (by decide) (by decide) Statement.ifStatement_begins
      (Statement.ifStatement_lt s i)
  · exact hspan Shape.forHead (by decide) (by decide) Statement.forStatement_begins
      (Statement.forStatement_lt s i)
  · exact hspan Shape.whileHead (by decide) (by decide) (Statement.braced_begins _)
      (Statement.braced_lt _ s i)
  · exact hspan Shape.switchHead (by decide) (by decide) (Statement.braced_begins _)
      (Statement.braced_lt _ s i)

theorem measured_refined {keyword : String} {form : Text → Int → Scan (Option Span)}
    (h : (keyword, form) ∈ measured) (s : Text) (i : Int) :
    (form s i).Refined (form s.ended i) := by
  simp only [measured, List.mem_cons, Prod.mk.injEq, List.not_mem_nil, or_false] at h
  rcases h with ⟨-, rfl⟩ | ⟨-, rfl⟩ | ⟨-, rfl⟩ | ⟨-, rfl⟩
  · exact Statement.ifStatement_refined s i
  · exact Statement.forStatement_refined s i
  · exact Statement.braced_refined (by decide) s i
  · exact Statement.braced_refined (by decide) s i

theorem first?_refined {forms : List (String × (Text → Int → Scan (Option Span)))}
    (hforms : ∀ y ∈ forms, (y.2 s i).Refined (y.2 s.ended i)) :
    (first? s i forms).Refined (first? s.ended i forms) := by
  induction forms with
  | nil => exact Refined.refl _
  | cons y forms ih =>
    apply (hforms y List.mem_cons_self).bind
    intro found _
    cases found with
    | none => exact ih fun z hz => hforms z (List.mem_cons_of_mem _ hz)
    | some x => exact Refined.refl _

theorem round_refined {inner inner' : String → Span → Scan (Nat × List Report)} {stop : Int}
    (hstop : stop < s.length)
    (hinner : ∀ keyword x, x.Headed s → (inner keyword x).Refined (inner' keyword x)) (c : Count) :
    (round inner s stop c).Refined (round inner' s.ended stop c) := by
  apply Refined.ite
  · intro hlt
    apply (first?_refined fun y hy => measured_refined hy s c.pos).bind
    intro found hfound
    cases found with
    | none =>
      rw [Text.lineEnd_ended (by omega)]
      exact Refined.refl _
    | some y =>
      obtain ⟨keyword, x⟩ := y
      obtain ⟨form, hmem, hform⟩ := first?_mem measured _ hfound keyword x rfl
      have hx := measured_headed hmem _ hform x rfl
      have hend : x.stop < s.length := hx.elim fun _ h => h.2.2
      apply (hinner keyword x hx).bind
      intro z _
      rw [Text.lineEnd_ended (Int.le_of_lt hend)]
      exact Refined.refl _
  · intro _
    exact Refined.refl _

theorem measure_refined {depth depth' : Nat} (hdepth : depth ≤ depth') {keyword : String} {x : Span}
    (hx : x.Headed s) : (measure s depth keyword x).Refined (measure s.ended depth' keyword x) := by
  induction depth generalizing depth' keyword x with
  | zero => exact refined_throw _ _
  | succ depth ih =>
    obtain ⟨depth', rfl⟩ : ∃ k, depth' = k + 1 := ⟨depth' - 1, by omega⟩
    obtain ⟨start, stop⟩ := x
    obtain ⟨a, rfl, hparen, hstop⟩ := hx
    have ha : a ≤ s.length := by
      apply Nat.le_of_not_lt
      intro hlt
      rw [List.drop_eq_nil_of_le (Nat.le_of_lt hlt)] at hparen
      cases hparen
    have hfind : ∀ d, d ≠ '\n' → s.ended.find d a = s.find d a :=
      fun d hd => Text.find_ended hd (Int.natCast_nonneg a)
    have hopen : 0 ≤ s.find '(' a := by
      rcases Text.find_cases s '(' a with ⟨-, hno⟩ | ⟨n, hn, -⟩
      · rw [Text.bound_natCast] at hno
        exact absurd hparen hno
      · omega
    rw [measure, measure, hfind '(' (by decide), hfind ')' (by decide)]
    apply (Bracket.partner_ended .paren hopen).bind
    intro head hhead
    have hlen := Bracket.partner_lt .paren s _ head hhead
    rw [Text.lineEnd_ended (Int.le_of_lt hlen)]
    have hrounds : ∀ c : Count,
        (rounds (round (measure s depth) s stop) (s.length + 2) c).Refined
          (rounds (round (measure s.ended depth') s.ended stop) (s.ended.length + 2) c) := by
      intro c
      apply Refined.rounds (fun _ => True)
      · intro c _
        exact round_refined hstop (fun _ _ hy => ih (by omega) hy) c
      · exact fun _ _ _ _ _ _ => trivial
      · rw [Text.length_ended]
        omega
      · trivial
    apply (hrounds _).bind
    intro c _
    have hclose := Text.find_lt s ')' a
    have hle := Text.neg_one_le_find s ')' a
    have hslice : s.ended.slice a (s.find ')' a + 1) = s.slice a (s.find ')' a + 1) :=
      Text.slice_ended (Int.natCast_nonneg a) (by omega) (by omega)
    simp only [hslice, Text.lineOf_ended ha]
    exact Refined.refl _

theorem check_refined {keyword : String} {x : Span} (hx : x.Headed s) :
    (check s keyword x).Refined (check s.ended keyword x) := by
  apply measure_refined _ hx
  rw [Text.length_ended]
  omega

end Nesting

end CodeAudit
