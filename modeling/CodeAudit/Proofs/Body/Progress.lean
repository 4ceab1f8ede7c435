import CodeAudit.Body
import CodeAudit.Proofs.Lint.Logic
import CodeAudit.Proofs.Statement.Ends

/-!
How the scan of a function body gets on. Each round stands further in the text than the one before
it, unless the statement between them has no end. Without such a statement there are no more rounds
than the text has characters.
-/

namespace CodeAudit

def Form.Finds (f : Form) (s : Text) (i : Int) (P : Span → Prop) : Prop :=
  ∀ c, Lint.wp (f s i) (fun found _ => ∀ x, found = some x → P x.toSpan) (fun _ => True) c

namespace Form

variable {s : Text} {i : Int} {P : Span → Prop}

theorem finds_ofSpan {f : Text → Int → Option Span} (h : ∀ x, f s i = some x → P x) :
    (ofSpan f).Finds s i P := by
  intro c
  simp only [ofSpan, Lint.wp_pure, Option.map_eq_some_iff]
  rintro _ ⟨x, hx, rfl⟩
  exact h x hx

theorem finds_ofScan {f : Text → Int → Scan (Option Span)}
    (h : Scan.Ensures (f s i) fun found => ∀ x, found = some x → P x) :
    (ofScan f).Finds s i P := by
  intro c
  simp only [ofScan, Lint.wp_bind, Lint.wp_lift_ensures, Lint.wp_pure, Option.map_eq_some_iff]
  refine Scan.ensures_mono h ?_
  rintro found hfound _ ⟨x, hx, rfl⟩
  exact hfound x hx

theorem finds_first {fs : List Form} (h : ∀ f ∈ fs, f.Finds s i P) : (first fs).Finds s i P := by
  intro c
  refine Lint.wp_first (fun _ => True) fs (by simp) ?_ c trivial
  intro f hf c _
  refine Lint.wp_mono (h f hf c) ?_
  intro found _ hfound
  cases found with
  | none => trivial
  | some x =>
    simp only
    split
    · trivial
    · exact hfound

end Form

namespace Body

open Statement

variable {s : Text} {q b n : Nat} {line : Int} {c : Context}

theorem finds_measured {i : Int} {P : Span → Prop} {keyword : String}
    {form : Text → Int → Scan (Option Span)}
    (h : Scan.Ensures (form s i) fun found => ∀ x, found = some x → P x) :
    (measured keyword form).Finds s i P := by
  intro c
  simp only [measured, Lint.wp_bind, Lint.wp_lift_ensures]
  refine Scan.ensures_mono h ?_
  intro found hfound
  cases found with
  | none => simp
  | some x =>
    simp only [Lint.wp_bind, Lint.wp_lift_ensures, Lint.wp_pure, Option.some.injEq]
    rintro z _ y rfl
    exact hfound x rfl

def GetsOn (s : Text) (q : Nat) (x : Span) : Prop := q ≤ x.stop + 1 ∨ Unended s q

theorem find_toNat_cases (s : Text) (c : Char) (q : Nat) :
    s.take (s.find c q).toNat = [] ∨ q ≤ s.find c q := by
  refine (Text.le_find s c (Int.natCast_nonneg q)).imp ?_ id
  intro h
  rw [h]
  rfl

theorem rawMemory_on (hq : q ≤ s.length) (h : (Variable.rawMemory s q).1 = true) :
    q ≤ (Variable.rawMemory s q).2 + 1 := by
  simp only [Variable.rawMemory] at h ⊢
  split at h
  · rename_i m hm
    rw [Pattern.matchBefore] at hm
    rcases find_toNat_cases s ';' q with hnil | hle
    · have hnone : Shape.rawMemory.matchHere [] 0 [] = none := by decide
      rw [hnil, Pattern.matchAt_eq_matchHere, List.length_nil, Nat.min_zero, List.drop_nil,
        hnone] at hm
      cases hm
    · obtain ⟨hstart, hstop, -⟩ := Pattern.matchAt_eq_some hm
      rw [List.length_take] at hstart
      omega
  · cases h

theorem plainCast_on (h : (Variable.plainCast s q).1 = true) :
    q ≤ (Variable.plainCast s q).2 + 1 := by
  simp only [Variable.plainCast] at h ⊢
  rcases find_toNat_cases s '\n' q with hnil | hle
  · have hnone : Shape.plainCast.searchHere [] 0 [] = none := by decide
    rw [Pattern.searchBefore, hnil, Pattern.search, Text.seek_eq, List.length_nil, Nat.min_zero,
      List.drop_nil] at h
    dsimp only at h
    rw [hnone] at h
    cases h
  · omega

theorem finds_told {found : Bool} {start stop : Int} {report : Int → Report} {P : Span → Prop}
    (h : found = true → P ⟨start, stop⟩) (c : Context) :
    Lint.wp (do
        unless found do return none
        return some ⟨⟨start, stop⟩, [report (← currentLine)]⟩ : Lint (Option Finding))
      (fun y _ => ∀ x, y = some x → P x.toSpan) (fun _ => True) c := by
  cases found with
  | false => simp
  | true =>
    simp only [if_true, Lint.wp_bind, Lint.wp_currentLine, Lint.wp_pure, Option.some.injEq]
    rintro x rfl
    exact h rfl

theorem rawMemory_finds (hq : q ≤ s.length) : rawMemory.Finds s q (GetsOn s q) :=
  finds_told fun h => .inl (rawMemory_on hq h)

theorem plainCast_finds : plainCast.Finds s q (GetsOn s q) :=
  finds_told fun h => .inl (plainCast_on h)

theorem assignment_finds (hq : q ≤ s.length) : assignment.Finds s q (GetsOn s q) := by
  intro c
  unfold assignment
  split
  · rename_i m hm
    have hon : q ≤ s.find ';' m.stop + 1 ∨ Unended s q := line_on (by simp) hq hm
    simp only
    split
    · simp only [Lint.wp_bind, Lint.wp_pure, Option.some.injEq]
      refine Lint.wp_mono (Lint.wp_trivial _) ?_
      rintro reports _ - x rfl
      exact hon
    · simp only [Lint.wp_bind, Lint.wp_pure, Option.some.injEq]
      rintro x rfl
      exact hon
  · simp

theorem declaration_finds (hq : q ≤ s.length) : declaration.Finds s q (GetsOn s q) := by
  intro c
  unfold declaration
  split
  · rename_i m hm
    simp only
    split
    · simp
    · rename_i hend
      simp only [Lint.wp_bind, Lint.wp_pure, Option.some.injEq]
      refine Lint.wp_mono (Lint.wp_trivial _) ?_
      rintro reports _ - x rfl
      have hle := le_stop_of_matchAt hq hm
      have hfind := Text.le_find s ';' (Int.natCast_nonneg m.stop)
      have hfound := hfind.resolve_left (by simpa using hend)
      exact .inl (show (q : Int) ≤ s.find ';' m.stop + 1 by omega)
  · simp

theorem forms_get_on (hq : q ≤ s.length) : ∀ f ∈ forms, f.Finds s q (GetsOn s q) := by
  have hwhole : ∀ {p : Pattern} (x : Span), whole p s q = some x → GetsOn s q x :=
    fun _ h => .inl (whole_on hq h)
  simp only [forms, List.forall_mem_cons, List.not_mem_nil, false_implies, implies_true, and_true]
  refine ⟨finds_measured (ifStatement_on hq), Form.finds_ofSpan hwhole, finds_measured ?_,
    Form.finds_ofScan (foreachStatement_on hq), Form.finds_ofSpan ?_,
    finds_measured (block_on (by simp) hq), Form.finds_ofScan (doStatement_on hq),
    Form.finds_ofSpan hwhole, finds_measured (block_on (by simp) hq), rawMemory_finds hq,
    Form.finds_ofSpan hwhole, Form.finds_ofSpan hwhole, assignment_finds hq, plainCast_finds,
    declaration_finds hq⟩
  · exact Scan.ensures_mono (forStatement_on hq) fun _ h x hx => .inl (h x hx)
  · intro x hx
    obtain ⟨m, hm, -, hstop⟩ := upTo_eq_some hx
    rw [GetsOn, hstop]
    exact line_on (by simp) hq hm

theorem round_on {x : State} (hn : s[n]? = some '}') (hx : b ≤ x.pos) :
    Lint.wp (round s b n line x) (fun z _ => match z with
      | .done _ => True
      | .again y => x.pos < n ∧ ∃ q : Nat, s.nextInk (x.pos + 1) = .ok q ∧
          (x.pos < y.pos ∨ Unended s q)) (fun _ => True) c := by
  unfold round
  split
  · rename_i hlt
    obtain ⟨k, hk⟩ : ∃ k : Nat, x.pos + 1 = k := ⟨(x.pos + 1).toNat, by omega⟩
    obtain ⟨q, hnext, hkq, hqn⟩ := Text.nextInk_before (show k ≤ n by omega) hn (by decide)
    have hlen := (List.getElem?_eq_some_iff.mp hn).1
    simp only [hk, hnext, Lint.wp_bind, Lint.wp_lift_ensures, Lint.wp_setLine]
    intro j hj
    obtain rfl : (q : Int) = j := Except.ok.inj hj
    refine Lint.wp_mono (Form.finds_first (forms_get_on (by omega)) _) ?_
    intro found c' hfound
    cases found with
    | some y =>
      simp only [Lint.wp_pure]
      refine ⟨hlt, q, rfl, (hfound y rfl).imp ?_ id⟩
      intro h
      omega
    | none =>
      simp only
      split
      · trivial
      · rename_i hend
        have hfind := (Text.le_find s ';' (Int.natCast_nonneg q)).resolve_left (by simpa using hend)
        exact ⟨hlt, q, rfl, .inl (by show x.pos < s.find ';' q + 1; omega)⟩
  · trivial

/-- In the scan of the body from `b` to `n`, a round does not get on after a statement without an
end. -/
def Strays (s : Text) (b n : Nat) (c : Context) : Prop :=
  ∃ x y, Relation.ReflTransGen (Lint.Leads (round s b n c.line)) (⟨b, []⟩, c) x ∧
    Lint.Leads (round s b n c.line) x y ∧ y.1.pos ≤ x.1.pos ∧
    ∃ q : Nat, s.nextInk (x.1.pos + 1) = .ok q ∧ Unended s q

theorem leads_on {x y : State × Context} (hn : s[n]? = some '}') (hx : b ≤ x.1.pos)
    (h : Lint.Leads (round s b n line) x y) :
    x.1.pos < n ∧ ∃ q : Nat, s.nextInk (x.1.pos + 1) = .ok q ∧
      (x.1.pos < y.1.pos ∨ Unended s q) :=
  Lint.wp_ok (round_on hn hx) h

theorem reached_of_not_strays (hn : s[n]? = some '}') (h : ¬Strays s b n c) {x : State × Context}
    (hx : Relation.ReflTransGen (Lint.Leads (round s b n c.line)) (⟨b, []⟩, c) x) :
    b ≤ x.1.pos ∧ ∀ y, Lint.Leads (round s b n c.line) x y → x.1.pos < n ∧ x.1.pos < y.1.pos := by
  have hstep : ∀ x y : State × Context,
      Relation.ReflTransGen (Lint.Leads (round s b n c.line)) (⟨b, []⟩, c) x → b ≤ x.1.pos →
      Lint.Leads (round s b n c.line) x y → x.1.pos < n ∧ x.1.pos < y.1.pos := by
    intro x y hx hpos hxy
    obtain ⟨hlt, q, hq, hon⟩ := leads_on hn hpos hxy
    refine ⟨hlt, Int.lt_of_not_ge ?_⟩
    intro hback
    exact h ⟨x, y, hx, hxy, hback, q, hq, hon.resolve_left (by omega)⟩
  have hpos : b ≤ x.1.pos := by
    induction hx with
    | refl => exact Int.le_refl _
    | tail hx hxy ih =>
      have := (hstep _ _ hx ih hxy).2
      omega
  exact ⟨hpos, fun y => hstep x y hx hpos⟩

theorem run_of_not_strays (hb : b < n) (hn : s[n]? = some '}') (h : ¬Strays s b n c)
    {xs : List (State × Context)}
    (hxs : IsRun (Lint.Leads (round s b n c.line)) (⟨b, []⟩, c) xs) :
    (xs.map (·.1.pos)).Pairwise (· < ·) ∧ xs.length ≤ s.length := by
  have hreached := fun x hx => reached_of_not_strays hn h
    (hxs.forall_mem .refl (fun _ _ hxy hx => hx.tail hxy) x hx)
  have hincreasing : (xs.map (·.1.pos)).Pairwise (· < ·) :=
    hxs.increasing fun x hx y hxy => ((hreached x hx).2 y hxy).2
  refine ⟨hincreasing, ?_⟩
  have hlen := hxs.length_le hincreasing (a := b) (b := n) fun x hx y hxy =>
    ⟨(hreached x hx).1, ((hreached x hx).2 y hxy).1⟩
  have hlt := (List.getElem?_eq_some_iff.mp hn).1
  omega

theorem rounds_increase_or_stray (hb : s[b]? = some '{')
    (hpartner : Bracket.brace.partner s b = .ok n) (c : Context) :
    ((∀ xs, IsRun (Lint.Leads (round s b n c.line)) (⟨b, []⟩, c) xs →
        (xs.map (·.1.pos)).Pairwise (· < ·) ∧ xs.length ≤ s.length) ∧
      ∀ states, s.length ≤ states →
        rounds (round s b n c.line) states ⟨b, []⟩ c =
          rounds (round s b n c.line) s.length ⟨b, []⟩ c) ∨
    Strays s b n c := by
  obtain hno | ⟨k, hk, hn⟩ := Bracket.partner_closing (b := .brace) hb n hpartner
  · omega
  obtain rfl : n = k := Int.ofNat.inj hk
  have hbn : b < n := by
    have hle := Bracket.le_partner .brace s b n hpartner
    have hne : b ≠ n := by
      rintro rfl
      exact absurd (hb.symm.trans hn) (by decide)
    omega
  by_cases h : Strays s b n c
  · exact .inr h
  · refine .inl ⟨fun xs => run_of_not_strays hbn hn h, fun states => ?_⟩
    exact Lint.rounds_eq_of_runs fun xs hxs => (run_of_not_strays hbn hn h hxs).2

theorem rounds_of_closed_stream :
    "\x7b a << b; \x7d".toList[0]? = some '{' ∧
      Bracket.brace.partner "\x7b a << b; \x7d".toList 0 = .ok 10 ∧
      ∀ xs, IsRun (Lint.Leads (round "\x7b a << b; \x7d".toList 0 10 1))
          (⟨0, []⟩, ⟨none, 1, false, .file⟩) xs →
        (xs.map (·.1.pos)).Pairwise (· < ·) ∧ xs.length ≤ 11 := by
  refine ⟨rfl, rfl, ?_⟩
  obtain ⟨h, -⟩ | ⟨x, y, hx, hxy, hback, -⟩ := rounds_increase_or_stray
    (s := "\x7b a << b; \x7d".toList) (b := 0) (n := 10) rfl rfl ⟨none, 1, false, .file⟩
  · exact h
  · have hfirst : Lint.Leads (round "\x7b a << b; \x7d".toList 0 10 1)
        (⟨0, []⟩, ⟨none, 1, false, .file⟩) (⟨9, []⟩, ⟨none, 1, false, .file⟩) := rfl
    have hlast : ∀ z, ¬Lint.Leads (round "\x7b a << b; \x7d".toList 0 10 1)
        (⟨9, []⟩, ⟨none, 1, false, .file⟩) z := fun z h => by cases h
    rcases hx.cases_head with rfl | ⟨z, hz, hzx⟩
    · obtain rfl := hfirst.unique hxy
      exact absurd hback (by decide)
    · obtain rfl := hfirst.unique hz
      rcases hzx.cases_head with rfl | ⟨w, hw, -⟩
      · exact absurd hxy (hlast y)
      · exact absurd hw (hlast w)

theorem round_goes_back :
    ("int x;\n\x7b\n  a = 1\n\x7d\n".toList[7]? = some '{' ∧
      Bracket.brace.partner "int x;\n\x7b\n  a = 1\n\x7d\n".toList 7 = .ok 17 ∧
      Lint.Leads (round "int x;\n\x7b\n  a = 1\n\x7d\n".toList 7 17 1)
        (⟨7, []⟩, ⟨none, 1, false, .file⟩) (⟨0, []⟩, ⟨none, 2, false, .file⟩)) ∧
    "\x7b a << b \x7d".toList[0]? = some '{' ∧
      Bracket.brace.partner "\x7b a << b \x7d".toList 0 = .ok 9 ∧
      ∀ states, rounds (round "\x7b a << b \x7d".toList 0 9 1) states ⟨0, []⟩
        ⟨none, 1, false, .file⟩ = (.error .endless, ⟨none, 1, false, .file⟩) := by
  refine ⟨⟨rfl, rfl, rfl⟩, rfl, rfl, ?_⟩
  have hback : Lint.Leads (round "\x7b a << b \x7d".toList 0 9 1)
      (⟨0, []⟩, ⟨none, 1, false, .file⟩) (⟨0, []⟩, ⟨none, 1, false, .file⟩) := rfl
  intro states
  induction states with
  | zero => rfl
  | succ states ih => exact (Lint.rounds_again hback states).trans ih

end Body

end CodeAudit
