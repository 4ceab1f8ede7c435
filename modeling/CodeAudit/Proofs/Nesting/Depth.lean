import CodeAudit.Proofs.Nesting.Length
import CodeAudit.Proofs.Nesting.Lines
import Mathlib.Data.Finset.Card

/-!
How deep the measuring of a statement goes. Statements that are measured inside of each other are
found at places of their own, unless one is nested in itself; so a depth that is greater than the
length of the text makes no difference.
-/

namespace CodeAudit.Nesting

variable {s : Text} {d p n : Nat} {stop : Int} {x y : String × Span} {c : Count}
  {inner inner' : String → Span → Scan (Nat × List Report)}

theorem first?_lt (h : first? s p measured = .ok (some x)) : p < s.length := by
  obtain ⟨keyword, span⟩ := x
  obtain ⟨form, hmem, hform⟩ := first?_mem measured _ h keyword span rfl
  obtain ⟨q, hq, ho, hbegins⟩ := measured_begins hmem s p
  have hspan := hbegins _ hform span rfl
  obtain ⟨a, ha, w, e, v, hs, -⟩ := indented_of_begins hq ho hspan
  obtain ⟨⟨m, hm, hstart⟩, -⟩ := hspan
  have hplace : m.start = min p s.length := (Pattern.matchAt_eq_some hm).1
  have hlt := Text.le_length_of_drop hs
  omega

def Deep (s : Text) (d : Nat) (x : String × Span) : Prop :=
  measure s d x.1 x.2 = .error .nestedInItself

theorem rounds_of_inner_error {e : Failure} (h : c.pos < stop)
    (hfound : first? s c.pos measured = .ok (some x)) (hinner : inner x.1 x.2 = .error e) :
    rounds (round inner s stop) (n + 1) c = .error e := by
  rw [rounds, round, if_pos h, hfound]
  simp only [bind, Except.bind, hinner]

theorem rounds_cases
    (hinner : ∀ k z, inner k z ≠ .error .nestedInItself → inner' k z = inner k z)
    (n : Nat) (c : Count) (hc : 0 ≤ c.pos) :
    rounds (round inner' s stop) n c = rounds (round inner s stop) n c ∨
      rounds (round inner s stop) n c = .error .nestedInItself ∧
        ∃ (p : Nat) (y : String × Span), first? s p measured = .ok (some y) ∧
          inner y.1 y.2 = .error .nestedInItself ∧
          (inner' y.1 y.2 = .error .nestedInItself →
            rounds (round inner' s stop) n c = .error .nestedInItself) := by
  induction n generalizing c with
  | zero => exact .inl rfl
  | succ n ih =>
    by_cases hlt : c.pos < stop
    · cases hfound : first? s c.pos measured with
      | error e =>
        refine .inl ?_
        simp only [rounds, round, if_pos hlt, hfound, bind, Except.bind]
      | ok found =>
        cases found with
        | none =>
          rw [rounds_again (round_line hlt hfound), rounds_again (round_line hlt hfound)]
          exact ih _ (Int.natCast_nonneg (s.lineEnd c.pos + 1))
        | some y =>
          cases hy : inner y.1 y.2 with
          | ok z =>
            have hy' : inner' y.1 y.2 = .ok z := by rw [hinner _ _ (by simp [hy]), hy]
            rw [rounds_again (round_nested hlt hfound hy),
              rounds_again (round_nested hlt hfound hy')]
            exact ih _ (Int.natCast_nonneg (s.lineEnd y.2.stop + 1))
          | error e =>
            rw [rounds_of_inner_error hlt hfound hy]
            by_cases he : e = .nestedInItself
            · subst he
              refine .inr ⟨rfl, c.pos.toNat, y, ?_, hy, rounds_of_inner_error hlt hfound⟩
              rw [Int.toNat_of_nonneg hc, hfound]
            · have hy' : inner' y.1 y.2 = .error e := by
                rw [hinner _ _ (by simp [hy, he]), hy]
              exact .inl (rounds_of_inner_error hlt hfound hy')
    · rw [rounds_done (round_done (Int.not_lt.mp hlt)), rounds_done (round_done (Int.not_lt.mp hlt))]
      exact .inl rfl

theorem measure_succ (s : Text) (x : String × Span) : ∃ f : Count → Scan (Nat × List Report), ∀ d,
    measure s (d + 1) x.1 x.2 = Bracket.paren.partner s (s.find '(' x.2.start) >>= fun last =>
      rounds (round (measure s d) s x.2.stop) (s.length + 2) ⟨s.lineEnd last + 1, 0, []⟩ >>= f :=
  ⟨_, fun _ => rfl⟩

theorem measure_cases
    (hstable : ∀ y, ¬Deep s d y → measure s (d + 1) y.1 y.2 = measure s d y.1 y.2)
    (x : String × Span) :
    measure s (d + 2) x.1 x.2 = measure s (d + 1) x.1 x.2 ∨
      Deep s (d + 1) x ∧ ∃ (p : Nat) (y : String × Span), first? s p measured = .ok (some y) ∧
        Deep s d y ∧ (Deep s (d + 1) y → Deep s (d + 2) x) := by
  obtain ⟨f, hmeasure⟩ := measure_succ s x
  simp only [Deep, hmeasure]
  cases Bracket.paren.partner s (s.find '(' x.2.start) with
  | error e => exact .inl rfl
  | ok last =>
    have hinner : ∀ k z, measure s d k z ≠ .error .nestedInItself →
        measure s (d + 1) k z = measure s d k z := fun k z => hstable (k, z)
    rcases rounds_cases hinner (s.length + 2) ⟨s.lineEnd last + 1, 0, []⟩
      (Int.natCast_nonneg (s.lineEnd last + 1)) with hsame | ⟨hdeep, p, y, hfound, hy, hfurther⟩
    · exact .inl (congrArg (· >>= f) hsame)
    · refine .inr ⟨congrArg (· >>= f) hdeep, p, y, hfound, hy, ?_⟩
      exact fun h => congrArg (· >>= f) (hfurther h)

theorem measure_stable (h : ¬Deep s d x) : measure s (d + 1) x.1 x.2 = measure s d x.1 x.2 := by
  induction d generalizing x with
  | zero => exact absurd rfl h
  | succ d ih => exact (measure_cases (fun _ => ih) x).resolve_right fun hdeep => h hdeep.1

theorem measure_stable_le {e : Nat} (h : ¬Deep s d x) (hde : d ≤ e) :
    measure s e x.1 x.2 = measure s d x.1 x.2 := by
  induction e, hde using Nat.le_induction with
  | base => rfl
  | succ e _ ih =>
    have he : ¬Deep s e x := by rwa [Deep, ih]
    rw [measure_stable he, ih]

theorem Deep.of_le {e : Nat} (h : Deep s e x) (hde : d ≤ e) : Deep s d x := by
  by_contra hd
  rw [Deep, measure_stable_le hd hde] at h
  exact hd h

theorem exists_inner (h : Deep s (d + 1) x) (h' : ¬Deep s (d + 2) x) :
    ∃ (p : Nat) (y : String × Span), first? s p measured = .ok (some y) ∧ Deep s d y ∧
      ¬Deep s (d + 1) y := by
  rcases measure_cases (fun _ => measure_stable) x with hsame | ⟨-, p, y, hfound, hy, hfurther⟩
  · exact absurd (hsame.trans h) h'
  · exact ⟨p, y, hfound, hy, fun hdeep => h' (hfurther hdeep)⟩

theorem exists_places (h : Deep s d x) (h' : ¬Deep s (d + 1) x) :
    ∃ places : Finset Nat, places.card = d ∧ ∀ p ∈ places, p < s.length ∧
      ∃ (y : String × Span) (e : Nat), e < d ∧ first? s p measured = .ok (some y) ∧
        ¬Deep s (e + 1) y := by
  induction d generalizing x with
  | zero => exact ⟨∅, rfl, by simp⟩
  | succ d ih =>
    obtain ⟨p, y, hfound, hy, hy'⟩ := exists_inner h h'
    obtain ⟨places, hcard, hplaces⟩ := ih hy hy'
    have hnew : p ∉ places := by
      -- at a place of before the same statement is found, and that one is less deep
      intro hp
      obtain ⟨-, z, e, he, hz, hdeep⟩ := hplaces p hp
      obtain rfl : y = z := Option.some.inj (Except.ok.inj (hfound.symm.trans hz))
      exact hdeep (hy.of_le he)
    refine ⟨insert p places, by rw [Finset.card_insert_of_notMem hnew, hcard], ?_⟩
    intro q hq
    rcases Finset.mem_insert.mp hq with rfl | hq
    · exact ⟨first?_lt hfound, y, d, Nat.lt_succ_self d, hfound, hy'⟩
    · obtain ⟨hlt, z, e, he, hz⟩ := hplaces q hq
      exact ⟨hlt, z, e, Nat.lt_succ_of_lt he, hz⟩

theorem deep_of_deep (h : Deep s (s.length + 1) x) (d : Nat) : Deep s d x := by
  induction d with
  | zero => rfl
  | succ d ih =>
    by_contra hd
    obtain ⟨places, hcard, hplaces⟩ := exists_places ih hd
    have hsub : places ⊆ Finset.range s.length :=
      fun p hp => Finset.mem_range.mpr (hplaces p hp).1
    have hle := Finset.card_le_card hsub
    rw [hcard, Finset.card_range] at hle
    exact hd (h.of_le (Nat.succ_le_succ hle))

theorem measure_eq_check (hd : s.length < d) (keyword : String) (span : Span) :
    measure s d keyword span = check s keyword span := by
  by_cases hdeep : Deep s (s.length + 1) (keyword, span)
  · exact (deep_of_deep hdeep d).trans (deep_of_deep hdeep (s.length + 2)).symm
  · exact (measure_stable_le hdeep hd).trans (measure_stable_le hdeep (Nat.le_succ _)).symm

/-- A statement is nested in itself just if there is no depth at which it can be measured. -/
theorem check_nestedInItself_iff (keyword : String) (span : Span) :
    check s keyword span = .error .nestedInItself ↔
      ∀ d, measure s d keyword span = .error .nestedInItself := by
  refine ⟨fun h d => ?_, fun h => h (s.length + 2)⟩
  have hdeep : Deep s (s.length + 2) (keyword, span) := h
  exact deep_of_deep (hdeep.of_le (Nat.le_succ _)) d

end CodeAudit.Nesting
