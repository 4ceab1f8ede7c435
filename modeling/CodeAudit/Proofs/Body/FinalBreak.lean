import CodeAudit.Proofs.Body.Lines
import CodeAudit.Proofs.Nesting.FinalBreak

namespace CodeAudit

open Lint

variable {s : Text} {q b : Nat} {i : Int} {m : Match} {R : Option Finding → Prop}

namespace Variable

theorem rawArray?_ended (s : Text) (i : Int) : rawArray? s.ended i = rawArray? s i := by
  rw [rawArray?, rawArray?, Pattern.matchAt_ended (by decide)]
  cases hm : Shape.rawArray.matchAt s i with
  | none => rfl
  | some m => rw [Option.map_some, Option.map_some, Pattern.text_ended hm]

theorem rawMemory_ended (s : Text) (q : Nat) : rawMemory s.ended q = rawMemory s q := by
  have hlt := Text.find_lt s ';' q
  simp only [rawMemory, Text.find_ended (by decide : ';' ≠ '\n') (Int.natCast_nonneg q),
    Pattern.matchBefore, Text.take_ended (show (s.find ';' q).toNat ≤ s.length by omega)]

theorem rawMemory_stop {stop : Int} (hq : q < s.length) (h : rawMemory s q = (true, stop)) :
    0 ≤ stop ∧ stop ≤ s.length := by
  have hlt := Text.find_lt s ';' q
  simp only [rawMemory, Pattern.matchBefore] at h
  split at h
  · rename_i m hm
    obtain ⟨-, rfl⟩ := Prod.mk.inj h
    obtain ⟨-, -, hle, -⟩ := Pattern.matchAt_eq_some hm
    rw [List.length_take] at hle
    omega
  · cases h

theorem plainCast_ended (h : s.PlainEnd) (hq : q ≤ s.length) :
    (∃ found, ∃ n : Nat, n ≤ s.length ∧ plainCast s q = (found, (n : Int)) ∧
      plainCast s.ended q = (found, (n : Int))) ∨
    (plainCast s q).1 = false ∧ (plainCast s.ended q).1 = false := by
  rcases Text.find_cases s '\n' q with ⟨hfind, hline⟩ | ⟨n, hfind, hle, hn⟩
  · right
    rw [Text.bound_natCast] at hline
    constructor
    · simp only [plainCast, hfind]
      rw [Option.isSome_eq_false_iff, Option.isNone_iff_eq_none]
      exact Pattern.search_of_not_staysIn (k := .among []) (by decide) (by decide) (by simp)
    · have hend : s.ended.find '\n' q = s.length := by
        have hs : s.ended.drop q = s.drop q ++ '\n' :: [] := Text.drop_ended hq
        rw [Text.find_of_drop hs hline, List.length_drop]
        omega
      simp only [plainCast, hend, Pattern.searchBefore, Int.toNat_natCast]
      rw [Text.take_ended (Nat.le_refl _), List.take_length, Option.isSome_eq_false_iff,
        Option.isNone_iff_eq_none]
      apply Pattern.search_of_matchAt_none hq
      intro a hqa ha
      apply h.cast a ha
      intro hmem
      apply hline
      rw [← Nat.add_sub_cancel' hqa, ← List.drop_drop] at hmem
      exact List.mem_of_mem_drop hmem
  · left
    have hlt := (List.getElem?_eq_some_iff.mp hn).1
    refine ⟨(Shape.plainCast.searchBefore s q n).isSome, n, Nat.le_of_lt hlt, ?_, ?_⟩
    · simp only [plainCast, hfind]
    · simp only [plainCast, Text.find_ended_of_found hfind, Pattern.searchBefore,
        Int.toNat_natCast, Text.take_ended (Nat.le_of_lt hlt)]

end Variable

namespace Body

theorem measured_refined {keyword : String} {form : Text → Int → Scan (Option Span)}
    (hmem : (keyword, form) ∈ Nesting.measured) (s : Text) (i : Int) :
    RefinedOn R (measured keyword form s i) (measured keyword form s.ended i) := by
  apply RefinedOn.lift_bind (Nesting.measured_refined hmem s i)
  intro found hfound
  cases found with
  | none => exact RefinedOn.refl _
  | some x =>
    have hx := Nesting.measured_headed hmem _ hfound x rfl
    exact RefinedOn.lift_bind (Nesting.check_refined hx) fun _ _ => RefinedOn.refl _

theorem rawMemory_form_ended (hq : q < s.length) : rawMemory s.ended q = rawMemory s q := by
  rw [rawMemory, rawMemory, Variable.rawMemory_ended]
  rcases hv : Variable.rawMemory s q with ⟨found, stop⟩
  cases found with
  | false => rfl
  | true =>
    obtain ⟨hpos, hle⟩ := Variable.rawMemory_stop hq hv
    simp only [Text.seek_ended (Nat.le_of_lt hq), Text.slice_ended (Int.natCast_nonneg q) hpos hle]

theorem plainCast_form_ended (h : s.PlainEnd) (hq : q ≤ s.length) :
    plainCast s.ended q = plainCast s q := by
  rcases Variable.plainCast_ended h hq with ⟨found, n, hn, heq, heq'⟩ | ⟨hno, hno'⟩
  · simp only [plainCast, heq, heq', Text.seek_ended hq, Text.slice_ended (Int.natCast_nonneg q)
      (Int.natCast_nonneg n) (Int.ofNat_le.mpr hn)]
  · simp only [plainCast, hno, hno']
    rfl

theorem localReports_ended (s : Text) (i : Int) (declared : Text) :
    localReports s.ended i declared = localReports s i declared := by
  rw [localReports, localReports, Variable.rawArray?_ended]

theorem leftSide_ended (hm : m.stop ≤ s.length) : leftSide s.ended m = leftSide s m := by
  rw [leftSide, leftSide, Text.take_ended hm]

theorem assignment_ended (s : Text) (i : Int) : assignment s.ended i = assignment s i := by
  rw [assignment, assignment, Pattern.matchAt_ended (by decide)]
  cases hm : Shape.assignment.matchAt s i with
  | none => rfl
  | some m =>
    obtain ⟨-, -, hle, -⟩ := Pattern.matchAt_eq_some hm
    simp only [leftSide_ended hle, localReports_ended,
      Text.find_ended (by decide : ';' ≠ '\n') (Int.natCast_nonneg m.stop)]

theorem declaration_ended (s : Text) (i : Int) : declaration s.ended i = declaration s i := by
  rw [declaration, declaration, Pattern.matchAt_ended (by decide)]
  cases hm : Shape.variableDeclaration.matchAt s i with
  | none => rfl
  | some m =>
    have hle := Text.neg_one_le_find s ';' m.stop
    have hlt := Text.find_lt s ';' m.stop
    have hslice : s.ended.slice m.start (s.find ';' m.stop + 1) =
        s.slice m.start (s.find ';' m.stop + 1) :=
      Text.slice_ended (Int.natCast_nonneg _) (by omega) (by omega)
    simp only [Text.find_ended (by decide : ';' ≠ '\n') (Int.natCast_nonneg m.stop), hslice,
      localReports_ended]

theorem forms_refined (h : s.PlainEnd) (hq : q < s.length) :
    ∀ f ∈ forms, RefinedOn R (f s q) (f s.ended q) := by
  simp only [forms, List.forall_mem_cons, List.not_mem_nil, false_implies, implies_true, and_true]
  refine ⟨measured_refined (by simp [Nesting.measured]) s q,
    ofSpan_refined (Statement.whole_ended (by decide) s q),
    measured_refined (by simp [Nesting.measured]) s q,
    ofScan_refined (Statement.foreachStatement_refined h q),
    ofSpan_refined (Statement.streamStatement_ended h q),
    measured_refined (by simp [Nesting.measured]) s q,
    ofScan_refined (Statement.doStatement_refined h q),
    ofSpan_refined (Statement.whole_ended (by decide) s q),
    measured_refined (by simp [Nesting.measured]) s q,
    RefinedOn.of_eq (rawMemory_form_ended hq),
    ofSpan_refined (Statement.whole_ended (by decide) s q),
    ofSpan_refined (Statement.whole_ended (by decide) s q),
    RefinedOn.of_eq (assignment_ended s q), RefinedOn.of_eq (plainCast_form_ended h (Nat.le_of_lt hq)),
    RefinedOn.of_eq (declaration_ended s q)⟩

theorem round_refined (h : s.PlainEnd) {n : Nat} (hn : s[n]? = some '}') {line : Int} {x : State}
    (hx : -1 ≤ x.pos) :
    RefinedOn (fun _ => True) (round s b n line x) (round s.ended b n line x) := by
  apply RefinedOn.ite
  · intro hlt
    apply RefinedOn.lift_bind (Scan.Refined.of_eq (Text.nextInk_ended (by omega)))
    intro pos hpos
    obtain ⟨k, hk⟩ := Int.eq_ofNat_of_zero_le (show 0 ≤ x.pos + 1 by omega)
    obtain ⟨q, hnext, -, hqn⟩ := Text.nextInk_before (show k ≤ n by omega) hn (by decide)
    rw [hk, hnext] at hpos
    obtain rfl : (q : Int) = pos := Except.ok.inj hpos
    have hq : q < s.length := Nat.lt_of_le_of_lt hqn (List.getElem?_eq_some_iff.mp hn).1
    rw [Text.lineBreaks_ended (Nat.le_of_lt hq)]
    apply RefinedOn.bind (RefinedOn.refl _)
    intro _
    apply RefinedOn.bind ((first_refined forms (P := fun _ => True)
      (forms_refined h hq)).mono fun _ _ _ _ => trivial)
    intro found
    cases found with
    | some y => exact RefinedOn.refl _
    | none =>
      rw [Text.find_ended (by decide) (Int.natCast_nonneg q)]
      exact RefinedOn.refl _
  · intro _
    exact RefinedOn.refl _

theorem check_refined (h : s.PlainEnd) (b : Nat) :
    RefinedOn (fun _ => True) (check s b) (check s.ended b) := by
  apply RefinedOn.lift_bind (Text.charAt_ended (Int.natCast_nonneg b))
  intro e he
  apply RefinedOn.ite
  · intro _
    exact RefinedOn.throw_bind _ _ _
  · intro hbrace
    obtain rfl : e = '{' := by simpa using hbrace
    apply RefinedOn.lift_bind (Bracket.partner_ended .brace (Int.natCast_nonneg b))
    intro stop hpartner
    apply RefinedOn.bind (RefinedOn.refl _)
    intro line
    have hlen : s.length + 3 < s.ended.length + 3 := by
      rw [Text.length_ended]
      omega
    have hrounds : RefinedOn (fun _ => True) (rounds (round s b stop line) (s.length + 3) ⟨b, []⟩)
        (rounds (round s.ended b stop line) (s.ended.length + 3) ⟨b, []⟩) := by
      obtain rfl | ⟨n, rfl, hn⟩ :=
        Bracket.partner_closing (b := .brace) (Text.charAt_natCast s b _ he) stop hpartner
      · rw [rounds, rounds, round_of_unclosed, round_of_unclosed]
        exact RefinedOn.refl (pure [])
      · apply RefinedOn.rounds (fun x : State => -1 ≤ x.pos) ?_ ?_ hlen
        · exact show -1 ≤ (b : Int) by omega
        · exact fun x hx => round_refined h hn hx
        · intro x c hx
          refine Lint.wp_mono (round_finds hn hx) ?_
          rintro z _ hz y rfl
          exact hz.1
    exact RefinedOn.bind hrounds fun _ => RefinedOn.refl _

theorem check_stop {c : Context} (i : Int) :
    Lint.wp (check s i) (fun x _ => Bracket.brace.partner s i = .ok x.stop) (fun _ => True) c := by
  simp only [check, Lint.wp_bind, Lint.wp_lift_ensures]
  intro e _
  split
  · simp only [Lint.wp_bind, Lint.wp_throw]
  · simp only [Lint.wp_bind, Lint.wp_lift_ensures, Lint.wp_currentLine, Lint.wp_pure]
    intro stop hstop
    exact Lint.wp_mono (Lint.wp_trivial _) fun _ _ _ => hstop

end Body

end CodeAudit
