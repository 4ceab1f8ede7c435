import CodeAudit.Proofs.Body.FinalBreak
import CodeAudit.Proofs.Class.FinalBreak
import CodeAudit.SourceText

namespace CodeAudit

variable {s : Text} {q : Nat} {i : Int} {c : Context}

def Form.Stops (f : Form) (s : Text) (i : Int) : Prop :=
  ∀ c, Lint.wp (f s i) (fun found _ => ∀ x, found = some x → -1 ≤ x.stop) (fun _ => True) c

theorem Form.stops_ofSpan {f : Text → Int → Option Span} (hf : ∀ x, f s i = some x → -1 ≤ x.stop) :
    (Form.ofSpan f).Stops s i := by
  intro c
  simp only [Form.ofSpan, Lint.wp_pure, Option.map_eq_some_iff]
  rintro _ ⟨x, hx, rfl⟩
  exact hf x hx

theorem Form.stops_whole (p : Pattern) : (Form.ofSpan (Statement.whole p)).Stops s i := by
  apply Form.stops_ofSpan
  intro x hx
  obtain ⟨m, -, -, hstop⟩ := Statement.whole_eq_some hx
  omega

theorem Statement.struct_stops :
    Scan.Ensures (struct s i) fun found => ∀ x, found = some x → -1 ≤ x.stop := by
  simp only [struct, Scan.ensures_bind]
  intro found _
  split
  · split
    · simp only [Scan.ensures_bind, Scan.ensures_throw]
    · simp only [Scan.ensures_bind]
      intro e _
      split
      · simp only [Scan.ensures_bind, Scan.ensures_throw]
      · simp only [Scan.ensures_pure, Option.some.injEq]
        rintro x rfl
        exact Text.neg_one_le_find ..
  · simp

namespace Declaration

theorem macroEnd_stops (s : Text) (i : Int) : Scan.Ensures (macroEnd s i) fun stop => 0 ≤ stop := by
  refine Scan.ensures_rounds (fun _ => True) ?_ _ i trivial
  intro j _
  simp only [macroEndRound, Scan.ensures_bind]
  intro e _
  split
  · simp
  · simp

theorem define_stops : define.Stops s i := by
  intro c
  unfold define
  split
  · simp only [Lint.wp_bind, Lint.wp_lift_ensures]
    intro next _
    split
    · simp
    · split
      · simp only [Lint.wp_bind, Lint.wp_currentLine, Lint.wp_lift_ensures, Lint.wp_pure]
        refine Scan.ensures_mono (macroEnd_stops s _) ?_
        rintro stop hstop x ⟨⟩
        exact show -1 ≤ stop by omega
      · simp
  · simp

theorem enum_stops : enum.Stops s i := by
  intro c
  unfold enum
  split
  · simp only [Lint.wp_bind, Lint.wp_get, Lint.wp_pure]
    rintro x ⟨⟩
    simp only
    omega
  · simp

theorem includeFile_stops : includeFile.Stops s i := by
  intro c
  unfold includeFile
  split
  · simp only [Lint.wp_bind, Lint.wp_get, Lint.wp_pure]
    rintro x ⟨⟩
    simp only
    omega
  · split
    · rename_i m _
      have hstop : -1 ≤ (m.stop : Int) - 1 := by omega
      split
      · simp only [Lint.wp_bind, Lint.wp_get]
        split
        · split
          · rintro x ⟨⟩
            exact hstop
          · simp only [Lint.wp_bind, Lint.wp_modify, Lint.wp_pure]
            rintro x ⟨⟩
            exact hstop
        · simp
      · simp
    · simp

theorem typedef_stops : typedef.Stops s i := by
  intro c
  unfold typedef
  split
  · simp only [Lint.wp_bind, Lint.wp_lift_ensures]
    intro next _
    refine Lint.wp_mono (enum_stops (i := next) c) ?_
    intro found c' hfound
    cases found with
    | some x =>
      rintro y ⟨⟩
      exact hfound x rfl
    | none =>
      simp only [Lint.wp_bind, Lint.wp_lift_ensures]
      refine Scan.ensures_mono Statement.struct_stops ?_
      intro span hspan
      cases span with
      | some x =>
        rintro y ⟨⟩
        exact hspan x rfl
      | none =>
        rintro y ⟨⟩
        exact Text.neg_one_le_find ..
  · simp

theorem globalVariable_stops : globalVariable.Stops s i := by
  intro c
  unfold globalVariable
  split
  · rename_i m _
    have hstop : ∀ reports : List Report, ∀ x,
        (some ⟨⟨m.start, s.find ';' m.stop⟩, reports⟩ : Option Finding) = some x → -1 ≤ x.stop := by
      rintro reports x ⟨⟩
      exact Text.neg_one_le_find ..
    simp only [Lint.wp_bind, Lint.wp_currentLine]
    split
    · exact hstop _
    · simp only [Lint.wp_bind, Lint.wp_lift_ensures]
      intro pointer _
      exact hstop _
  · simp

theorem memberBody_stops : memberBody.Stops s i := by
  intro c
  unfold memberBody
  simp only
  split
  · simp only [Lint.wp_bind, Lint.wp_lift_ensures, Lint.wp_setLine, Lint.wp_pure]
    intro last _
    refine Lint.wp_mono (Body.check_stop _) ?_
    rintro body _ hstop x ⟨⟩
    exact Bracket.neg_one_le_partner .brace (Text.neg_one_le_find ..) _ hstop
  · simp

theorem headEnd_stops (a : Nat) : Scan.Ensures (headEnd s a) fun e =>
    ∃ n : Nat, e = .semicolon n ∨ e = .brace n := by
  intro e he
  rcases headEnd_ended s a with ⟨e', he', -, n, -, hn⟩ | ⟨n, hn, -⟩ | ⟨f, hf⟩
  · rw [he] at he'
    obtain rfl := Except.ok.inj he'
    exact ⟨n, hn⟩
  · rw [he] at hn
    exact ⟨n, .inr (Except.ok.inj hn)⟩
  · rw [he] at hf
    cases hf

theorem function_stops : function.Stops s i := by
  intro c
  unfold function
  split
  · rename_i m name _
    simp only [Lint.wp_bind]
    refine Lint.wp_mono (parameters_spec m.stop i) ?_
    rintro ⟨last, reports⟩ c' ⟨rfl, -, hle, -⟩
    simp only at hle
    obtain ⟨a, ha⟩ := Int.eq_ofNat_of_zero_le (show 0 ≤ last + 1 by omega)
    simp only [Lint.wp_currentLine, Lint.wp_lift_ensures, ha]
    refine Scan.ensures_mono (headEnd_stops a) ?_
    rintro e ⟨n, rfl | rfl⟩
    · rintro x ⟨⟩
      exact show -1 ≤ (n : Int) by omega
    · simp only [Lint.wp_bind, Lint.wp_setLine, Lint.wp_pure]
      refine Lint.wp_mono (Body.check_stop _) ?_
      rintro body _ hstop x ⟨⟩
      exact Bracket.neg_one_le_partner .brace (by omega) _ hstop
  · simp

end Declaration

namespace Class

theorem check_stops (i : Int) :
    Lint.wp (check s i) (fun out _ => ∀ y, out = .found y → -1 ≤ y.stop) (fun _ => True) c := by
  unfold check
  split
  · simp only [Lint.wp_pure]
    rintro y ⟨⟩
    simp only
    omega
  · split
    · simp only [Lint.wp_bind, Lint.wp_currentLine, Lint.wp_lift_ensures]
      intro reports _
      apply wp_inClass
      simp only [body, Lint.wp_bind, Lint.wp_lift_ensures, Lint.wp_currentLine]
      intro next _ rule _
      refine Lint.wp_rounds (fun x _ => -1 ≤ x.old) (by simp) ?_ _ _ _ (Text.neg_one_le_find ..)
      intro x c' hold
      refine Lint.wp_mono (round_stops i hold) ?_
      intro z _ hz
      cases z <;> exact hz
    · simp

theorem form_stops : form.Stops s i := by
  intro c
  simp only [form, Lint.wp_bind]
  refine Lint.wp_mono (check_stops i) ?_
  intro out _ hout
  cases out with
  | absent => simp
  | unfinished => simp
  | found x =>
    rintro y ⟨⟩
    exact hout x rfl

end Class

namespace SourceText

theorem forms_stop (s : Text) (i : Int) : ∀ f ∈ forms, f.Stops s i := by
  simp only [forms, List.forall_mem_cons, List.not_mem_nil, false_implies, implies_true, and_true]
  refine ⟨Declaration.define_stops, Declaration.enum_stops, Declaration.includeFile_stops,
    Declaration.typedef_stops, Class.form_stops, Declaration.memberBody_stops, ?_,
    Form.stops_whole _, Form.stops_whole _, ?_, ?_, Declaration.function_stops,
    Declaration.globalVariable_stops⟩
  · apply Form.stops_ofSpan
    intro x hx
    obtain ⟨m, -, rfl⟩ := Option.map_eq_some_iff.mp hx
    exact show -1 ≤ (s.lineEnd m.stop : Int) by omega
  · intro c
    simp only [Form.ofScan, Lint.wp_bind, Lint.wp_lift_ensures, Lint.wp_pure]
    refine Scan.ensures_mono Statement.struct_stops ?_
    intro found hfound x hx
    obtain ⟨y, hy, rfl⟩ := Option.map_eq_some_iff.mp hx
    exact hfound y hy
  · apply Form.stops_ofSpan
    intro x hx
    obtain ⟨m, -, rfl⟩ := Option.map_eq_some_iff.mp hx
    exact Text.neg_one_le_find ..

theorem first_stops (s : Text) (i : Int) :
    Lint.wp (Form.first forms s i) (fun found _ => ∀ x, found = some x → -1 ≤ x.stop)
      (fun _ => True) c := by
  refine Lint.wp_first (fun _ => True) forms (by simp) ?_ c trivial
  intro f hf c' _
  refine Lint.wp_mono (forms_stop s i f hf c') ?_
  intro found _ hfound
  cases found with
  | none => trivial
  | some x =>
    simp only
    split
    · trivial
    · exact hfound

end SourceText

end CodeAudit
