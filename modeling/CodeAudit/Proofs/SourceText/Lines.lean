import CodeAudit.Proofs.Class.Lines
import CodeAudit.SourceText

namespace CodeAudit

variable {s : Text} {q : Nat} {i : Int} {m : Match} {c : Context}

namespace SourceText

def Gives (s : Text) (c : Context) (q : Nat) (r : Report) : Prop :=
  Lint.Gives s forms (round s) State.pos (⟨-1, 0, []⟩, c) q (s.lineOf q) r

/-- The report is on the declaration at `q` outside of classes, or on a member of the class at `q`. -/
def FoundReport (s : Text) (q : Nat) (r : Report) : Prop :=
  Declaration.OuterReport s q r ∨ ∃ a, Class.Gives s q a r ∧ Declaration.MemberReport s a r

def TextReport (s : Text) (c : Context) (r : Report) : Prop :=
  ∃ q, Gives s c q r ∧ FoundReport s q r

theorem forms_give (hq : q ≤ s.length) (hpassed : Class.MacroBefore s q) :
    ∀ f ∈ forms, Declaration.FormGives s q (FoundReport s q) f := by
  have hlocated : ∀ r : Report, r.Located s → FoundReport s q r := fun r h => .inl (.inl h)
  have hexact : ∀ r : Report, r.Exact s → FoundReport s q r := fun r h => hlocated r (.inLine h)
  have houter : ∀ r : Report, Declaration.OuterReport s q r → FoundReport s q r := fun r => .inl
  have hclass : ∀ r : Report, Class.ClassReport s q r → FoundReport s q r :=
    fun r h => h.elim (hlocated r) .inr
  simp only [forms, List.forall_mem_cons, List.not_mem_nil, false_implies, implies_true, and_true]
  refine ⟨(Declaration.define_gives hq).mono hlocated, Declaration.enum_gives.mono hexact,
    (Declaration.includeFile_gives hq).mono hexact, Declaration.typedef_gives.mono hexact,
    (Class.form_sound hq hpassed).mono hclass, Declaration.memberBody_gives.mono houter,
    Declaration.ofSpan_gives ?_, Declaration.whole_gives _, Declaration.whole_gives _,
    Declaration.struct_gives, Declaration.ofSpan_gives ?_, Declaration.function_gives.mono houter,
    (Declaration.globalVariable_gives hq).mono hexact⟩
  · intro x hx
    obtain ⟨m, -, rfl⟩ := Option.map_eq_some_iff.mp hx
    simp
  · intro x hx
    obtain ⟨m, -, rfl⟩ := Option.map_eq_some_iff.mp hx
    simp

theorem define_stop (hm : Shape.define.matchAt s i = some m) :
    Lint.wp (Declaration.define s i) (fun found _ => ∃ x, found = some x ∧ x.start ≠ -1 ∧
      Declaration.macroEnd s m.stop = .ok x.stop) (fun _ => True) c := by
  simp only [Declaration.define, hm, Lint.wp_bind, Lint.wp_lift_ensures]
  intro next _
  split
  · simp
  · split
    · simp only [Lint.wp_bind, Lint.wp_currentLine, Lint.wp_lift_ensures, Lint.wp_pure]
      intro stop hstop
      exact ⟨_, rfl, by simp, hstop⟩
    · simp

theorem first_forms_define (hm : Shape.define.matchAt s 0 = some m)
    (hc : c.line = s.lineOf (0 : Nat)) :
    Lint.wp (Form.first forms s (0 : Nat)) (fun found _ => ∃ x, found = some x ∧
      Declaration.macroEnd s m.stop = .ok x.stop ∧ ∀ r ∈ x.reports, FoundReport s 0 r)
      (fun _ => True) c := by
  have hdefine := Lint.wp_and (define_stop hm) (Declaration.define_gives (Nat.zero_le _) c hc)
  simp only [forms, Form.first, Form.counted, Lint.wp_bind, Lint.wp_pure]
  refine Lint.wp_mono hdefine ?_
  rintro found c' ⟨⟨x, rfl, hstart, hstop⟩, -, hreports⟩
  have hcounted : Option.filter (·.start != -1) (some x) = some x := by
    simp [Option.filter, hstart]
  rw [hcounted]
  exact ⟨x, rfl, hstop, fun r hr => .inl (.inl (hreports r hr))⟩

theorem nextInk_of_define (hm : Shape.define.matchAt s 0 = some m) : s.nextInk 0 = .ok 0 := by
  have hm0 : Shape.define.matchAt s (0 : Nat) = some m := hm
  obtain ⟨w, v, hs, -, -, hr⟩ := Pattern.reads_of_matchAt (by decide) (Nat.zero_le _) hm0
  obtain rfl : w = "#define".toList := hr
  exact Text.nextInk_of_drop (u := []) hs (by simp) (by decide)

def Passed (s : Text) (x : State) : Prop :=
  x.old = -1 ∧ x.pos = 0 ∨ Class.MacroBefore s (x.old + 1) ∨ Class.MacroBefore s x.pos

theorem exists_define (h : ¬Class.MacroBefore s i) :
    ∃ m, Shape.define.matchAt s 0 = some m := by
  simp only [Class.MacroBefore, Classical.not_forall] at h
  obtain ⟨m, e, hm, -⟩ := h
  exact ⟨m, hm⟩

theorem first_forms_next {x : State} (hx : Passed s x) (hpos : s.nextInk x.pos = .ok q)
    (hlt : x.old < q) (hc : c.line = s.lineOf q) :
    Lint.wp (Form.first forms s q) (fun found _ => match found with
      | none => Class.MacroBefore s (q + 1)
      | some y => (∀ r ∈ y.reports, FoundReport s q r) ∧
        (Class.MacroBefore s (q + 1) ∨ Class.MacroBefore s (y.stop + 1))) (fun _ => True) c := by
  obtain ⟨hle, hlen⟩ := (Text.nextInk_bounds s x.pos q hpos).resolve_left (by omega)
  by_cases hbefore : Class.MacroBefore s q
  · refine Lint.wp_mono (Declaration.first_gives (forms_give (by omega) hbefore) hc) ?_
    have hpast : Class.MacroBefore s ((q : Int) + 1) := hbefore.mono (by omega)
    intro found c' hfound
    cases found with
    | none => exact hpast
    | some y => exact ⟨hfound y rfl, .inl hpast⟩
  · have hstart : x.old = -1 ∧ x.pos = 0 := by
      rcases hx with h | h | h
      · exact h
      · exact absurd (h.mono (by omega)) hbefore
      · exact absurd (h.mono hle) hbefore
    obtain ⟨m, hm⟩ := exists_define hbefore
    rw [hstart.2, nextInk_of_define hm] at hpos
    obtain rfl : 0 = q := Int.ofNat.inj (Except.ok.inj hpos)
    refine Lint.wp_mono (first_forms_define hm hc) ?_
    rintro found c' ⟨y, rfl, hstop, hreports⟩
    refine ⟨hreports, .inr ?_⟩
    intro n e hn he
    obtain rfl : m = n := Option.some.inj (hm.symm.trans hn)
    obtain rfl : y.stop = e := Except.ok.inj (hstop.symm.trans he)
    exact Int.lt_succ _

theorem round_finds {x : State} (hold : -1 ≤ x.old) :
    Lint.wp (round s x) (fun z _ => match z with
      | .done reports => reports = x.reports
      | .again y => ∃ (q : Nat) (found : Option Finding), s.nextInk x.pos = .ok q ∧ x.old < q ∧
          (Form.first forms s q { c with line := s.lineOf q }).1 = .ok found ∧ y.old = q ∧
          y.pos = found.elim (s.lineEnd q : Int) (·.stop + 1) ∧
          y.reports = x.reports ++ found.elim [] (·.reports)) (fun _ => True) c := by
  simp only [round, Lint.wp_bind, Lint.wp_lift_ensures]
  intro pos hpos
  split
  · rfl
  · split
    · rename_i hlt
      obtain ⟨q, rfl⟩ : ∃ q : Nat, pos = q := ⟨pos.toNat, by omega⟩
      simp only [Lint.wp_bind, Lint.wp_setLine]
      refine Lint.wp_mono (Lint.wp_run (Lint.wp_trivial _)) ?_
      rintro found c' ⟨hrun, -⟩
      have hfirst := congrArg Prod.fst hrun
      cases found with
      | some y => exact ⟨q, some y, hpos, hlt, hfirst, rfl, rfl, rfl⟩
      | none =>
        simp only
        split
        · rfl
        · exact ⟨q, none, hpos, hlt, hfirst, rfl, rfl, (List.append_nil _).symm⟩
    · simp

theorem rounds_located (states : Nat) :
    Lint.wp (rounds (round s) states ⟨-1, 0, []⟩) (fun reports _ => ∀ r ∈ reports, TextReport s c r)
      (fun _ => True) c := by
  refine Lint.wp_rounds_reached
    (fun x : State => (-1 ≤ x.old ∧ Passed s x) ∧ ∀ r ∈ x.reports, TextReport s c r)
    ⟨⟨Int.le_refl _, .inl ⟨rfl, rfl⟩⟩, by simp⟩ ?_ ?_ states
  · rintro x y hreached ⟨⟨hold, hpassed⟩, hreports⟩ hxy
    obtain ⟨q, found, hpos, hlt, hfirst, hy, hstop, hadded⟩ := Lint.wp_ok (round_finds hold) hxy
    have hnext := Lint.wp_ok (first_forms_next hpassed hpos hlt rfl) (Prod.ext hfirst rfl)
    rw [hadded, Passed, hy, hstop]
    cases found with
    | none =>
      simp only [Option.elim_none, List.append_nil]
      exact ⟨⟨by omega, .inr (.inl hnext)⟩, hreports⟩
    | some z =>
      obtain ⟨hfound, hafter⟩ := hnext
      refine ⟨⟨by omega, .inr hafter⟩, ?_⟩
      intro r hr
      rcases List.mem_append.mp hr with hr | hr
      · exact hreports r hr
      · exact ⟨q, ⟨x, y, z, hreached, hxy, hpos, hfirst, hr⟩, hfound r hr⟩
  · rintro x reports c' ⟨⟨hold, -⟩, hreports⟩ hrun
    rw [Lint.wp_ok (round_finds hold) hrun]
    exact hreports

/-- If the check of a text gives reports, each of them is given on a declaration that the scan comes
to. It has the line of what it quotes or, on a name, that of the keyword; or it is on a statement of
a body, and its line is that of the brace, or of the member in a class, and the line breaks between
the brace and the statement. -/
theorem reports_located {reports : List Report} (h : (check s 0 c).1 = .ok reports) :
    ∀ r ∈ reports, TextReport s c r :=
  Lint.wp_ok (rounds_located _) (Prod.ext h rfl)

def lowBodies : Text :=
  "class\ncita \x7b\nvoid f()\n\x7b\nint x;\n\x7d\n\x7d;\nvoid A::f()\n\x7b\nint y;\n\x7d\n".toList

def lowBodiesReports : List Report :=
  [⟨1, .classCapital, some "cita".toList, none⟩, ⟨4, .localLead, some "int x;".toList, none⟩,
    ⟨10, .localLead, some "int y;".toList, none⟩]

theorem lowBodies_reports_located : (check lowBodies 0 {}).1 = .ok lowBodiesReports ∧
    ∀ r ∈ lowBodiesReports, TextReport lowBodies {} r := by
  have hrun : (check lowBodies 0 {}).1 = .ok lowBodiesReports :=
    Scan.eq_ok_of_toOption (by decide +kernel)
  exact ⟨hrun, reports_located hrun⟩

def lowName : Text := "class\ncita \x7b\n\x7d;\n".toList

theorem lowName_report_not_exact :
    (check lowName 0 {}).1 = .ok [⟨1, .classCapital, some "cita".toList, none⟩] ∧
      ¬Report.Exact lowName ⟨1, .classCapital, some "cita".toList, none⟩ := by
  refine ⟨Scan.eq_ok_of_toOption (by decide +kernel), ?_⟩
  intro h
  obtain ⟨q, hq, hl⟩ := h _ rfl
  have hlt : q < lowName.length := by
    have hlen := hq.length_le
    rw [List.length_drop] at hlen
    have hname : "cita".toList.length = 4 := rfl
    omega
  have hno : ∀ k < lowName.length, "cita".toList <+: lowName.drop k →
      (1 : Int) ≠ lowName.lineOf k := by decide
  exact hno q hlt hq hl

end SourceText

end CodeAudit
