import CodeAudit.Proofs.SourceText.Rounds
import CodeAudit.Proofs.SourceText.Stops

namespace CodeAudit

open Lint

variable {s : Text} {q : Nat} {x : SourceText.State} {c c' : Context} {reports : List Report}

namespace SourceText

theorem forms_refined (h : s.PlainEnd) (q : Nat) : ∀ f ∈ forms,
    RefinedOn (fun found => ∀ x, found = some x → x.start ≠ -1 → x.stop ≠ -1)
      (f s q) (f s.ended q) := by
  simp only [forms, List.forall_mem_cons, List.not_mem_nil, false_implies, implies_true, and_true]
  exact ⟨Declaration.define_refined s q, RefinedOn.of_eq (Declaration.enum_ended s q),
    RefinedOn.of_eq (Declaration.includeFile_ended s q), Declaration.typedef_refined s q,
    Class.form_refined h q, Declaration.memberBody_refined h q,
    ofSpan_refined (Statement.conditional_ended s q),
    ofSpan_refined (Statement.whole_ended (by decide) s q),
    ofSpan_refined (Statement.whole_ended (by decide) s q),
    ofScan_refined (Statement.struct_refined s q),
    ofSpan_refined (Statement.staticMember_ended s q), Declaration.function_refined h q,
    RefinedOn.of_eq (Declaration.globalVariable_ended s q)⟩

def passed (s : Text) (x : State) (q : Nat) : Option Finding → Round State (List Report)
  | some y => .again ⟨q, y.stop + 1, x.reports ++ y.reports⟩
  | none =>
    if s.length ≤ s.lineEnd q then .done x.reports else .again ⟨q, s.lineEnd q, x.reports⟩

theorem round_of_ink (hnext : s.nextInk x.pos = .ok q) (hlt : x.old < q) :
    round s x = do
      setLine (s.lineOf q)
      let found ← Form.first forms s q
      return passed s x q found := by
  have hink : ((q : Int) == -1) = false := beq_false_of_ne (by omega)
  simp only [round, hnext, lift_ok_bind, hink, hlt, Bool.false_eq_true, if_false, if_true]
  apply congrArg (setLine (s.lineOf q) >>= ·)
  funext _
  apply congrArg (Form.first forms s q >>= ·)
  funext found
  cases found with
  | some y => rfl
  | none =>
    simp only [passed]
    split <;> rfl

theorem round_eq_ok {z : Round State (List Report)} (hpos : 0 ≤ x.pos)
    (h : round s x c = (.ok z, c')) :
    s.nextInk x.pos = .ok (-1) ∧ z = .done x.reports ∧ c' = c ∨
      ∃ q : Nat, s.nextInk x.pos = .ok q ∧ x.old < q ∧
        (∃ e, s[q]? = some e ∧ Text.isBlank e = false) ∧
        ∃ found, z = passed s x q found ∧
          Form.first forms s q { c with line := s.lineOf q } = (.ok found, c') := by
  obtain ⟨a, ha⟩ := Int.eq_ofNat_of_zero_le hpos
  obtain ⟨hnext, -⟩ | ⟨q, hnext, -, hink⟩ := Text.nextInk_natCast s a
  · left
    rw [← ha] at hnext
    simp only [round, hnext, lift_ok_bind] at h
    obtain ⟨hz, hc⟩ := Prod.mk.inj h
    exact ⟨hnext, (Except.ok.inj hz).symm, hc.symm⟩
  · right
    rw [← ha] at hnext
    have hlt : x.old < q := by
      apply Decidable.byContradiction
      intro hno
      have hfound : ((q : Int) == -1) = false := beq_false_of_ne (by omega)
      simp only [round, hnext, lift_ok_bind, hfound, hno, Bool.false_eq_true, if_false] at h
      cases h
    refine ⟨q, hnext, hlt, hink, ?_⟩
    rw [round_of_ink hnext hlt, setLine_bind] at h
    obtain ⟨found, d, hfirst, hd⟩ := bind_eq_ok h
    obtain ⟨hz, rfl⟩ := Prod.mk.inj hd
    exact ⟨found, (Except.ok.inj hz).symm, hfirst⟩

theorem rounds_back {n : Nat} {e : Char} (he : s[q]? = some e) (hink : Text.isBlank e = false)
    (told : List Report) : rounds (round s) n ⟨q, 0, told⟩ c ≠ (.ok reports, c') := by
  intro h
  obtain ⟨k, z, d, -, hround, -⟩ := rounds_eq_ok h
  obtain ⟨p, hp, -, hle⟩ := Text.nextInk_before (Nat.zero_le q) he hink
  rcases round_eq_ok (Int.le_refl 0) hround with ⟨hno, -⟩ | ⟨p', hp', hlt, -⟩
  · have hneg : (p : Int) = -1 := Except.ok.inj (hp.symm.trans hno)
    omega
  · have heq : (p : Int) = p' := Except.ok.inj (hp.symm.trans hp')
    simp only at hlt
    omega

theorem round_ended (h : s.PlainEnd) (hpos : 0 ≤ x.pos) (hnext : s.nextInk x.pos = .ok q)
    (hlt : x.old < q) (hq : q ≤ s.length) {found : Option Finding}
    (hfirst : Form.first forms s q { c with line := s.lineOf q } = (.ok found, c'))
    (hstop : ∀ y, found = some y → y.stop ≠ -1) :
    round s.ended x c = (.ok (passed s.ended x q found), c') := by
  have hnext' : s.ended.nextInk x.pos = .ok q := (Text.nextInk_ended hpos).trans hnext
  have hfirst' : Form.first forms s.ended q { c with line := s.ended.lineOf q } =
      (.ok found, c') := by
    rw [Text.lineOf_ended hq]
    exact first_refined forms (forms_refined h q) _ _ _ hfirst hstop
  rw [round_of_ink hnext' hlt, setLine_bind, bind_ok hfirst']
  rfl

theorem rounds_done_ended (h : s.PlainEnd) (hpos : 0 ≤ x.pos)
    (hdone : round s x c = (.ok (.done reports), c')) (k : Nat) :
    rounds (round s.ended) (k + 2) x c = (.ok reports, c') := by
  rcases round_eq_ok hpos hdone with ⟨hnext, hz, hc⟩ | ⟨q, hnext, hlt, ⟨e, he, -⟩, found, hz, hfirst⟩
  · have hround : round s.ended x c = (.ok (.done reports), c') := by
      simp only [round, Text.nextInk_ended hpos, hnext, lift_ok_bind, hz, hc]
      rfl
    rw [rounds, bind_ok hround]
    rfl
  · cases found with
    | some y => cases hz
    | none =>
      have hq : q < s.length := (List.getElem?_eq_some_iff.mp he).1
      obtain ⟨-, hle⟩ := Text.lineEnd_bounds (Nat.le_of_lt hq)
      simp only [passed] at hz
      split at hz
      · rename_i hend
        obtain rfl : reports = x.reports := Round.done.inj hz
        have hround := round_ended h hpos hnext hlt (Nat.le_of_lt hq) hfirst (by simp)
        have hpassed : passed s.ended x q none = .again ⟨q, s.length, x.reports⟩ := by
          rw [passed, Text.lineEnd_ended (by omega), Text.length_ended, if_neg (by omega),
            Nat.le_antisymm hle hend]
        rw [hpassed] at hround
        rw [rounds, bind_ok hround]
        apply rounds_of_blank
        intro b hb
        rw [Text.drop_ended (Nat.le_refl _), List.drop_length] at hb
        obtain rfl := List.mem_singleton.mp hb
        decide
      · cases hz

theorem check_refined (h : s.PlainEnd) :
    RefinedOn (fun _ => True) (check s 0) (check s.ended 0) := by
  apply Lint.rounds_refined (fun x : State => 0 ≤ x.pos)
  · exact fun x c reports d hpos hdone _ k => rounds_done_ended h hpos hdone k
  · rintro x c y d hpos hagain ⟨n, reports, c', hrun, -⟩
    rcases round_eq_ok hpos hagain with ⟨-, hz, -⟩ | ⟨q, hnext, hlt, ⟨e, he, hink⟩, found, hz, hfirst⟩
    · cases hz
    · have hq : q < s.length := (List.getElem?_eq_some_iff.mp he).1
      cases found with
      | some w =>
        obtain rfl : y = ⟨q, w.stop + 1, x.reports ++ w.reports⟩ := Round.again.inj hz
        have hle := Lint.wp_ok (first_stops s q) hfirst w rfl
        have hstop : w.stop ≠ -1 := by
          intro hback
          rw [hback] at hrun
          exact rounds_back he hink _ hrun
        refine ⟨round_ended h hpos hnext hlt (Nat.le_of_lt hq) hfirst ?_, ?_⟩
        · rintro _ ⟨⟩
          exact hstop
        · exact show 0 ≤ w.stop + 1 by omega
      | none =>
        obtain ⟨-, hle⟩ := Text.lineEnd_bounds (Nat.le_of_lt hq)
        have hround := round_ended h hpos hnext hlt (Nat.le_of_lt hq) hfirst (by simp)
        simp only [passed] at hz
        split at hz
        · cases hz
        · obtain rfl : y = ⟨q, s.lineEnd q, x.reports⟩ := Round.again.inj hz
          have hpassed : passed s.ended x q none = .again ⟨q, s.lineEnd q, x.reports⟩ := by
            rw [passed, Text.lineEnd_ended (by omega), Text.length_ended, if_neg (by omega)]
          rw [hpassed] at hround
          exact ⟨hround, Int.natCast_nonneg _⟩
  · rw [Text.length_ended]
    omega
  · exact Int.le_refl 0

theorem check_final_break (h : s.PlainEnd) (hrun : check s 0 c = (.ok reports, c')) :
    check (s ++ ['\n']) 0 c = (.ok reports, c') :=
  check_refined h c reports c' hrun trivial

-- without the rest of a stream statement, the braces of loops or the parenthesis of parameters
example : ∀ s ∈ ["void citF()\x7b\x7d<<b", "void citF()\x7b foreach(a) b; \x7d (",
    "while( do\x7b int x;\nvoid citF()\n\x7b\na = 1\n\x7d", "void f((;)"].map String.toList,
    (check s 0 {}).1.toOption.isSome = true ∧ (check (s ++ ['\n']) 0 {}).1.toOption = none := by
  decide +kernel

theorem check_ended_ended (hrun : check s.ended 0 c = (.ok reports, c')) :
    check s.ended.ended 0 c = (.ok reports, c') :=
  check_refined (Text.plainEnd_ended s) c reports c' hrun trivial

def openLine : Text :=
  "class citA\n\x7b\n\x7d;\nvoid citF()\n\x7b\nint x;\n(int)a;\n\x7d\nint g_b;".toList

def openLineReports : List Report :=
  [⟨6, .localLead, some "int x;".toList, none⟩, ⟨7, .plainCast, some "(int)a;".toList, none⟩]

theorem openLine_plainEnd : openLine.PlainEnd where
  cast := by decide +kernel
  stream := by
    intro u w e mark hmark _ _ hs
    have hmem : ∀ b ∈ mark, b ∈ openLine := by
      intro b hb
      rw [hs]
      simp [hb]
    simp only [List.mem_cons, List.not_mem_nil, or_false] at hmark
    rcases hmark with rfl | rfl
    · exact absurd (hmem '<' (by decide)) (by decide)
    · exact absurd (hmem '>' (by decide)) (by decide)
  foreachLoop := by
    intro b hb
    cases b <;> exact absurd hb (by decide)
  doLoop := fun hlast => absurd hlast (by decide)
  parameters := fun hlast => absurd hlast (by decide)

theorem openLine_final_break : check openLine 0 {} = (.ok openLineReports, { line := 9 }) ∧
    check (openLine ++ ['\n']) 0 {} = (.ok openLineReports, { line := 9 }) := by
  have hrun : check openLine 0 {} = (.ok openLineReports, { line := 9 }) :=
    Prod.ext (Scan.eq_ok_of_toOption (by decide +kernel)) (by decide +kernel)
  exact ⟨hrun, check_final_break openLine_plainEnd hrun⟩

def lastCast : Text := "void citF()\x7b (int)a; \x7d".toList

theorem lastCast_final_break : (check lastCast 0 {}).1 = .ok [] ∧
    (check (lastCast ++ ['\n']) 0 {}).1 =
      .ok [⟨1, .plainCast, some "(int)a; \x7d".toList, none⟩] :=
  ⟨Scan.eq_ok_of_toOption (by decide +kernel), Scan.eq_ok_of_toOption (by decide +kernel)⟩

end SourceText

end CodeAudit
