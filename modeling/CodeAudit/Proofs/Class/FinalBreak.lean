import CodeAudit.Proofs.Class.Lines
import CodeAudit.Proofs.Declaration.FinalBreak

namespace CodeAudit

open Lint

variable {s : Text} {q : Nat} {i : Int} {m : Match} {c : Context}

namespace Class

def Stuck (s : Text) (x : State) : Prop :=
  x.pos ≤ x.old ∨ 0 ≤ x.pos ∧ ∀ b ∈ s.drop x.pos.toNat, Text.isBlank b = true

theorem round_stops (start : Int) {x : State} (hold : -1 ≤ x.old) :
    Lint.wp (round s start x) (fun z _ => match z with
      | .done out => ∀ y, out = .found y → -1 ≤ y.stop
      | .again y => -1 ≤ y.old) (fun _ => True) c := by
  unfold round
  split
  · have hpos : -1 ≤ x.pos := by omega
    simp only [Lint.wp_bind, Lint.wp_lift_ensures]
    intro pos hnext e _
    have hle : -1 ≤ pos + 1 := by
      rcases Text.nextInk_bounds s x.pos pos hnext with h | ⟨h, -⟩ <;> omega
    split
    · exact hpos
    · simp only [Lint.wp_bind, Lint.wp_setLine]
      refine Lint.wp_mono (Lint.wp_trivial _) ?_
      intro found c' _
      cases found with
      | some y => exact hpos
      | none =>
        simp only
        split
        · rintro y ⟨⟩
          exact hle
        · split
          · rintro y ⟨⟩
            exact Text.neg_one_le_find ..
          · split
            · rintro y ⟨⟩
            · exact hpos
  · simp

theorem round_stuck (start : Int) {x : State} (hold : -1 ≤ x.old) (hx : Stuck s x) :
    Lint.wp (round s start x) (fun z _ => ∃ y, z = .again y ∧ -1 ≤ y.old ∧ Stuck s y)
      (fun _ => True) c := by
  unfold round
  split
  · rename_i hlt
    obtain ⟨a, ha⟩ := Int.eq_ofNat_of_zero_le (show 0 ≤ x.pos by omega)
    obtain ⟨-, hblank⟩ := hx.resolve_left (by omega)
    rw [ha, Int.toNat_natCast] at hblank
    have hback : ∀ j reports, Stuck s ⟨x.pos, j, reports⟩ := by
      intro j reports
      by_cases hj : j ≤ x.pos
      · exact .inl hj
      · refine .inr ⟨show 0 ≤ j by omega, ?_⟩
        intro b hb
        apply hblank
        have hle : a ≤ j.toNat := by omega
        rw [← Nat.add_sub_cancel' hle, ← List.drop_drop] at hb
        exact List.mem_of_mem_drop hb
    have hagain : ∀ j reports, ∃ y, (Round.again ⟨x.pos, j, reports⟩ : Round State Outcome) =
        .again y ∧ -1 ≤ y.old ∧ Stuck s y :=
      fun j reports => ⟨_, rfl, show -1 ≤ x.pos by omega, hback j reports⟩
    simp only [Lint.wp_bind, Lint.wp_lift_ensures]
    intro pos hpos e he
    rw [ha] at hpos
    obtain rfl : -1 = pos := Except.ok.inj ((Text.nextInk_of_blank hblank).symm.trans hpos)
    split
    · exact hagain _ _
    · rename_i hsemicolon
      have hlast : s.getLast? ≠ some ';' := by
        rw [Text.getLast?_of_charAt he]
        simpa using hsemicolon
      simp only [Lint.wp_bind, Lint.wp_setLine]
      refine Lint.wp_mono (Lint.wp_trivial _) ?_
      intro found c' _
      cases found with
      | some y => exact hagain _ _
      | none =>
        have hlen := Text.length_pos_of_charAt he
        have hclosed : (s.slice (-1 : Int) (-1 + 2) == ['}', ';']) = false :=
          Text.closing_of_neg s (by omega) (by omega)
        have hended : (s.slice (-1 - 1 : Int) (-1 + 1) == ['}', ';']) = false :=
          Text.closing_of_neg s (i := -1 - 1) (by omega) (by omega)
        have hmore : ¬(s.length : Int) ≤ -1 + 1 := by omega
        simp only [Text.find_neg_one hlast, hclosed, hended, hmore, Bool.false_eq_true, if_false]
        exact hagain _ _
  · simp

theorem rounds_stuck (start : Int) {x : State} (hold : -1 ≤ x.old) (hx : Stuck s x) (n : Nat) :
    Lint.wp (rounds (round s start) n x) (fun _ _ => False) (fun _ => True) c := by
  refine Lint.wp_rounds (fun x _ => -1 ≤ x.old ∧ Stuck s x) (by simp) ?_ n x c ⟨hold, hx⟩
  intro x c ⟨hold, hx⟩
  refine Lint.wp_mono (round_stuck start hold hx) ?_
  rintro z _ ⟨y, rfl, hy⟩
  exact hy

theorem members_refined (h : s.PlainEnd) (q : Nat) : ∀ f ∈ members,
    RefinedOn (fun found => ∀ x, found = some x → x.start ≠ -1 → Declaration.Followed s x)
      (f s q) (f s.ended q) := by
  simp only [members, List.forall_mem_cons, List.not_mem_nil, false_implies, implies_true, and_true]
  exact ⟨ofSpan_refined (Statement.upTo_ended (by decide) (by decide) s q),
    ofSpan_refined (Statement.upTo_ended (by decide) (by decide) s q),
    ofSpan_refined (Statement.whole_ended (by decide) s q),
    ofSpan_refined (Statement.whole_ended (by decide) s q), Declaration.define_refined s q,
    Declaration.objectMark_refined s q, Declaration.classDestructor_refined h q,
    Declaration.classConstructor_refined h q, Declaration.method_refined h q,
    Declaration.typedef_refined s q, RefinedOn.of_eq (Declaration.memberVariable_ended s q)⟩

def Alive (s : Text) : Round State Outcome → Prop
  | .done out => out ≠ .unfinished
  | .again y => ¬Stuck s y

theorem roundEnd_refined {start pos : Int} (x : State) (hpos : 0 ≤ pos) :
    RefinedOn (Alive s)
      (if s.slice pos (pos + 2) == ['}', ';'] then
        pure (.done (.found ⟨⟨start, pos + 1⟩, x.reports⟩))
      else if s.slice (s.find ';' pos - 1) (s.find ';' pos + 1) == ['}', ';'] then
        pure (.done (.found ⟨⟨start, s.find ';' pos⟩, x.reports⟩))
      else if s.length ≤ s.find ';' pos + 1 then pure (.done .unfinished)
      else pure (.again ⟨x.pos, s.find ';' pos + 1, x.reports⟩))
      (if s.ended.slice pos (pos + 2) == ['}', ';'] then
        pure (.done (.found ⟨⟨start, pos + 1⟩, x.reports⟩))
      else if s.ended.slice (s.ended.find ';' pos - 1) (s.ended.find ';' pos + 1) == ['}', ';'] then
        pure (.done (.found ⟨⟨start, s.ended.find ';' pos⟩, x.reports⟩))
      else if s.ended.length ≤ s.ended.find ';' pos + 1 then pure (.done .unfinished)
      else pure (.again ⟨x.pos, s.ended.find ';' pos + 1, x.reports⟩)) := by
  have hle := Text.neg_one_le_find s ';' pos
  have hstop : s.find ';' pos + 1 = s.find ';' pos - 1 + 2 := by omega
  have hclosing : (s.ended.slice (s.find ';' pos - 1) (s.find ';' pos + 1) == ['}', ';']) =
      (s.slice (s.find ';' pos - 1) (s.find ';' pos + 1) == ['}', ';']) := by
    rw [hstop]
    exact Text.closing_ended (by omega)
  rw [Text.closing_ended (show -2 ≤ pos by omega), Text.find_ended (by decide) hpos, hclosing,
    Text.length_ended]
  apply RefinedOn.ite (fun _ => RefinedOn.refl _)
  intro _
  apply RefinedOn.ite (fun _ => RefinedOn.refl _)
  intro _
  by_cases hend : s.length ≤ s.find ';' pos + 1
  · rw [if_pos hend]
    apply RefinedOn.of_not
    intro c
    simp [Alive]
  · rw [if_neg hend, if_neg (by omega)]
    exact RefinedOn.refl _

theorem followed_of_not_stuck {x : State} {y : Finding} {reports : List Report}
    (hpos : 0 ≤ x.pos) (h : ¬Stuck s ⟨x.pos, y.stop + 1, reports⟩) : Declaration.Followed s y := by
  have hlt : x.pos < y.stop + 1 := Int.not_le.mp fun hle => h (.inl hle)
  refine ⟨by omega, Int.not_le.mp ?_⟩
  intro hle
  refine h (.inr ⟨show 0 ≤ y.stop + 1 by omega, ?_⟩)
  intro b hb
  rw [List.drop_eq_nil_of_le (show s.length ≤ (y.stop + 1).toNat by omega)] at hb
  cases hb

theorem round_refined (h : s.PlainEnd) (start : Int) {x : State} (hold : -1 ≤ x.old) :
    RefinedOn (Alive s) (round s start x) (round s.ended start x) := by
  by_cases hstuck : Stuck s x
  · apply RefinedOn.of_not
    intro c
    refine Lint.wp_mono (round_stuck start hold hstuck) ?_
    rintro z _ ⟨y, rfl, -, hy⟩ halive
    exact halive hy
  · apply RefinedOn.ite
    · intro hlt
      obtain ⟨a, ha⟩ := Int.eq_ofNat_of_zero_le (show 0 ≤ x.pos by omega)
      apply RefinedOn.lift_bind (Scan.Refined.of_eq (Text.nextInk_ended (by omega)))
      intro pos hpos
      rw [ha] at hpos
      obtain ⟨hnext, hblank⟩ | ⟨q, hnext, -, e, he, -⟩ := Text.nextInk_natCast s a
      · exact absurd (.inr ⟨by omega, by rw [ha]; exact hblank⟩) hstuck
      · obtain rfl : (q : Int) = pos := Except.ok.inj (hnext.symm.trans hpos)
        have hq : q ≤ s.length := Nat.le_of_lt (List.getElem?_eq_some_iff.mp he).1
        apply RefinedOn.lift_bind (Text.charAt_ended (Int.natCast_nonneg q))
        intro d _
        apply RefinedOn.ite
        · exact fun _ => RefinedOn.refl _
        · intro _
          rw [Text.lineOf_ended hq]
          apply RefinedOn.bind (RefinedOn.refl _)
          intro _
          apply RefinedOn.bind_on (first_refined members (members_refined h q))
          · intro _ found _ _
            cases found with
            | some y => exact RefinedOn.refl _
            | none => exact roundEnd_refined x (Int.natCast_nonneg q)
          · rintro found d z c' hrun halive y rfl
            obtain rfl : Round.again ⟨x.pos, y.stop + 1, x.reports ++ y.reports⟩ = z :=
              Except.ok.inj (congrArg Prod.fst hrun)
            apply followed_of_not_stuck (by omega) halive
    · intro _
      exact RefinedOn.throw_bind _ _ _

theorem rounds_refined (h : s.PlainEnd) (start : Int) {x : State} (hold : -1 ≤ x.old) :
    RefinedOn (fun out => out ≠ .unfinished) (rounds (round s start) (s.length + 3) x)
      (rounds (round s.ended start) (s.ended.length + 3) x) := by
  apply Lint.rounds_refined (fun x => -1 ≤ x.old) ?_ ?_ ?_ x hold
  · intro x c out d hold hdone hout k
    rw [rounds, bind_ok (round_refined h start hold c _ d hdone hout)]
    rfl
  · rintro x c y d hold hagain ⟨n, out, c', hrun, -⟩
    have hy := Lint.wp_ok (round_stops start hold) hagain
    refine ⟨round_refined h start hold c _ d hagain ?_, hy⟩
    intro hstuck
    exact Lint.wp_ok (rounds_stuck start hy hstuck n) hrun
  · rw [Text.length_ended]
    omega

theorem last_of_classHead {e : Char} (hm : Shape.classHead.matchAt s i = some m)
    (hblank : ∀ b ∈ s.drop m.stop, Text.isBlank b = true) (he : s.getLast? = some e) :
    Text.isBlank e = true ∨ Text.isWord e = true := by
  obtain ⟨-, -, hle, -⟩ := Pattern.matchAt_eq_some hm
  rw [List.getLast?_eq_getElem?] at he
  by_cases hend : m.stop = s.length
  · obtain ⟨d, hd, hword⟩ := Pattern.last_of_matchAt (by decide) hm
    rw [hend, he] at hd
    obtain rfl := Option.some.inj hd
    have hends : Shape.classHead.mayEndWith e = (Text.isWord e || false) := rfl
    rw [hends, Bool.or_false] at hword
    exact .inr hword
  · left
    exact hblank e (Text.mem_drop_of_getElem? (by omega) he)

theorem colonRule?_refined {n : Nat} (hn : 1 ≤ n) :
    (colonRule? s n).Refined (colonRule? s.ended n) := by
  apply (Text.charAt_ended (Int.natCast_nonneg n)).bind
  intro e _
  apply Scan.Refined.ite (fun _ => Scan.Refined.refl _)
  intro _
  apply (Text.charAt_ended (by omega)).bind
  intro e _
  apply Scan.Refined.ite (fun _ => Scan.Refined.refl _)
  intro _
  exact (Text.charAt_ended (by omega)).bind fun _ _ => Scan.Refined.refl _

theorem colonRule?_neg_one (hlast : s.getLast? ≠ some ':') :
    (colonRule? s (-1)).Refined (colonRule? s.ended (-1)) := by
  have hrule : ∀ (w : Text) (e : Char), w.charAt (-1) = .ok e → e ≠ ':' →
      colonRule? w (-1) = .ok none := by
    intro w e he hne
    have hcolon : (e != ':') = true := by simpa using hne
    simp only [colonRule?, he, bind, Except.bind, hcolon, if_true]
    rfl
  rw [hrule s.ended '\n' (Text.charAt_ended_neg_one s) (by decide)]
  intro a ha
  cases he : s.charAt (-1) with
  | error f =>
    simp only [colonRule?, he] at ha
    cases ha
  | ok e =>
    rw [← ha, hrule s e he]
    rintro rfl
    exact hlast (Text.getLast?_of_charAt he)

theorem body_refined (h : s.PlainEnd) (start : Int) (hm : Shape.classHead.matchAt s i = some m)
    (reports : List Report) :
    RefinedOn (fun out => out ≠ .unfinished) (body s start m reports)
      (body s.ended start m reports) := by
  have hlt := Pattern.start_lt_stop (by decide) hm
  apply RefinedOn.lift_bind (Scan.Refined.of_eq (Text.nextInk_ended (Int.natCast_nonneg _)))
  intro next hnext
  obtain ⟨hcolon, hbrace⟩ : (colonRule? s next).Refined (colonRule? s.ended next) ∧
      s.ended.find '{' next = s.find '{' next := by
    obtain ⟨hno, hblank⟩ | ⟨n, hn, hle, -⟩ := Text.nextInk_natCast s m.stop
    · obtain rfl : -1 = next := Except.ok.inj (hno.symm.trans hnext)
      have hlast : ∀ e, Text.isBlank e = false → Text.isWord e = false → s.getLast? ≠ some e := by
        intro e hink hmark he
        rcases last_of_classHead hm hblank he with h | h
        · rw [h] at hink
          cases hink
        · rw [h] at hmark
          cases hmark
      have hbreak : s.ended.getLast? ≠ some '{' := by
        rw [Text.getLast?_of_charAt (Text.charAt_ended_neg_one s)]
        decide
      exact ⟨colonRule?_neg_one (hlast ':' (by decide) (by decide)), by
        rw [Text.find_neg_one hbreak, Text.find_neg_one (hlast '{' (by decide) (by decide))]⟩
    · obtain rfl : (n : Int) = next := Except.ok.inj (hn.symm.trans hnext)
      exact ⟨colonRule?_refined (by omega), Text.find_ended (by decide) (Int.natCast_nonneg n)⟩
  apply RefinedOn.lift_bind hcolon
  intro rule _
  dsimp only
  rw [hbrace, Pattern.text_ended hm]
  apply RefinedOn.bind (RefinedOn.refl _)
  intro line
  exact rounds_refined h start (Text.neg_one_le_find ..)

theorem inClass_refined {α : Type} {R : α → Prop} {x y : Lint α} (hx : RefinedOn R x y) :
    RefinedOn R (inClass x) (inClass y) := by
  intro c a c' h ha
  rcases hrun : x { c with scope := .classBody } with ⟨e | b, d⟩
  · simp only [inClass, hrun] at h
    cases h
  · simp only [inClass, hrun] at h ⊢
    obtain ⟨hb, hd⟩ := Prod.mk.inj h
    obtain rfl := Except.ok.inj hb
    rw [hx _ _ _ hrun ha]
    exact h

theorem check_refined (h : s.PlainEnd) (i : Int) :
    RefinedOn (fun out => out ≠ .unfinished) (check s i) (check s.ended i) := by
  rw [check, check, Pattern.matchAt_ended (by decide), Pattern.matchAt_ended (by decide)]
  cases hforward : Shape.classForward.matchAt s i with
  | some m => exact RefinedOn.refl _
  | none =>
    cases hm : Shape.classHead.matchAt s i with
    | none => exact RefinedOn.refl _
    | some m =>
      dsimp only
      rw [Pattern.groupText?_ended (by decide) hm]
      apply RefinedOn.bind (RefinedOn.refl _)
      intro line
      apply RefinedOn.bind (RefinedOn.refl _)
      intro reports
      exact inClass_refined (body_refined h i hm reports)

theorem form_refined {R : Option Finding → Prop} (h : s.PlainEnd) (i : Int) :
    RefinedOn R (form s i) (form s.ended i) := by
  apply RefinedOn.bind_on (check_refined h i)
  · intro _ out _ _
    cases out with
    | absent => exact RefinedOn.refl _
    | unfinished => exact RefinedOn.throw _ _
    | found x => exact RefinedOn.refl _
  · rintro out d found c' hrun - rfl
    cases hrun

end Class

end CodeAudit
