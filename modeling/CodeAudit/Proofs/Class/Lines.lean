import CodeAudit.Class
import CodeAudit.Proofs.Declaration.Bodies

namespace CodeAudit

variable {s u : Text} {q : Nat} {i : Int} {m : Match} {c : Context}

namespace Shape

theorem classLead_head (h : classLead.Reads u) : ∃ v, u = 'c' :: v := by
  obtain ⟨_, o, rfl, ⟨x, y, rfl, rfl, -⟩, -⟩ := h
  exact ⟨_, rfl⟩

theorem classHead_name (hq : q ≤ s.length) (hm : classHead.matchAt s q = some m) :
    ∃ u t, classLead.Reads u ∧ m.groupText? s "class" = some t ∧ u ++ t <+: s.drop q := by
  obtain ⟨-, -, -, hmem⟩ := Pattern.matchAt_eq_some hm
  rw [Pattern.start_of_matchAt hq hm, classHead_eq, Pattern.mem_ends_cat] at hmem
  obtain ⟨x, hx, hmem⟩ := hmem
  obtain ⟨y, hy, heq⟩ := Pattern.mem_ends_group.mp hmem
  obtain ⟨u, hu, hux, hreads⟩ := Pattern.reads_of_mem_ends (by decide) hx
  obtain ⟨t, ht, hty, -⟩ := Pattern.reads_of_mem_ends (by decide) hy
  have hs : s.drop q = u ++ x.rest := hu
  have hpos : x.pos = q + u.length := hux
  refine ⟨u, t, hreads, ?_, ?_⟩
  · have hgroups : m.groups = ("class", x.pos, y.pos) :: y.groups := congrArg Place.groups heq
    have hrest : s.drop x.pos = t ++ y.rest := by rw [hpos, Text.drop_of_drop_append hs, ht]
    have htext : (s.take y.pos).drop x.pos = t := Text.drop_take_eq_of_drop_eq hrest hty
    simp [Match.groupText?, Match.group?, hgroups, htext]
  · rw [hs, ht, ← List.append_assoc]
    exact List.prefix_append _ _

end Shape

namespace Class

theorem nameReports_named {name : Text} {line : Int} :
    Scan.Ensures (nameReports name line) fun reports =>
      ∀ r ∈ reports, r.rule.isNaming = true ∧ r.context = some name ∧ r.line = line := by
  simp only [nameReports, Scan.ensures_bind, Scan.ensures_pure]
  intro e _ r hr
  rcases List.mem_append.mp hr with hr | hr
  · split at hr
    · cases hr
    · obtain rfl := List.mem_singleton.mp hr
      exact ⟨rfl, rfl, rfl⟩
  · split at hr
    · cases hr
    · obtain rfl := List.mem_singleton.mp hr
      exact ⟨rfl, rfl, rfl⟩

theorem members_give (hq : q ≤ s.length) :
    ∀ f ∈ members, Declaration.FormGives s q (Declaration.MemberReport s q) f := by
  have hexact : ∀ r : Report, r.Exact s → Declaration.MemberReport s q r := fun r h => .inl (.inLine h)
  simp only [members, List.forall_mem_cons, List.not_mem_nil, false_implies, implies_true, and_true]
  exact ⟨Declaration.upTo_gives _ _, Declaration.upTo_gives _ _, Declaration.whole_gives _,
    Declaration.whole_gives _, (Declaration.define_gives hq).mono fun _ h => .inl h,
    (Declaration.objectMark_gives hq).mono hexact, Declaration.classDestructor_gives hq,
    Declaration.classConstructor_gives, Declaration.method_gives hq,
    Declaration.typedef_gives.mono hexact, (Declaration.memberVariable_gives hq).mono hexact⟩

def FormEnds (s : Text) (f : Form) : Prop :=
  ∀ c, Lint.wp (f s (-1)) (fun found _ => ∀ x, found = some x →
    x.start = -1 ∨ (∀ r ∈ x.reports, r.Exact s) ∨ s.BeforeTail x.stop) (fun _ => True) c

theorem ofSpan_ends (f : Text → Int → Option Span) : FormEnds s (.ofSpan f) := by
  intro c
  simp only [Form.ofSpan, Lint.wp_pure, Option.map_eq_some_iff]
  rintro _ ⟨x, -, rfl⟩
  exact .inr (.inl (by simp))

theorem method_ends : FormEnds s Declaration.method := by
  intro c
  unfold Declaration.method
  split
  · simp only [Lint.wp_bind]
    refine Lint.wp_mono (Lint.wp_trivial _) ?_
    rintro ⟨last, reports⟩ c' -
    simp only [Lint.wp_lift_ensures]
    intro e _
    cases e with
    | semicolon j => simp
    | brace j =>
      simp only [Lint.wp_bind]
      refine Lint.wp_mono (Lint.wp_trivial _) ?_
      simp
  · simp

theorem memberVariable_ends : FormEnds s Declaration.memberVariable := by
  intro c
  unfold Declaration.memberVariable
  split
  · rename_i name text m _
    have hstop : s.BeforeTail (s.find ';' m.stop) := Text.beforeTail_find (by decide) _
    simp only [Lint.wp_bind, Lint.wp_currentLine]
    split
    · simp [hstop]
    · simp only [Lint.wp_bind, Lint.wp_lift_ensures]
      intro other _
      simp [hstop]
  · simp

def MacroBefore (s : Text) (i : Int) : Prop :=
  ∀ m e, Shape.define.matchAt s 0 = some m → Declaration.macroEnd s m.stop = .ok e → e < i

theorem MacroBefore.mono {j : Int} (h : MacroBefore s i) (hij : i ≤ j) : MacroBefore s j :=
  fun m e hm he => Int.lt_of_lt_of_le (h m e hm he) hij

theorem define_ends (hq : s[q]? = some 'c') (hpassed : MacroBefore s q) :
    FormEnds s Declaration.define := by
  intro c
  unfold Declaration.define
  split
  · rename_i m hm
    simp only [Lint.wp_bind, Lint.wp_lift_ensures]
    intro next _
    split
    · simp
    · split
      · simp only [Lint.wp_bind, Lint.wp_currentLine, Lint.wp_lift_ensures, Lint.wp_pure]
        intro stop hstop
        have hlt := hpassed m stop hm hstop
        have htail : s.BeforeTail stop := Text.beforeTail_of_ink (by omega) hq (by decide)
        simp [htail]
      · simp
  · simp

theorem objectMark_ends (hq : s[q]? = some 'c') : FormEnds s Declaration.objectMark := by
  intro c
  unfold Declaration.objectMark
  split
  · rename_i m hm
    have hstop : s.BeforeTail m.stop := by
      have hm0 : Shape.objectMark.matchAt s (0 : Nat) = some m := hm
      obtain ⟨w, v, hs, -, hstop, hr⟩ := Pattern.reads_of_matchAt (by decide) (Nat.zero_le _) hm0
      obtain rfl : w = "Q_OBJECT".toList := hr
      apply Text.beforeTail_of_ink (n := q) _ hq (by decide)
      rw [hstop]
      apply Int.ofNat_le.mpr
      apply Nat.le_of_not_lt
      intro hlt
      rw [List.drop_zero] at hs
      rw [hs, List.getElem?_append_left (by simpa using hlt)] at hq
      exact absurd (List.mem_of_getElem? hq) (by decide)
    simp only [Lint.wp_bind, Lint.wp_lift_ensures]
    intro next _
    split
    · simp
    · simp [hstop]
  · simp

theorem members_end (hq : s[q]? = some 'c') (hpassed : MacroBefore s q) :
    ∀ f ∈ members, FormEnds s f := by
  simp only [members, List.forall_mem_cons, List.not_mem_nil, false_implies, implies_true, and_true]
  refine ⟨ofSpan_ends _, ofSpan_ends _, ofSpan_ends _, ofSpan_ends _, define_ends hq hpassed,
    objectMark_ends hq, ?_, ?_, method_ends, ?_, memberVariable_ends⟩
  · intro c
    refine Lint.wp_mono (Declaration.classDestructor_spec (-1)) ?_
    rintro found c' hfound x rfl
    obtain ⟨m, -, -, hstop, -⟩ := hfound
    exact .inr (.inr hstop)
  · intro c
    refine Lint.wp_mono (Declaration.classConstructor_spec (-1)) ?_
    rintro found c' hfound x rfl
    obtain ⟨m, last, -, -, -, hstop, -⟩ := hfound
    exact .inr (.inr hstop)
  · intro c
    refine Lint.wp_mono (Declaration.typedef_spec (-1)) ?_
    rintro found c' hfound x rfl
    exact .inr (.inl hfound.2)

/-- The scan of the class at `q` comes to a member at `a` and gives the report on it. -/
def Gives (s : Text) (q a : Nat) (r : Report) : Prop :=
  ∃ (m : Match) (next : Int) (reports : List Report) (c : Context),
    Shape.classHead.matchAt s q = some m ∧ s.nextInk m.stop = .ok next ∧
    Lint.Gives s members (round s q) State.pos
      (⟨s.find '{' next, s.find '{' next + 1, reports⟩, c) a (s.lineOf a) r

def ClassReport (s : Text) (q : Nat) (r : Report) : Prop :=
  r.Located s ∨ ∃ a, Gives s q a r ∧ Declaration.MemberReport s a r

def Sound (s : Text) (q : Nat) (x : State) : Prop :=
  -1 ≤ x.old ∧ (x.old < x.pos → ∀ r ∈ x.reports, ClassReport s q r)

theorem first_members_end (hends : ∀ f ∈ members, FormEnds s f) :
    Lint.wp (Form.first members s (-1)) (fun found _ => ∀ x, found = some x →
      (∀ r ∈ x.reports, r.Exact s) ∨ s.BeforeTail x.stop) (fun _ => True) c := by
  refine Lint.wp_first (fun _ => True) members (by simp) ?_ c trivial
  intro f hf c' _
  refine Lint.wp_mono (hends f hf c') ?_
  intro found c'' hfound
  cases found with
  | none => trivial
  | some x =>
    simp only
    split
    · trivial
    · rename_i hstart
      rintro y hy
      obtain rfl := Option.some.inj hy
      exact (hfound x rfl).resolve_left hstart

def Outcome.Sound (s : Text) (q : Nat) : Outcome → Prop
  | absent => False
  | unfinished => True
  | found y => y.start = q ∧ ∀ r ∈ y.reports, ClassReport s q r

theorem first_members_next (hends : ∀ f ∈ members, FormEnds s f) {a : Nat} {pos : Int}
    (hpos : s.nextInk a = .ok pos) (hc : c.line = s.lineOf pos) :
    Lint.wp (Form.first members s pos) (fun found _ => ∀ x, found = some x → a < x.stop + 1 →
      ∀ r ∈ x.reports, r.Located s ∨ ∃ q : Nat, pos = q ∧ Declaration.MemberReport s q r)
      (fun _ => True) c := by
  rcases Text.nextInk_natCast s a with ⟨hnext, hblank⟩ | ⟨q, hnext, -, e, he, -⟩
  · obtain rfl : -1 = pos := Except.ok.inj (hnext.symm.trans hpos)
    refine Lint.wp_mono (first_members_end hends) ?_
    intro found c' hfound x hx hlt
    rcases hfound x hx with hexact | htail
    · exact fun r hr => .inl (.inLine (hexact r hr))
    · have hstop := htail a hblank
      omega
  · obtain rfl : (q : Int) = pos := Except.ok.inj (hnext.symm.trans hpos)
    have hq : q ≤ s.length := Nat.le_of_lt (List.getElem?_eq_some_iff.mp he).1
    refine Lint.wp_mono (Declaration.first_gives (members_give hq) hc) ?_
    intro found c' hfound x hx _ r hr
    exact .inr ⟨q, rfl, hfound x hx r hr⟩

theorem round_finds (start : Int) {x : State} :
    Lint.wp (round s start x) (fun z _ => x.old < x.pos ∧ match z with
      | .done out => out = .unfinished ∨ ∃ stop, out = .found ⟨⟨start, stop⟩, x.reports⟩
      | .again y => y.old = x.pos ∧ (y.reports = x.reports ∨ ∃ pos found,
          s.nextInk x.pos = .ok pos ∧
          (Form.first members s pos { c with line := s.lineOf pos }).1 = .ok (some found) ∧
          y.pos = found.stop + 1 ∧ y.reports = x.reports ++ found.reports)) (fun _ => True) c := by
  unfold round
  split
  · rename_i hlt
    simp only [Lint.wp_bind, Lint.wp_lift_ensures]
    intro pos hpos e _
    split
    · exact ⟨hlt, rfl, .inl rfl⟩
    · simp only [Lint.wp_bind, Lint.wp_setLine]
      refine Lint.wp_mono (Lint.wp_run (Lint.wp_trivial _)) ?_
      rintro found c' ⟨hrun, -⟩
      cases found with
      | some y => exact ⟨hlt, rfl, .inr ⟨pos, y, hpos, congrArg Prod.fst hrun, rfl, rfl⟩⟩
      | none =>
        simp only
        split
        · exact ⟨hlt, .inr ⟨_, rfl⟩⟩
        · split
          · exact ⟨hlt, .inr ⟨_, rfl⟩⟩
          · split
            · exact ⟨hlt, .inl rfl⟩
            · exact ⟨hlt, rfl, .inl rfl⟩
  · simp

theorem body_sound (hends : ∀ f ∈ members, FormEnds s f) (hq : q ≤ s.length)
    (hm : Shape.classHead.matchAt s q = some m) (hc : c.line = s.lineOf q) {reports : List Report}
    (hreports : ∀ r ∈ reports, r.Located s) :
    Lint.wp (body s q m reports) (fun out _ => out.Sound s q) (fun _ => True) c := by
  simp only [body, Lint.wp_bind, Lint.wp_lift_ensures, Lint.wp_currentLine]
  intro next hnext rule _
  refine Lint.wp_rounds_reached (Sound s q) ⟨Text.neg_one_le_find .., ?_⟩ ?_ ?_ _
  · intro _ r hr
    rcases List.mem_append.mp hr with hr | hr
    · exact .inl (hreports r hr)
    · exact .inl (.inLine (Declaration.told_exact (Pattern.text_prefix_of_matchAt hq hm) hc rule r hr))
  · rintro x y hreached ⟨hold, hsound⟩ hxy
    obtain ⟨hlt, hy, hsame | ⟨pos, found, hpos, hfirst, hstop, hadded⟩⟩ :=
      Lint.wp_ok (round_finds q) hxy
    · exact ⟨by omega, fun _ => hsame ▸ hsound hlt⟩
    · refine ⟨by omega, ?_⟩
      rw [hy, hstop, hadded]
      -- where the scan is set back the next round fails, and nothing is said of its reports
      intro hon r hr
      obtain ⟨a, ha⟩ : ∃ a : Nat, x.1.pos = a := ⟨x.1.pos.toNat, by omega⟩
      rcases List.mem_append.mp hr with hr | hr
      · exact hsound hlt r hr
      · have hgiven := Lint.wp_ok (first_members_next hends (ha ▸ hpos) rfl) (Prod.ext hfirst rfl)
        rcases hgiven found rfl (ha ▸ hon) r hr with hlocated | ⟨k, rfl, hmember⟩
        · exact .inl hlocated
        · exact .inr ⟨k, ⟨m, next, _, c, hm, hnext, x, y, found, hreached, hxy, hpos, hfirst, hr⟩,
            hmember⟩
  · rintro x out c' ⟨-, hsound⟩ hrun
    obtain ⟨hlt, rfl | ⟨stop, rfl⟩⟩ := Lint.wp_ok (round_finds q) hrun
    · trivial
    · exact ⟨rfl, hsound hlt⟩

theorem wp_inClass {α : Type} {x : Lint α} {Q : α → Prop}
    (h : Lint.wp x (fun a _ => Q a) (fun _ => True) { c with scope := .classBody }) :
    Lint.wp (inClass x) (fun a _ => Q a) (fun _ => True) c := by
  unfold Lint.wp inClass at *
  rcases hx : x { c with scope := .classBody } with ⟨e | a, c'⟩
  · trivial
  · simpa only [hx] using h

theorem getElem?_of_classHead (hq : q ≤ s.length) (hm : Shape.classHead.matchAt s q = some m) :
    s[q]? = some 'c' := by
  obtain ⟨u, t, hreads, -, v, hs⟩ := Shape.classHead_name hq hm
  obtain ⟨w, rfl⟩ := Shape.classLead_head hreads
  rw [← List.head?_drop, ← hs]
  rfl

theorem check_sound (hq : q ≤ s.length) (hpassed : MacroBefore s q) (hc : c.line = s.lineOf q) :
    Lint.wp (check s q) (fun out c' => out = .absent ∧ c' = c ∨ out.Sound s q)
      (fun _ => True) c := by
  unfold check
  split
  · rename_i m hm
    exact .inr ⟨by rw [Pattern.start_of_matchAt hq hm], by simp⟩
  · split
    · rename_i m hm
      obtain ⟨u, t, hreads, hname, hprefix⟩ := Shape.classHead_name hq hm
      simp only [hname, Option.getD_some, Lint.wp_bind, Lint.wp_currentLine, Lint.wp_lift_ensures]
      refine Scan.ensures_mono nameReports_named ?_
      intro reports hreports
      have hlocated : ∀ r ∈ reports, r.Located s := by
        intro r hr
        obtain ⟨hnaming, hcontext, hline⟩ := hreports r hr
        exact .named ⟨hnaming, Shape.classLead, by simp [Report.nameLeads], q, u, t, hreads, hcontext,
          hprefix, hline.trans hc⟩
      have hends := members_end (getElem?_of_classHead hq hm) hpassed
      have hinside : ({ c with scope := .classBody } : Context).line = s.lineOf q := hc
      have hbody := wp_inClass (body_sound hends hq hm hinside hlocated)
      exact Lint.wp_mono hbody (fun _ _ h => .inr h)
    · exact .inl ⟨rfl, rfl⟩

theorem form_sound (hq : q ≤ s.length) (hpassed : MacroBefore s q) :
    Declaration.FormGives s q (ClassReport s q) form := by
  intro c hc
  simp only [form, Lint.wp_bind]
  refine Lint.wp_mono (check_sound hq hpassed hc) ?_
  intro out c' hout
  cases out with
  | absent =>
    obtain ⟨-, rfl⟩ := hout.resolve_right id
    exact hc
  | unfinished => simp
  | found x =>
    obtain ⟨hstart, hreports⟩ := hout.resolve_left (by simp)
    exact ⟨by omega, hreports⟩

end Class

end CodeAudit
