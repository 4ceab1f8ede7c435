import CodeAudit.Declaration.Directive
import CodeAudit.Declaration.Simple
import CodeAudit.Proofs.Body.Lines

namespace CodeAudit

variable {s t : Text} {q : Nat} {i : Int} {m : Match} {r : Report} {P P' : Report → Prop}

theorem Report.exact_of_prefix (ht : t <+: s.drop q) {line : Int} (hl : line = s.lineOf q)
    (rule : Rule) : Report.Exact s ⟨line, rule, some t, none⟩ := by
  rintro _ ⟨⟩
  exact ⟨q, ht, hl⟩

theorem Pattern.text_prefix_of_matchAt {p : Pattern} (hq : q ≤ s.length)
    (hm : p.matchAt s q = some m) : m.text s <+: s.drop q := by
  rw [← start_of_matchAt hq hm]
  exact Match.text_prefix s m

namespace Declaration

def FormGives (s : Text) (q : Nat) (P : Report → Prop) (f : Form) : Prop :=
  ∀ c : Context, c.line = s.lineOf q → Lint.wp (f s q) (fun found c' => match found with
    | none => c'.line = s.lineOf q
    | some x => x.start ≠ -1 ∧ ∀ r ∈ x.reports, P r) (fun _ => True) c

theorem FormGives.mono {f : Form} (h : FormGives s q P f) (hP : ∀ r, P r → P' r) :
    FormGives s q P' f := by
  intro c hc
  refine Lint.wp_mono (h c hc) ?_
  intro found c' hfound
  cases found with
  | none => exact hfound
  | some x => exact ⟨hfound.1, fun r hr => hP r (hfound.2 r hr)⟩

theorem first_gives {fs : List Form} {c : Context} (hfs : ∀ f ∈ fs, FormGives s q P f)
    (hc : c.line = s.lineOf q) :
    Lint.wp (Form.first fs s q) (fun found _ => ∀ x, found = some x → ∀ r ∈ x.reports, P r)
      (fun _ => True) c := by
  refine Lint.wp_first (fun c' => c'.line = s.lineOf q) fs (by simp) ?_ c hc
  intro f hf c' hc'
  refine Lint.wp_mono (hfs f hf c' hc') ?_
  intro found c'' hfound
  cases found with
  | none => exact hfound
  | some x =>
    simp only [if_neg hfound.1]
    rintro y hy
    obtain rfl := Option.some.inj hy
    exact hfound.2

theorem ofSpan_gives {f : Text → Int → Option Span} (hf : ∀ x, f s q = some x → x.start ≠ -1) :
    FormGives s q P (.ofSpan f) := by
  intro c hc
  simp only [Form.ofSpan, Lint.wp_pure]
  cases hx : f s q with
  | none => exact hc
  | some x => exact ⟨hf x hx, by simp⟩

theorem whole_gives (p : Pattern) : FormGives s q P (.ofSpan (Statement.whole p)) := by
  apply ofSpan_gives
  intro x hx
  obtain ⟨m, -, hstart, -⟩ := Statement.whole_eq_some hx
  omega

theorem upTo_gives (e : Char) (p : Pattern) : FormGives s q P (.ofSpan (Statement.upTo e p)) := by
  apply ofSpan_gives
  intro x hx
  obtain ⟨m, -, hstart, -⟩ := Statement.upTo_eq_some hx
  omega

theorem macroRule?_isNaming {name : Text} {rule : Rule} (h : macroRule? name = some rule) :
    rule.isNaming = true := by
  unfold macroRule? at h
  split at h
  · obtain rfl := Option.some.inj h
    rfl
  · split at h
    · obtain rfl := Option.some.inj h
      rfl
    · cases h

theorem define_gives (hq : q ≤ s.length) : FormGives s q (Report.Located s) define := by
  intro c hc
  unfold define
  split
  · rename_i m hm
    obtain ⟨w, v, hs, hstart, hstop, hr⟩ := Pattern.reads_of_matchAt (by decide) hq hm
    simp only [Lint.wp_bind, Lint.wp_lift_ensures]
    intro j hj
    rcases Text.nextInk_cases s m.stop with ⟨hnext, -⟩ | ⟨u, e, z, hu, hblank, -, hnext⟩
    · obtain rfl : -1 = j := Except.ok.inj (hnext.symm.trans hj)
      simp
    · obtain rfl : ((m.stop + u.length : Nat) : Int) = j := Except.ok.inj (hnext.symm.trans hj)
      have hne : (((m.stop + u.length : Nat) : Int) == -1) = false := by
        apply beq_false_of_ne
        omega
      simp only [hne, Bool.false_eq_true, if_false]
      split
      · rename_i k hk
        simp only [Lint.wp_bind, Lint.wp_currentLine, Lint.wp_lift_ensures, Lint.wp_pure]
        intro stop _
        refine ⟨by omega, ?_⟩
        intro r hr'
        obtain ⟨rule, hrule, rfl⟩ := List.mem_map.mp hr'
        refine .named ⟨macroRule?_isNaming (Option.mem_toList.mp hrule), _, List.mem_cons_self, q,
          w ++ u, k.text s, hr.cat ?_, rfl, ?_, hc⟩
        · exact ⟨hblank, Nat.zero_le _⟩
        · have hname := Pattern.text_prefix_of_matchAt (Nat.le_of_lt (Text.le_length_of_drop hu)) hk
          rw [Text.drop_of_drop_append hu] at hname
          rw [hstop, Text.drop_of_drop_append hs] at hu
          rw [hs, hu, List.append_assoc]
          exact List.prefix_append_right_inj w |>.mpr (List.prefix_append_right_inj u |>.mpr hname)
      · simp
  · exact hc

theorem enum_spec (i : Int) {c : Context} :
    Lint.wp (enum s i) (fun found c' => c' = c ∧ ∀ x, found = some x →
      (x.start ≠ -1 ∧ ∀ r ∈ x.reports, r.Exact s)) (fun _ => True) c := by
  unfold enum
  split
  · simp only [Lint.wp_bind, Lint.wp_get, Lint.wp_pure, Option.some.injEq]
    refine ⟨trivial, ?_⟩
    rintro x rfl
    refine ⟨by simp, ?_⟩
    intro r hr
    split at hr
    · obtain rfl := List.mem_singleton.mp hr
      exact Report.exact_of_context_eq_none rfl
    · cases hr
  · simp

theorem enum_gives : FormGives s q (Report.Exact s) enum := by
  intro c hc
  refine Lint.wp_mono (enum_spec q) ?_
  rintro found c' ⟨rfl, hfound⟩
  cases found with
  | none => exact hc
  | some x => exact hfound x rfl

theorem struct_starts :
    Scan.Ensures (Statement.struct s i) fun found => ∀ x, found = some x → x.start ≠ -1 := by
  simp only [Statement.struct, Scan.ensures_bind]
  refine Scan.ensures_mono (Statement.braced_begins _) ?_
  intro found hfound
  cases found with
  | none => simp
  | some x =>
    obtain ⟨⟨m, -, hstart⟩, -⟩ := hfound x rfl
    simp only
    split
    · simp only [Scan.ensures_bind, Scan.ensures_throw]
    · simp only [Scan.ensures_bind]
      intro e _
      split
      · simp only [Scan.ensures_bind, Scan.ensures_throw]
      · simp only [Scan.ensures_pure, Option.some.injEq]
        rintro y rfl
        exact show x.start ≠ -1 by omega

theorem struct_gives : FormGives s q P (.ofScan Statement.struct) := by
  intro c hc
  simp only [Form.ofScan, Lint.wp_bind, Lint.wp_lift_ensures, Lint.wp_pure]
  refine Scan.ensures_mono struct_starts ?_
  intro found hfound
  cases found with
  | none => exact hc
  | some x => exact ⟨hfound x rfl, by simp⟩

theorem typedef_spec (i : Int) {c : Context} :
    Lint.wp (typedef s i) (fun found c' => match found with
      | none => c' = c
      | some x => x.start ≠ -1 ∧ ∀ r ∈ x.reports, r.Exact s) (fun _ => True) c := by
  unfold typedef
  split
  · simp only [Lint.wp_bind, Lint.wp_lift_ensures]
    intro next _
    refine Lint.wp_mono (enum_spec next) ?_
    rintro found c' ⟨rfl, hfound⟩
    cases found with
    | some x =>
      simp only [Lint.wp_pure]
      exact ⟨by simp, (hfound x rfl).2⟩
    | none =>
      simp only [Lint.wp_bind, Lint.wp_lift_ensures]
      intro span _
      cases span <;> simp
  · exact rfl

theorem typedef_gives : FormGives s q (Report.Exact s) typedef := by
  intro c hc
  refine Lint.wp_mono (typedef_spec q) ?_
  intro found c' hfound
  cases found with
  | none => exact hfound ▸ hc
  | some x => exact hfound

theorem objectMark_gives (hq : q ≤ s.length) : FormGives s q (Report.Exact s) objectMark := by
  intro c hc
  unfold objectMark
  split
  · rename_i m hm
    have hprefix := Pattern.text_prefix_of_matchAt hq hm
    simp only [Lint.wp_bind, Lint.wp_lift_ensures]
    intro next _
    split
    · simp
    · simp only [Lint.wp_bind, Lint.wp_currentLine, Lint.wp_pure]
      refine ⟨by simp, ?_⟩
      intro r hr
      obtain rfl := List.mem_singleton.mp hr
      exact Report.exact_of_prefix hprefix hc _
  · exact hc

theorem includeFile_gives (hq : q ≤ s.length) : FormGives s q (Report.Exact s) includeFile := by
  intro c hc
  unfold includeFile
  split
  · rename_i m hm
    have hprefix := Pattern.text_prefix_of_matchAt hq hm
    simp only [Lint.wp_bind, Lint.wp_get, Lint.wp_pure]
    refine ⟨by simp, ?_⟩
    intro r hr
    split at hr
    · obtain rfl := List.mem_singleton.mp hr
      exact Report.exact_of_prefix hprefix hc _
    · cases hr
  · split
    · rename_i m _
      have hfound : (m.start : Int) ≠ -1 ∧ ∀ r ∈ ([] : List Report), r.Exact s := by simp
      split
      · simp only [Lint.wp_bind, Lint.wp_get]
        split
        · split
          · simpa only [Lint.wp_pure] using hfound
          · simpa only [Lint.wp_bind, Lint.wp_modify, Lint.wp_pure] using hfound
        · simp
      · simp
    · exact hc

theorem variableAt?_eq_some {name text : Text} (hq : q ≤ s.length)
    (h : variableAt? s q = some (name, text, m)) : text <+: s.drop q := by
  obtain ⟨k, hk, h⟩ := Option.map_eq_some_iff.mp h
  obtain ⟨-, rfl, rfl⟩ : _ ∧ _ ∧ k = m := by simpa only [Prod.mk.injEq] using h
  exact Pattern.text_prefix_of_matchAt hq hk

theorem told_exact {text : Text} {line : Int} (htext : text <+: s.drop q) (hl : line = s.lineOf q)
    (found : Option Rule) :
    ∀ r ∈ found.toList.map fun rule => (⟨line, rule, some text, none⟩ : Report), r.Exact s := by
  intro r hr
  obtain ⟨rule, -, rfl⟩ := List.mem_map.mp hr
  exact Report.exact_of_prefix htext hl rule

theorem rawArray_exact {line : Int} (hq : q ≤ s.length) (hl : line = s.lineOf q) :
    ∀ r ∈ ((Variable.rawArray? s q).map fun a => (⟨line, .rawArray, some a, none⟩ : Report)).toList,
      r.Exact s := by
  intro r hr
  obtain ⟨t, ht, rfl⟩ := Option.map_eq_some_iff.mp (Option.mem_toList.mp hr)
  exact Report.exact_of_prefix (Body.rawArray?_prefix hq ht) hl _

theorem memberTypeReport?_exact {text : Text} {line : Int} (hq : q ≤ s.length)
    (htext : text <+: s.drop q) (hl : line = s.lineOf q) :
    Scan.Ensures (memberTypeReport? s q text line) fun found => ∀ r ∈ found, r.Exact s := by
  have htold : ∀ rule, Report.Exact s ⟨line, rule, some text, none⟩ :=
    Report.exact_of_prefix htext hl
  unfold memberTypeReport?
  split
  · simpa using htold _
  · simp only [Scan.ensures_bind]
    intro pointer _
    split
    · simpa using htold _
    · split
      · rename_i array harray
        simpa using Report.exact_of_prefix (Body.rawArray?_prefix hq harray) hl _
      · simp only [Scan.ensures_pure]
        intro r hr
        obtain ⟨rule, -, rfl⟩ := Option.map_eq_some_iff.mp hr
        exact htold rule

theorem memberVariable_gives (hq : q ≤ s.length) : FormGives s q (Report.Exact s) memberVariable := by
  intro c hc
  unfold memberVariable
  split
  · rename_i name text m hm
    have htext := variableAt?_eq_some hq hm
    have htold : ∀ rule, Report.Exact s ⟨c.line, rule, some text, none⟩ :=
      Report.exact_of_prefix htext hc
    simp only [Lint.wp_bind, Lint.wp_currentLine]
    split
    · simpa using htold _
    · simp only [Lint.wp_bind, Lint.wp_lift_ensures, Lint.wp_pure]
      refine Scan.ensures_mono (memberTypeReport?_exact hq htext hc) ?_
      intro other hother
      refine ⟨by simp, ?_⟩
      intro r hr
      rcases List.mem_append.mp hr with hr | hr
      · split at hr
        · cases hr
        · obtain rfl := List.mem_singleton.mp hr
          exact htold _
      · exact hother r (Option.mem_toList.mp hr)
  · exact hc

theorem globalVariable_gives (hq : q ≤ s.length) : FormGives s q (Report.Exact s) globalVariable := by
  intro c hc
  unfold globalVariable
  split
  · rename_i name text m hm
    have htext := variableAt?_eq_some hq hm
    simp only [Lint.wp_bind, Lint.wp_currentLine]
    split
    · simpa using Report.exact_of_prefix htext hc _
    · simp only [Lint.wp_bind, Lint.wp_lift_ensures, Lint.wp_pure]
      intro pointer _
      refine ⟨by simp, ?_⟩
      intro r hr
      rcases List.mem_append.mp hr with hr | hr
      · rcases List.mem_append.mp hr with hr | hr
        · exact told_exact htext hc pointer r hr
        · exact rawArray_exact hq hc r hr
      · exact told_exact htext hc _ r hr
  · exact hc

end Declaration

end CodeAudit
