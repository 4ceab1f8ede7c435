import CodeAudit.Body
import CodeAudit.Proofs.Lint.Logic
import CodeAudit.Proofs.Nesting.Lines

namespace CodeAudit

variable {s d : Text} {q : Nat} {i : Int} {c : Context}

namespace Body

def Tells (s : Text) (q : Nat) (line : Int) (r : Report) : Prop :=
  r.rule.isLocal = true ∧ r.Quotes s q ∧ r.line = line

theorem localRule?_isLocal : Scan.Ensures (Variable.localRule? d) fun found =>
    ∀ rule ∈ found, rule.isLocal = true := by
  simp only [Variable.localRule?, Scan.ensures_bind]
  rintro ⟨name, declaration⟩ _
  simp only
  split
  · simp [Rule.isLocal]
  · split <;> simp [Rule.isLocal]

theorem rawPointerRule?_isLocal : Scan.Ensures (Variable.rawPointerRule? d) fun found =>
    ∀ rule ∈ found, rule.isLocal = true := by
  simp only [Variable.rawPointerRule?, Scan.ensures_bind]
  rintro ⟨name, declaration⟩ _
  simp only
  split
  · simp
  · split <;> simp [Rule.isLocal]

theorem containerRule?_isLocal : ∀ rule ∈ Variable.containerRule? d, rule.isLocal = true := by
  intro rule h
  unfold Variable.containerRule? at h
  split at h
  · obtain ⟨container, -, rfl⟩ := Option.map_eq_some_iff.mp h
    rfl
  · cases h

theorem rawArray?_prefix {t : Text} (hq : q ≤ s.length) (h : Variable.rawArray? s q = some t) :
    t <+: s.drop q := by
  obtain ⟨m, hm, rfl⟩ := Option.map_eq_some_iff.mp h
  rw [← Pattern.start_of_matchAt hq hm]
  exact Match.text_prefix s m

theorem localReports_tells (hq : q ≤ s.length) (hd : d <+: s.drop q) :
    Lint.wp (localReports s q d)
      (fun reports c' => c' = c ∧ ∀ r ∈ reports, Tells s q c.line r) (fun _ => True) c := by
  have htold : ∀ {found : Option Rule}, (∀ rule ∈ found, rule.isLocal = true) →
      ∀ r ∈ found.toList.map fun rule => (⟨c.line, rule, some d, none⟩ : Report),
        Tells s q c.line r := by
    intro found hfound r hr
    obtain ⟨rule, hrule, rfl⟩ := List.mem_map.mp hr
    refine ⟨hfound rule (Option.mem_toList.mp hrule), ?_, rfl⟩
    intro t ht
    obtain rfl := Option.some.inj ht
    exact hd
  simp only [localReports, Lint.wp_bind, Lint.wp_currentLine, Lint.wp_lift_ensures, Lint.wp_pure]
  refine Scan.ensures_mono localRule?_isLocal ?_
  intro own hown
  refine Scan.ensures_mono rawPointerRule?_isLocal ?_
  intro pointer hpointer
  refine ⟨trivial, ?_⟩
  intro r hr
  simp only [List.mem_append] at hr
  rcases hr with ((hr | hr) | hr) | hr
  · exact htold hown r hr
  · exact htold hpointer r hr
  · obtain ⟨t, ht, rfl⟩ := Option.map_eq_some_iff.mp (Option.mem_toList.mp hr)
    refine ⟨rfl, ?_, rfl⟩
    intro u hu
    obtain rfl := Option.some.inj hu
    exact rawArray?_prefix hq ht
  · exact htold containerRule?_isLocal r hr

theorem leftSide_prefix (s : Text) (m : Match) : leftSide s m <+: s.drop m.start := by
  have htold : (s.take m.stop).drop m.start <+: s.drop m.start := Match.text_prefix s m
  have hleft : leftSide s m <+: (s.take m.stop).drop m.start := by
    unfold leftSide
    generalize (s.take m.stop).drop m.start = told
    cases told with
    | nil => exact List.prefix_rfl
    | cons c rest =>
      apply List.cons_prefix_cons.mpr
      refine ⟨rfl, ?_⟩
      split
      · exact List.take_prefix _ _
      · have h := List.reverse_prefix.mpr
          (List.dropWhile_suffix (l := rest.reverse)
            fun d => ['=', '+', '-', '*', '/', ' '].contains d)
        rwa [List.reverse_reverse] at h
  exact hleft.trans htold

def FormTells (s : Text) (q : Nat) (f : Form) : Prop :=
  ∀ c, Lint.wp (f s q) (fun found c' => c' = c ∧ ∀ x, found = some x →
    -1 ≤ x.stop ∧ ∀ r ∈ x.reports, Tells s q c.line r ∨ r.Exact s) (fun _ => True) c

theorem ofSpan_tells {f : Text → Int → Option Span}
    (hf : ∀ x, f s q = some x → -1 ≤ x.stop) : FormTells s q (.ofSpan f) := by
  intro c
  simp only [Form.ofSpan, Lint.wp_pure, Option.map_eq_some_iff]
  refine ⟨trivial, ?_⟩
  rintro _ ⟨x, hx, rfl⟩
  exact ⟨hf x hx, by simp⟩

theorem ofScan_tells {f : Text → Int → Scan (Option Span)}
    (hf : Scan.Ensures (f s q) fun found => ∀ x, found = some x → -1 ≤ x.stop) :
    FormTells s q (.ofScan f) := by
  intro c
  simp only [Form.ofScan, Lint.wp_bind, Lint.wp_lift_ensures, Lint.wp_pure, Option.map_eq_some_iff]
  refine Scan.ensures_mono hf ?_
  intro found hfound
  refine ⟨trivial, ?_⟩
  rintro _ ⟨x, hx, rfl⟩
  exact ⟨hfound x hx, by simp⟩

theorem measured_tells {keyword : String} {form : Text → Int → Scan (Option Span)}
    (h : (keyword, form) ∈ Nesting.measured) : FormTells s q (measured keyword form) := by
  intro c
  simp only [measured, Lint.wp_bind, Lint.wp_lift_ensures]
  refine Scan.ensures_mono (Nesting.measured_indented h) ?_
  intro found hfound
  cases found with
  | none => simp
  | some x =>
    obtain ⟨hindented, hstop⟩ := hfound x rfl
    simp only [Lint.wp_bind, Lint.wp_lift_ensures, Lint.wp_pure, Nesting.check]
    refine Scan.ensures_mono (Nesting.measure_exact _ hindented) ?_
    intro z hz
    simp only [Option.some.injEq]
    refine ⟨trivial, ?_⟩
    rintro y rfl
    exact ⟨hstop, fun r hr => .inr (hz r hr)⟩

theorem quotes_slice (s : Text) (q : Nat) (j : Int) {r : Report}
    (hr : r.context = some (s.slice q j)) : r.Quotes s q := by
  intro t ht
  obtain rfl := Option.some.inj (hr.symm.trans ht)
  exact Text.slice_prefix s q j

theorem rawMemory_tells : FormTells s q rawMemory := by
  intro c
  have hstop : -1 ≤ (Variable.rawMemory s q).2 := by
    simp only [Variable.rawMemory]
    split
    · simp only
      omega
    · exact Text.neg_one_le_find ..
  rcases hv : Variable.rawMemory s q with ⟨found, stop⟩
  rw [hv] at hstop
  simp only [rawMemory, hv]
  cases found with
  | false => simp
  | true =>
    simp only [if_true, Lint.wp_bind, Lint.wp_currentLine, Lint.wp_pure, Option.some.injEq]
    refine ⟨trivial, ?_⟩
    rintro x rfl
    refine ⟨hstop, ?_⟩
    intro r hr
    obtain rfl := List.mem_singleton.mp hr
    exact .inl ⟨rfl, quotes_slice s q stop rfl, rfl⟩

theorem plainCast_tells : FormTells s q plainCast := by
  intro c
  have hstop : -1 ≤ (Variable.plainCast s q).2 := Text.neg_one_le_find ..
  rcases hv : Variable.plainCast s q with ⟨found, stop⟩
  rw [hv] at hstop
  simp only [plainCast, hv]
  cases found with
  | false => simp
  | true =>
    simp only [if_true, Lint.wp_bind, Lint.wp_currentLine, Lint.wp_pure, Option.some.injEq]
    refine ⟨trivial, ?_⟩
    rintro x rfl
    refine ⟨hstop, ?_⟩
    intro r hr
    obtain rfl := List.mem_singleton.mp hr
    exact .inl ⟨rfl, quotes_slice s q stop rfl, rfl⟩

theorem assignment_tells (hq : q ≤ s.length) : FormTells s q assignment := by
  intro c
  unfold assignment
  split
  · rename_i m hm
    have hleft : leftSide s m <+: s.drop q := by
      rw [← Pattern.start_of_matchAt hq hm]
      exact leftSide_prefix s m
    have hstop : -1 ≤ s.find ';' m.stop := Text.neg_one_le_find ..
    simp only
    split
    · simp only [Lint.wp_bind, Lint.wp_pure]
      refine Lint.wp_mono (localReports_tells hq hleft) ?_
      rintro reports c' ⟨rfl, hreports⟩
      simp only [Option.some.injEq]
      refine ⟨trivial, ?_⟩
      rintro x rfl
      exact ⟨hstop, fun r hr => .inl (hreports r hr)⟩
    · simp only [Lint.wp_bind, Lint.wp_pure, Option.some.injEq]
      refine ⟨trivial, ?_⟩
      rintro x rfl
      exact ⟨hstop, by simp⟩
  · simp

theorem declaration_tells (hq : q ≤ s.length) : FormTells s q declaration := by
  intro c
  unfold declaration
  split
  · rename_i m hm
    have hdeclared : s.slice m.start (s.find ';' m.stop + 1) <+: s.drop q := by
      rw [Pattern.start_of_matchAt hq hm]
      exact Text.slice_prefix ..
    simp only
    split
    · simp
    · simp only [Lint.wp_bind, Lint.wp_pure]
      refine Lint.wp_mono (localReports_tells hq hdeclared) ?_
      rintro reports c' ⟨rfl, hreports⟩
      simp only [Option.some.injEq]
      refine ⟨trivial, ?_⟩
      rintro x rfl
      exact ⟨Text.neg_one_le_find .., fun r hr => .inl (hreports r hr)⟩
  · simp

theorem forms_tell (hq : q ≤ s.length) : ∀ f ∈ forms, FormTells s q f := by
  have hwhole : ∀ {p : Pattern} {x : Span}, Statement.whole p s q = some x → -1 ≤ x.stop := by
    intro p x hx
    obtain ⟨m, -, -, hstop⟩ := Statement.whole_eq_some hx
    omega
  simp only [forms, List.forall_mem_cons, List.not_mem_nil, false_implies, implies_true, and_true]
  refine ⟨measured_tells (by simp [Nesting.measured]), ofSpan_tells fun _ => hwhole,
    measured_tells (by simp [Nesting.measured]), ofScan_tells ?_, ofSpan_tells ?_,
    measured_tells (by simp [Nesting.measured]), ofScan_tells ?_, ofSpan_tells fun _ => hwhole,
    measured_tells (by simp [Nesting.measured]), rawMemory_tells, ofSpan_tells fun _ => hwhole,
    ofSpan_tells fun _ => hwhole, assignment_tells hq, plainCast_tells, declaration_tells hq⟩
  · refine Scan.ensures_mono Statement.foreachStatement_bounds ?_
    intro found h x hx
    exact (h x hx).2
  · intro x hx
    obtain ⟨m, -, -, hstop⟩ := Statement.upTo_eq_some hx
    rw [hstop]
    exact Text.neg_one_le_find ..
  · refine Scan.ensures_mono Statement.doStatement_begins ?_
    intro found h x hx
    exact (h x hx).2

end Body

end CodeAudit
