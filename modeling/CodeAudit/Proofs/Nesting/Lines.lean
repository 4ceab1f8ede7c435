import CodeAudit.Nesting
import CodeAudit.Proofs.Pattern.Lead
import CodeAudit.Proofs.Report.Located
import CodeAudit.Proofs.Statement.Bounds

namespace CodeAudit

variable {s u : Text} {a : Nat} {i : Int}

namespace Text

def Indents (s : Text) (a : Nat) : Prop :=
  ∃ w e v, s.drop a = w ++ e :: v ∧ (∀ b ∈ w, b ∈ [' ', '\t', '\r']) ∧ isBlank e = false

theorem dropBlanks_append {w : Text} (hw : ∀ b ∈ w, isBlank b = true) (v : Text) :
    dropBlanks (w ++ v) = dropBlanks v :=
  List.dropWhile_append_of_pos hw

theorem trim_eq_nil (hu : ∀ b ∈ u, isBlank b = true) : trim u = [] := by
  have hdrop : dropBlanks u = [] := by
    have h := dropBlanks_append hu []
    rwa [List.append_nil] at h
  rw [trim, hdrop]
  rfl

theorem trim_cons_isPrefix {e : Char} (he : isBlank e = false) (v : Text) : trim (e :: v) <+: e :: v := by
  have hdrop : dropBlanks (e :: v) = e :: v := List.dropWhile_cons_of_neg (by simp [he])
  rw [trim, hdrop]
  have hsuffix : dropBlanks (e :: v).reverse <:+ (e :: v).reverse := List.dropWhile_suffix _
  have h := List.reverse_prefix.mpr hsuffix
  rwa [List.reverse_reverse] at h

theorem exists_trim_prefix (h : s.Indents a) (hu : u <+: s.drop a) :
    ∃ q, trim u <+: s.drop q ∧ s.lineOf q = s.lineOf a := by
  obtain ⟨w, e, v, hs, hw, he⟩ := h
  have hblank : ∀ b ∈ w, isBlank b = true := by
    intro b hb
    have hmem := hw b hb
    simp only [List.mem_cons, List.not_mem_nil, or_false] at hmem
    rcases hmem with rfl | rfl | rfl <;> decide
  obtain ⟨r, hr⟩ := hu
  rw [hs] at hr
  rcases Pattern.exists_read_of_append hr with ⟨t, rfl⟩ | ⟨t, rfl⟩
  · refine ⟨a, ?_, rfl⟩
    rw [trim_eq_nil fun b hb => hblank b (List.mem_append_left t hb)]
    exact List.nil_prefix
  · refine ⟨a + w.length, ?_, ?_⟩
    · have htrim : trim (w ++ e :: t) = trim (e :: t) := by
        rw [trim, trim, dropBlanks_append hblank]
      have hrest : e :: t ++ r = e :: v := by
        rwa [List.append_assoc, List.append_cancel_left_eq] at hr
      rw [htrim, drop_of_drop_append hs, ← hrest]
      exact (trim_cons_isPrefix he t).trans (List.prefix_append _ r)
    · have hno : w.count '\n' = 0 := by
        apply List.count_eq_zero.mpr
        intro hmem
        exact absurd (hw _ hmem) (by decide)
      have hbreaks : s.lineBreaks a (a + w.length : Nat) = 0 := by
        rw [lineBreaks_natCast, Nat.add_sub_cancel_left, hs, List.take_left, hno]
      have h := lineOf_add_lineBreaks (s := s) (Nat.le_add_right a w.length)
      omega

end Text

def Span.Indented (s : Text) (x : Span) : Prop :=
  ∃ a : Nat, x.start = a ∧ s.Indents a

namespace Nesting

theorem indented_of_begins {p : Pattern} {x : Span}
    (hp : (Shape.indented p).isPlain = true)
    (ho : ∀ o ∈ p.openings, o.head?.any (!Text.isBlank ·) = true)
    (h : Statement.Begins (Shape.indented p) s i x) : x.Indented s := by
  obtain ⟨⟨m, hm, hstart⟩, -⟩ := h
  obtain ⟨-, -, -, hmem⟩ := Pattern.matchAt_eq_some hm
  obtain ⟨w, hw, -, hr⟩ := Pattern.reads_of_mem_ends hp hmem
  obtain ⟨x, y, rfl, hx, hy⟩ := hr
  obtain ⟨o, hmem, r, rfl⟩ := Pattern.exists_opening_of_reads hy
  obtain ⟨e, o, rfl, hink⟩ : ∃ e t, o = e :: t ∧ Text.isBlank e = false := by
    have hhead := ho o hmem
    cases o with
    | nil => cases hhead
    | cons e t => exact ⟨e, t, rfl, by simpa using hhead⟩
  refine ⟨m.start, hstart, x, e, o ++ r ++ s.drop m.stop, ?_, ?_, hink⟩
  · change s.drop m.start = _ at hw
    rw [hw]
    simp
  · intro b hb
    simpa [CharClass.has] using hx.1 b hb

theorem measured_begins {keyword : String} {form : Text → Int → Scan (Option Span)}
    (h : (keyword, form) ∈ measured) (s : Text) (i : Int) :
    ∃ p : Pattern, (Shape.indented p).isPlain = true ∧
      (∀ o ∈ p.openings, o.head?.any (!Text.isBlank ·) = true) ∧
      Scan.Ensures (form s i) fun found =>
        ∀ x, found = some x → Statement.Begins (Shape.indented p) s i x := by
  simp only [measured, List.mem_cons, Prod.mk.injEq, List.not_mem_nil, or_false] at h
  rcases h with ⟨-, rfl⟩ | ⟨-, rfl⟩ | ⟨-, rfl⟩ | ⟨-, rfl⟩
  · exact ⟨Shape.ifHead, by decide, by decide, Statement.ifStatement_begins⟩
  · exact ⟨Shape.forHead, by decide, by decide, Statement.forStatement_begins⟩
  · exact ⟨Shape.whileHead, by decide, by decide, Statement.braced_begins _⟩
  · exact ⟨Shape.switchHead, by decide, by decide, Statement.braced_begins _⟩

theorem measured_indented {keyword : String} {form : Text → Int → Scan (Option Span)}
    (h : (keyword, form) ∈ measured) :
    Scan.Ensures (form s i) fun found =>
      ∀ x, found = some x → x.Indented s ∧ -1 ≤ x.stop := by
  obtain ⟨p, hp, ho, hbegins⟩ := measured_begins h s i
  refine Scan.ensures_mono hbegins ?_
  intro found hfound x hx
  exact ⟨indented_of_begins hp ho (hfound x hx), (hfound x hx).2⟩

theorem first?_mem (forms : List (String × (Text → Int → Scan (Option Span)))) :
    Scan.Ensures (first? s i forms) fun found =>
      ∀ keyword x, found = some (keyword, x) →
        ∃ form, (keyword, form) ∈ forms ∧ form s i = .ok (some x) := by
  induction forms with
  | nil => simp [first?]
  | cons y forms ih =>
    obtain ⟨keyword, form⟩ := y
    simp only [first?, Scan.ensures_bind]
    intro found hfound
    cases found with
    | some x =>
      simp only [Scan.ensures_pure, Option.some.injEq, Prod.mk.injEq]
      rintro _ _ ⟨rfl, rfl⟩
      exact ⟨form, List.mem_cons_self, hfound⟩
    | none =>
      refine Scan.ensures_mono ih ?_
      intro found h keyword x hx
      obtain ⟨form, hmem, hform⟩ := h keyword x hx
      exact ⟨form, List.mem_cons_of_mem _ hmem, hform⟩

theorem round_exact {inner : String → Span → Scan (Nat × List Report)} {stop : Int} {c : Count}
    (hinner : ∀ keyword x, x.Indented s →
      Scan.Ensures (inner keyword x) fun z => ∀ r ∈ z.2, r.Exact s)
    (hc : ∀ r ∈ c.reports, r.Exact s) :
    Scan.Ensures (round inner s stop c) fun z =>
      match z with | .done c | .again c => ∀ r ∈ c.reports, r.Exact s := by
  unfold round
  split
  · simp only [Scan.ensures_bind]
    refine Scan.ensures_mono (first?_mem measured) ?_
    intro found hfound
    cases found with
    | none => simpa only [Scan.ensures_pure] using hc
    | some y =>
      obtain ⟨keyword, x⟩ := y
      obtain ⟨form, hmem, hform⟩ := hfound keyword x rfl
      have hx := (measured_indented hmem (some x) hform x rfl).1
      simp only [Scan.ensures_bind]
      refine Scan.ensures_mono (hinner keyword x hx) ?_
      intro z hz
      simp only [Scan.ensures_pure, List.mem_append]
      rintro r (hr | hr)
      · exact hc r hr
      · exact hz r hr
  · simpa only [Scan.ensures_pure] using hc

theorem measure_exact (depth : Nat) {keyword : String} {x : Span} (hx : x.Indented s) :
    Scan.Ensures (measure s depth keyword x) fun z => ∀ r ∈ z.2, r.Exact s := by
  induction depth generalizing keyword x with
  | zero => exact (Scan.ensures_throw _).mpr trivial
  | succ depth ih =>
    have hcount : ∀ (states : Nat) (c : Count), (∀ r ∈ c.reports, r.Exact s) →
        Scan.Ensures (rounds (round (measure s depth) s x.stop) states c)
          fun c => ∀ r ∈ c.reports, r.Exact s := by
      apply Scan.ensures_rounds
      intro c hc
      refine Scan.ensures_mono (round_exact (fun _ _ hx => ih hx) hc) ?_
      intro z hz
      cases z <;> exact hz
    simp only [measure, Scan.ensures_bind]
    intro headEnd _
    refine Scan.ensures_mono (hcount _ _ (by simp)) ?_
    intro c hc
    split
    · obtain ⟨a, ha, hindents⟩ := hx
      rw [ha]
      obtain ⟨q, hq, hline⟩ := Text.exists_trim_prefix hindents
        (Text.slice_prefix s a (s.find ')' a + 1))
      simp only [Scan.ensures_pure, List.mem_append, List.mem_singleton]
      rintro r (hr | rfl)
      · exact hc r hr
      · intro t ht
        obtain rfl := Option.some.inj ht
        exact ⟨q, hq, by rw [hline]⟩
    · simpa only [Scan.ensures_pure] using hc

end Nesting

end CodeAudit
