import CodeAudit.Declaration.Function
import CodeAudit.Proofs.Declaration.Lines
import CodeAudit.Proofs.Token

namespace CodeAudit

variable {s w : Text} {q b : Nat} {i : Int} {m : Match} {r : Report} {c : Context}

namespace Declaration

def HasHead (s : Text) (p : Pattern) (a : Nat) (last : Int) : Prop :=
  ∃ m, p.matchAt s a = some m ∧ Bracket.paren.partner s (m.stop - 1) = .ok last

/-- A member of a class begins at `a`, and its body is taken to begin at `b`. -/
def HasBody (s : Text) (a b : Nat) : Prop :=
  (∃ p ∈ [Shape.function, Shape.operator, Shape.constructor], ∃ last, HasHead s p a last ∧
    s.find '{' (last + 1) = b) ∨
  ∃ m, Shape.destructor.matchAt s a = some m ∧ s.find '{' m.stop = b

def HasOuterBody (s : Text) (a b : Nat) : Prop :=
  (∃ p ∈ [Shape.function, Shape.operator], ∃ last, HasHead s p a last ∧
    s.find '{' (last + 1) = b) ∨
  ∃ p ∈ [Shape.destructorBody, Shape.constructorBody, Shape.methodBody], ∃ last,
    HasHead s p a last ∧ s.find '{' last = b

/-- The report is on a member of a class that begins at `a`. The body of a member is checked as if
it began in the line of the member. -/
def MemberReport (s : Text) (a : Nat) (r : Report) : Prop :=
  r.Located s ∨ ∃ b, HasBody s a b ∧ Body.Displaced s b (s.lineOf a) r

def OuterReport (s : Text) (a : Nat) (r : Report) : Prop :=
  r.Located s ∨ ∃ b, HasOuterBody s a b ∧ Body.Displaced s b (s.lineOf b) r

theorem MemberReport.of_counted (hbody : HasBody s q b) (h : Body.Counted s b (s.lineOf q) r) :
    MemberReport s q r :=
  h.exact_or_displaced.imp .inLine fun hplace => ⟨b, hbody, hplace⟩

theorem OuterReport.of_counted (hbody : HasOuterBody s q b) (h : Body.Counted s b (s.lineOf b) r) :
    OuterReport s q r :=
  h.exact_or_displaced.imp .inLine fun hplace => ⟨b, hbody, hplace⟩

theorem functionHead?_eq_some {name : Option Text} (h : functionHead? s i = some (m, name)) :
    ∃ p ∈ [Shape.function, Shape.operator], p.matchAt s i = some m := by
  unfold functionHead? at h
  split at h
  · rename_i k hk
    obtain ⟨rfl, -⟩ := Prod.mk.inj (Option.some.inj h)
    exact ⟨_, List.mem_cons_self, hk⟩
  · obtain ⟨k, hk, h⟩ := Option.map_eq_some_iff.mp h
    obtain ⟨rfl, -⟩ := Prod.mk.inj h
    exact ⟨Shape.operator, by simp, hk⟩

theorem parameters_spec (stop : Nat) (start : Int) :
    Lint.wp (parameters s stop start) (fun z c' => c' = c ∧
      Bracket.paren.partner s (stop - 1) = .ok z.1 ∧ -1 ≤ z.1 ∧
      ∃ rule : Option Rule, z.2 = rule.toList.map
        fun r => (⟨c.line, r, some (s.slice start (z.1 + 1)), none⟩ : Report)) (fun _ => True) c := by
  simp only [parameters, Lint.wp_bind, Lint.wp_lift_ensures, Lint.wp_currentLine, Lint.wp_pure]
  intro last hlast rule _
  exact ⟨trivial, hlast, Bracket.neg_one_le_partner .paren (by omega) last hlast, rule, rfl⟩

theorem parameters_gives (stop : Nat) (hc : c.line = s.lineOf q) :
    Lint.wp (parameters s stop q) (fun z c' => c' = c ∧
      Bracket.paren.partner s (stop - 1) = .ok z.1 ∧ -1 ≤ z.1 ∧ ∀ r ∈ z.2, r.Exact s)
      (fun _ => True) c := by
  refine Lint.wp_mono (parameters_spec stop q) ?_
  rintro z c' ⟨rfl, hlast, hle, rule, hreports⟩
  refine ⟨rfl, hlast, hle, ?_⟩
  rw [hreports]
  exact told_exact (Text.slice_prefix s q (z.1 + 1)) hc rule

theorem headEnd_brace (a : Nat) : Scan.Ensures (headEnd s a) fun e =>
    ∀ j, e = .brace j → ∃ b : Nat, j = b ∧ (s[b]? = some '{' → s.find '{' a = b) := by
  unfold headEnd
  rw [Int.toNat_natCast]
  cases hfind : (s.drop a).findIdx? fun d => d == ';' || d == '{' with
  | some k =>
    obtain ⟨hlt, -, hbefore⟩ := List.findIdx?_eq_some_iff_getElem.mp hfind
    simp only
    intro e he
    obtain rfl := Except.ok.inj he
    intro j hj
    split at hj
    · cases hj
    · refine ⟨a + k, by simpa using hj.symm, ?_⟩
      intro hb
      rw [← List.getElem?_drop] at hb
      have hs : s.drop a = (s.drop a).take k ++ '{' :: (s.drop a).drop (k + 1) := by
        rw [← (List.getElem?_eq_some_iff.mp hb).2, List.getElem_cons_drop, List.take_append_drop]
      have hlen : ((s.drop a).take k).length = k := List.length_take_of_le (Nat.le_of_lt hlt)
      rw [Text.find_of_drop hs, hlen]
      intro hmem
      obtain ⟨n, hn, hbrace⟩ := List.mem_take_iff_getElem.mp hmem
      have h := hbefore n (by omega)
      simp [hbrace] at h
  | none =>
    simp only
    split
    · rename_i hlt
      intro e he
      obtain rfl := Except.ok.inj he
      intro j hj
      obtain rfl : (s.length : Int) - 1 = j := by simpa using hj
      refine ⟨s.length - 1, by omega, ?_⟩
      intro hb
      have hmem : '{' ∈ s.drop a := Text.mem_drop_of_getElem? (by omega) hb
      have h := List.findIdx?_eq_none_iff.mp hfind '{' hmem
      simp at h
    · exact (Scan.ensures_throw _).mpr trivial

theorem method_gives (hq : q ≤ s.length) : FormGives s q (MemberReport s q) method := by
  intro c hc
  unfold method
  split
  · rename_i m name hhead
    obtain ⟨p, hp, hm⟩ := functionHead?_eq_some hhead
    rw [Pattern.start_of_matchAt hq hm]
    simp only [Lint.wp_bind]
    refine Lint.wp_mono (parameters_gives m.stop hc) ?_
    rintro ⟨last, reports⟩ c' ⟨rfl, hlast, hle, hreports⟩
    obtain ⟨a, ha⟩ : ∃ a : Nat, last + 1 = a := ⟨(last + 1).toNat, by omega⟩
    simp only [Lint.wp_lift_ensures, ha]
    refine Scan.ensures_mono (headEnd_brace a) ?_
    intro e he
    cases e with
    | semicolon j => exact ⟨by simp, fun r hr => .inl (.inLine (hreports r hr))⟩
    | brace j =>
      obtain ⟨b, rfl, hfind⟩ := he j rfl
      simp only [Lint.wp_bind, Lint.wp_pure]
      refine Lint.wp_mono (Body.check_counted b) ?_
      rintro body c'' ⟨hbrace, -, hbody⟩
      have hhas : HasBody s q b :=
        .inl ⟨p, List.mem_append_left _ hp, last, ⟨m, hm, hlast⟩, by rw [ha, hfind hbrace]⟩
      refine ⟨by simp, ?_⟩
      intro r hr
      rcases List.mem_append.mp hr with hr | hr
      · exact .inl (.inLine (hreports r hr))
      · exact .of_counted hhas (hc ▸ hbody r hr)
  · exact hc

theorem classConstructor_spec (i : Int) :
    Lint.wp (classConstructor s i) (fun found c' => match found with
      | none => c' = c
      | some x => ∃ m last, Shape.constructor.matchAt s i = some m ∧
        Bracket.paren.partner s (m.stop - 1) = .ok last ∧ x.start = m.start ∧
        s.BeforeTail x.stop ∧ ∀ r ∈ x.reports,
          ∃ b : Nat, s.find '{' (last + 1) = b ∧ Body.Counted s b c.line r) (fun _ => True) c := by
  unfold classConstructor
  split
  · rename_i m hm
    simp only [Lint.wp_bind]
    refine Lint.wp_mono (parameters_spec m.stop m.start) ?_
    rintro ⟨last, reports⟩ c' ⟨rfl, hlast, hle, -⟩
    obtain ⟨a, ha⟩ : ∃ a : Nat, last + 1 = a := ⟨(last + 1).toNat, by omega⟩
    simp only [Lint.wp_lift_ensures]
    intro t ht
    split
    · exact ⟨m, last, hm, hlast, rfl, Text.beforeTail_find (by decide) _, by simp⟩
    · split
      · rename_i hbrace
        rw [ha] at ht
        obtain ⟨b, hfind⟩ := Token.exists_find_of_next ht (eq_of_beq hbrace)
        rw [← ha] at hfind
        simp only [hfind, Lint.wp_bind, Lint.wp_pure]
        refine Lint.wp_mono (Body.check_counted b) ?_
        rintro body c'' ⟨-, hstop, hbody⟩
        exact ⟨m, last, hm, hlast, rfl, hstop, fun r hr => ⟨b, hfind, hbody r hr⟩⟩
      · rfl
  · rfl

theorem classConstructor_gives : FormGives s q (MemberReport s q) classConstructor := by
  intro c hc
  refine Lint.wp_mono (classConstructor_spec q) ?_
  intro found c' hfound
  cases found with
  | none => exact hfound ▸ hc
  | some x =>
    obtain ⟨m, last, hm, hlast, hstart, -, hreports⟩ := hfound
    refine ⟨by omega, ?_⟩
    intro r hr
    obtain ⟨b, hfind, hbody⟩ := hreports r hr
    have hhas : HasBody s q b := .inl ⟨Shape.constructor, by simp, last, ⟨m, hm, hlast⟩, hfind⟩
    exact .of_counted hhas (hc ▸ hbody)

def destructorEnd (s : Text) (m : Match) (own : List Report) : Lint (Option Finding) := do
  let t ← (Token.next s m.stop : Lint _)
  let (stop, reports) ←
    if t.text == ['{'] then do
      let body ← Body.check s (s.find '{' m.stop)
      pure (body.stop, body.reports)
    else pure ((m.stop : Int), [])
  let t ← (Token.next s stop : Lint _)
  let stop := if t.is ";" then s.find ';' stop else stop
  return some ⟨⟨m.start, stop⟩, own ++ reports⟩

theorem destructorEnd_gives (own : List Report) :
    Lint.wp (destructorEnd s m own) (fun found _ => ∃ x, found = some x ∧ x.start = m.start ∧
      s.BeforeTail x.stop ∧ ∀ r ∈ x.reports, r ∈ own ∨
        ∃ b : Nat, s.find '{' m.stop = b ∧ Body.Counted s b c.line r) (fun _ => True) c := by
  have hend : ∀ {t : Token} {stop : Int}, s.BeforeTail stop →
      s.BeforeTail (if t.is ";" then s.find ';' stop else stop) := by
    intro t stop hstop
    split
    · exact Text.beforeTail_find (by decide) stop
    · exact hstop
  simp only [destructorEnd, Lint.wp_bind, Lint.wp_lift_ensures]
  intro t ht
  split
  · rename_i hbrace
    obtain ⟨b, hfind⟩ := Token.exists_find_of_next ht (eq_of_beq hbrace)
    simp only [hfind, Lint.wp_bind, Lint.wp_lift_ensures, Lint.wp_pure]
    refine Lint.wp_mono (Body.check_counted b) ?_
    rintro body c' ⟨-, hstop, hbody⟩ u -
    refine ⟨_, rfl, rfl, hend hstop, ?_⟩
    intro r hr
    exact (List.mem_append.mp hr).imp id fun hr => ⟨b, rfl, hbody r hr⟩
  · simp only [Lint.wp_bind, Lint.wp_lift_ensures, Lint.wp_pure]
    intro u _
    obtain ⟨e, hle, he, -, hink⟩ := Token.next_found s m.stop t ht
    refine ⟨_, rfl, rfl, hend (Text.beforeTail_of_ink (by omega) he hink), ?_⟩
    intro r hr
    exact .inl (by simpa using hr)

theorem classDestructor_eq (hm : Shape.destructor.matchAt s i = some m) :
    classDestructor s i = (do
      let own ←
        if (m.text s).holds "virtual".toList then pure []
        else pure [⟨← currentLine, .virtualDestructor, some (m.text s), none⟩]
      destructorEnd s m own) := by
  simp only [classDestructor, hm]
  split <;> rfl

theorem classDestructor_spec (i : Int) :
    Lint.wp (classDestructor s i) (fun found c' => match found with
      | none => c' = c
      | some x => ∃ m, Shape.destructor.matchAt s i = some m ∧ x.start = m.start ∧
        s.BeforeTail x.stop ∧ ∀ r ∈ x.reports,
          r = ⟨c.line, .virtualDestructor, some (m.text s), none⟩ ∨
          ∃ b : Nat, s.find '{' m.stop = b ∧ Body.Counted s b c.line r) (fun _ => True) c := by
  cases hm : Shape.destructor.matchAt s i with
  | none => simp [classDestructor, hm]
  | some m =>
    rw [classDestructor_eq hm]
    split
    · simp only [Lint.wp_bind, Lint.wp_pure]
      refine Lint.wp_mono (destructorEnd_gives []) ?_
      rintro _ c' ⟨x, rfl, hstart, hstop, hreports⟩
      exact ⟨m, rfl, hstart, hstop, fun r hr => .inr ((hreports r hr).resolve_left (by simp))⟩
    · simp only [Lint.wp_bind, Lint.wp_currentLine, Lint.wp_pure]
      refine Lint.wp_mono (destructorEnd_gives _) ?_
      rintro _ c' ⟨x, rfl, hstart, hstop, hreports⟩
      exact ⟨m, rfl, hstart, hstop, fun r hr => (hreports r hr).imp List.mem_singleton.mp id⟩

theorem classDestructor_gives (hq : q ≤ s.length) :
    FormGives s q (MemberReport s q) classDestructor := by
  intro c hc
  refine Lint.wp_mono (classDestructor_spec q) ?_
  intro found c' hfound
  cases found with
  | none => exact hfound ▸ hc
  | some x =>
    obtain ⟨m, hm, hstart, -, hreports⟩ := hfound
    refine ⟨by omega, ?_⟩
    intro r hr
    rcases hreports r hr with rfl | ⟨b, hfind, hbody⟩
    · exact .inl (.inLine
        (Report.exact_of_prefix (Pattern.text_prefix_of_matchAt hq hm) hc _))
    · exact .of_counted (.inr ⟨m, hm, hfind⟩) (hc ▸ hbody)

theorem function_gives : FormGives s q (OuterReport s q) function := by
  intro c hc
  unfold function
  split
  · rename_i m name hhead
    obtain ⟨p, hp, hm⟩ := functionHead?_eq_some hhead
    simp only [Lint.wp_bind]
    refine Lint.wp_mono (parameters_gives m.stop hc) ?_
    rintro ⟨last, reports⟩ c' ⟨rfl, hlast, hle, hreports⟩
    obtain ⟨a, ha⟩ : ∃ a : Nat, last + 1 = a := ⟨(last + 1).toNat, by omega⟩
    simp only [Lint.wp_currentLine, Lint.wp_lift_ensures, ha]
    have hown := told_exact (Text.slice_prefix s q a) hc (name.bind functionRule?)
    refine Scan.ensures_mono (headEnd_brace a) ?_
    intro e he
    cases e with
    | semicolon j =>
      simp only [Lint.wp_pure]
      refine ⟨by simp, ?_⟩
      intro r hr
      rcases List.mem_append.mp hr with hr | hr
      · exact .inl (.inLine (hreports r hr))
      · exact .inl (.inLine (hown r hr))
    | brace j =>
      obtain ⟨b, rfl, hfind⟩ := he j rfl
      simp only [Lint.wp_bind, Lint.wp_setLine, Lint.wp_pure]
      refine Lint.wp_mono (Body.check_counted b) ?_
      rintro body c'' ⟨hbrace, -, hbody⟩
      have hhas : HasOuterBody s q b :=
        .inl ⟨p, hp, last, ⟨m, hm, hlast⟩, by rw [ha, hfind hbrace]⟩
      refine ⟨by simp, ?_⟩
      intro r hr
      rcases List.mem_append.mp hr with hr | hr
      · rcases List.mem_append.mp hr with hr | hr
        · exact .inl (.inLine (hreports r hr))
        · exact .inl (.inLine (hown r hr))
      · exact .of_counted hhas (hbody r hr)
  · exact hc

theorem memberBody_head (h : ((Shape.destructorBody.matchAt s i).orElse fun _ =>
      (Shape.constructorBody.matchAt s i).orElse fun _ => Shape.methodBody.matchAt s i) = some m) :
    ∃ p ∈ [Shape.destructorBody, Shape.constructorBody, Shape.methodBody],
      p.matchAt s i = some m := by
  simp only [Option.orElse_eq_or, Option.or_eq_some_iff] at h
  rcases h with h | ⟨-, h | ⟨-, h⟩⟩
  · exact ⟨Shape.destructorBody, by simp, h⟩
  · exact ⟨Shape.constructorBody, by simp, h⟩
  · exact ⟨Shape.methodBody, by simp, h⟩

theorem memberBody_gives : FormGives s q (OuterReport s q) memberBody := by
  intro c hc
  unfold memberBody
  simp only
  split
  · rename_i m hhead
    obtain ⟨p, hp, hm⟩ := memberBody_head hhead
    simp only [Lint.wp_bind, Lint.wp_lift_ensures, Lint.wp_setLine, Lint.wp_pure]
    intro last hlast
    rcases Text.find_cases s '{' last with ⟨hfind, hno⟩ | ⟨b, hfind, -⟩
    · rw [hfind]
      exact Body.check_neg_one (Bracket.bound_partner_lt .paren s _ last hlast) hno
    · rw [hfind]
      refine Lint.wp_mono (Body.check_counted b) ?_
      rintro body c' ⟨-, -, hbody⟩
      have hhas : HasOuterBody s q b := .inr ⟨p, hp, last, ⟨m, hm, hlast⟩, hfind⟩
      refine ⟨by simp, ?_⟩
      intro r hr
      exact .of_counted hhas (hbody r hr)
  · exact hc

end Declaration

end CodeAudit
