import CodeAudit.Proofs.Body.FinalBreak
import CodeAudit.Proofs.Declaration.Bodies
import CodeAudit.Proofs.Declaration.MacroEnd
import CodeAudit.Proofs.Declaration.Parameters

namespace CodeAudit

open Lint

variable {s : Text} {q : Nat} {i : Int} {m : Match} {R : Option Finding → Prop}

namespace Declaration

theorem macroEndRound_refined {a : Nat} (hpos : 1 ≤ a) (ha : a ≤ s.length) :
    (macroEndRound s a).Refined (macroEndRound s.ended a) := by
  obtain ⟨hle, -⟩ := Text.lineEnd_bounds ha
  rw [macroEndRound, macroEndRound, Text.lineEnd_ended (Int.ofNat_le.mpr ha)]
  exact (Text.charAt_ended (by omega)).bind fun _ _ => Scan.Refined.refl _

theorem macroEnd_fails (hlast : s.getLast? = some '\\') (n : Nat) :
    Scan.Ensures (rounds (macroEndRound s) n (s.length + 1 : Nat)) fun _ => False := by
  have hendless := rounds_endless (fun i : Int => i = (s.length + 1 : Nat))
    (by rintro _ rfl; exact ⟨_, leads_beyond_end hlast, rfl⟩) n _ rfl
  intro stop hstop
  rw [hendless] at hstop
  cases hstop

theorem macroEnd_refined {a : Nat} (hpos : 1 ≤ a) (ha : a ≤ s.length) :
    (macroEnd s a).Refined (macroEnd s.ended a) := by
  have hrounds : ∀ n k, n ≤ k → ∀ a : Nat, 1 ≤ a → a ≤ s.length →
      (rounds (macroEndRound s) n a).Refined (rounds (macroEndRound s.ended) k a) := by
    intro n
    induction n with
    | zero => exact fun _ _ _ _ _ => Scan.refined_throw _ _
    | succ n ih =>
      intro k hk a hpos ha
      obtain ⟨k, rfl⟩ : ∃ j, k = j + 1 := ⟨k - 1, by omega⟩
      apply (macroEndRound_refined hpos ha).bind
      intro z hz
      cases z with
      | done j => exact Scan.Refined.refl _
      | again j =>
        rcases macroEndRound_cases hpos ha with
          ⟨hdone, -⟩ | ⟨b, hab, hb, -, hleads⟩ | ⟨hopen, hleads⟩
        · cases hdone.symm.trans hz
        · cases Eq.trans (Eq.symm hleads) hz
          exact ih k (by omega) b (by omega) hb
        · cases Eq.trans (Eq.symm hleads) hz
          exact Scan.Refined.of_fails (macroEnd_fails hopen.2 n) _
  apply hrounds _ _ _ a hpos ha
  rw [Text.length_ended]
  omega

theorem define_refined (s : Text) (i : Int) : RefinedOn R (define s i) (define s.ended i) := by
  rw [define, define, Pattern.matchAt_ended (by decide)]
  cases hm : Shape.define.matchAt s i with
  | none => exact RefinedOn.refl _
  | some m =>
    have hlt := Pattern.start_lt_stop (by decide) hm
    obtain ⟨-, -, hle, -⟩ := Pattern.matchAt_eq_some hm
    apply RefinedOn.lift_bind (Scan.Refined.of_eq (Text.nextInk_ended (Int.natCast_nonneg _)))
    intro next _
    apply RefinedOn.ite
    · intro _
      exact RefinedOn.throw_bind _ _ _
    · intro _
      rw [Pattern.matchAt_ended (by decide)]
      cases hn : Shape.macroName.matchAt s next with
      | none => exact RefinedOn.throw _ _
      | some n =>
        dsimp only
        rw [Pattern.text_ended hn]
        apply RefinedOn.bind (RefinedOn.refl _)
        intro line
        exact RefinedOn.lift_bind (macroEnd_refined (by omega) hle) fun _ _ => RefinedOn.refl _

theorem includeFile_ended (s : Text) (i : Int) : includeFile s.ended i = includeFile s i := by
  rw [includeFile, includeFile, Pattern.matchAt_ended (by decide), Pattern.matchAt_ended (by decide)]
  cases hm : Shape.systemInclude.matchAt s i with
  | some m =>
    dsimp only
    rw [Pattern.text_ended hm]
  | none =>
    cases hm : Shape.ownInclude.matchAt s i with
    | none => rfl
    | some m =>
      dsimp only
      rw [Pattern.groupText?_ended (by decide) hm]

theorem enum_ended (s : Text) (i : Int) : enum s.ended i = enum s i := by
  rw [enum, enum, Pattern.matchAt_ended (by decide)]

theorem typedef_refined (s : Text) (i : Int) : RefinedOn R (typedef s i) (typedef s.ended i) := by
  rw [typedef, typedef, Pattern.matchAt_ended (by decide)]
  cases hm : Shape.typedef.matchAt s i with
  | none => exact RefinedOn.refl _
  | some m =>
    apply RefinedOn.lift_bind (Scan.Refined.of_eq (Text.nextInk_ended (Int.natCast_nonneg _)))
    intro next _
    apply RefinedOn.bind (RefinedOn.of_eq (enum_ended s next))
    intro found
    cases found with
    | some x => exact RefinedOn.refl _
    | none =>
      apply RefinedOn.lift_bind (Statement.struct_refined s next)
      intro x _
      cases x with
      | some x => exact RefinedOn.refl _
      | none =>
        rw [Text.find_ended (by decide) (Int.natCast_nonneg _)]
        exact RefinedOn.refl _

theorem objectMark_refined (s : Text) (i : Int) :
    RefinedOn R (objectMark s i) (objectMark s.ended i) := by
  rw [objectMark, objectMark, Pattern.matchAt_ended (by decide)]
  cases hm : Shape.objectMark.matchAt s i with
  | none => exact RefinedOn.refl _
  | some m =>
    apply RefinedOn.lift_bind (Scan.Refined.of_eq (Text.nextInk_ended (Int.natCast_nonneg _)))
    intro next hnext
    have hle : -2 ≤ next := by
      rcases Text.nextInk_bounds s m.stop next hnext with h | ⟨h, -⟩ <;> omega
    rw [Text.closing_ended hle, Pattern.text_ended hm]
    exact RefinedOn.refl _

theorem variableAt?_ended (s : Text) (i : Int) : variableAt? s.ended i = variableAt? s i := by
  rw [variableAt?, variableAt?, Pattern.matchAt_ended (by decide)]
  cases hm : Shape.variableDeclaration.matchAt s i with
  | none => rfl
  | some m =>
    rw [Option.map_some, Option.map_some, Pattern.groupText?_ended (by decide) hm,
      Pattern.text_ended hm]

theorem globalVariable_ended (s : Text) (i : Int) :
    globalVariable s.ended i = globalVariable s i := by
  rw [globalVariable, globalVariable, variableAt?_ended]
  simp only [Variable.rawArray?_ended,
    Text.find_ended (by decide : ';' ≠ '\n') (Int.natCast_nonneg _)]

theorem memberVariable_ended (s : Text) (i : Int) :
    memberVariable s.ended i = memberVariable s i := by
  rw [memberVariable, memberVariable, variableAt?_ended]
  simp only [memberTypeReport?, Variable.rawArray?_ended,
    Text.find_ended (by decide : ';' ≠ '\n') (Int.natCast_nonneg _)]

theorem functionHead?_ended (s : Text) (i : Int) : functionHead? s.ended i = functionHead? s i := by
  rw [functionHead?, functionHead?, Pattern.matchAt_ended (by decide),
    Pattern.matchAt_ended (by decide)]
  cases hm : Shape.function.matchAt s i with
  | none => rfl
  | some m =>
    dsimp only
    rw [Pattern.groupText?_ended (by decide) hm]

theorem parameterRule?_refined {j : Int} (hi : 0 ≤ i) (hj : 0 ≤ j) (hle : j ≤ s.length) :
    (Variable.parameterRule? s i j).Refined (Variable.parameterRule? s.ended i j) := by
  apply (Text.charAt_ended hi).bind
  intro e _
  apply Scan.Refined.ite
  · intro _
    apply (Text.charAt_ended hj).bind
    intro f _
    have hbefore : Shape.parameter.matchBefore s.ended i j = Shape.parameter.matchBefore s i j := by
      rw [Pattern.matchBefore, Pattern.matchBefore, Text.take_ended (by omega)]
    simp only [Variable.rounds_parameterRound, hbefore]
    exact Scan.Refined.refl _
  · intro _
    exact Scan.refined_throw_bind _ _ _

theorem parameters_refined (h : s.PlainEnd) {p : Pattern}
    (hp : p ∈ [Shape.function, Shape.operator, Shape.constructor]) (hm : p.matchAt s i = some m)
    {start : Int} (hstart : 0 ≤ start) :
    RefinedOn (fun _ => True) (parameters s m.stop start) (parameters s.ended m.stop start) := by
  have hline : p.endsInLine = true := by
    simp only [List.mem_cons, List.not_mem_nil, or_false] at hp
    rcases hp with rfl | rfl | rfl <;> decide
  have hlt := Pattern.start_lt_stop hline hm
  apply RefinedOn.lift_bind (Statement.partner_refined .paren hline hm)
  intro last hlast
  have hle := Bracket.neg_one_le_partner .paren (show -1 ≤ (m.stop : Int) - 1 by omega) last hlast
  have hlen := Bracket.partner_lt .paren s _ last hlast
  by_cases hend : last = -1
  · apply RefinedOn.of_not
    intro c
    simp only [Variable.parameterRule?, Lint.wp_bind, Lint.wp_lift_ensures, Scan.ensures_bind]
    intro e _
    rw [hend] at hlast ⊢
    split
    · simp only [Scan.ensures_bind]
      intro f hf
      split
      · rename_i hclose
        rw [eq_of_beq hclose] at hf
        exact absurd hlast (h.parameters (Text.getLast?_of_charAt hf) p hp i m hm)
      · simp only [Scan.ensures_bind, Scan.ensures_throw]
    · simp only [Scan.ensures_bind, Scan.ensures_throw]
  · apply RefinedOn.lift_bind (parameterRule?_refined (by omega) (by omega) (by omega))
    intro rule _
    rw [Text.slice_ended hstart (by omega) (by omega)]
    exact RefinedOn.refl _

theorem headEnd_ended (s : Text) (a : Nat) :
    (∃ e, headEnd s a = .ok e ∧ headEnd s.ended a = .ok e ∧
      ∃ n : Nat, n < s.length ∧ (e = .semicolon n ∨ e = .brace n)) ∨
    (∃ n : Nat, headEnd s a = .ok (.brace n) ∧ s[n]? ≠ some '{') ∨
    ∃ f, headEnd s a = .error f := by
  have hends : (((fun d => d == ';' || d == '{') : Char → Bool) '\n') = false := by decide
  unfold headEnd
  rw [Int.toNat_natCast, Text.findIdx?_drop_ended hends]
  cases hfind : (s.drop a).findIdx? fun d => d == ';' || d == '{' with
  | some k =>
    left
    obtain ⟨hlt, -⟩ := List.findIdx?_eq_some_iff_getElem.mp hfind
    rw [List.length_drop] at hlt
    refine ⟨_, rfl, ?_, a + k, by omega, ?_⟩
    · simp only
      rw [Text.getElem?_ended (by omega)]
    · rw [Int.natCast_add]
      split
      · exact .inl rfl
      · exact .inr rfl
  | none =>
    right
    simp only
    by_cases hlt : (a : Int) < s.length
    · left
      rw [if_pos hlt]
      refine ⟨s.length - 1, ?_, ?_⟩
      · rw [Int.natCast_sub (by omega)]
        rfl
      · intro hb
        have hmem : '{' ∈ s.drop a := Text.mem_drop_of_getElem? (by omega) hb
        have hno := List.findIdx?_eq_none_iff.mp hfind '{' hmem
        simp at hno
    · right
      rw [if_neg hlt]
      exact ⟨_, rfl⟩

theorem check_fails {b : Nat} (hb : s[b]? ≠ some '{') (c : Context) :
    Lint.wp (Body.check s b) (fun _ _ => False) (fun _ => True) c :=
  Lint.wp_mono (Body.check_counted b) fun _ _ hx => hb hx.1

theorem headEnd_refined {f g : HeadEnd → Lint (Option Finding)} (a : Nat)
    (hsemicolon : ∀ j, RefinedOn R (f (.semicolon j)) (g (.semicolon j)))
    (hbrace : ∀ n : Nat, n < s.length → RefinedOn R (f (.brace n)) (g (.brace n)))
    (hfails : ∀ n : Nat, s[n]? ≠ some '{' →
      ∀ c, Lint.wp (f (.brace n)) (fun _ _ => False) (fun _ => True) c) :
    RefinedOn R ((liftM (headEnd s a) : Lint HeadEnd) >>= f)
      ((liftM (headEnd s.ended a) : Lint HeadEnd) >>= g) := by
  rcases headEnd_ended s a with ⟨e, he, he', n, hn, rfl | rfl⟩ | ⟨n, he, hn⟩ | ⟨e, he⟩
  · rw [he, he']
    exact hsemicolon n
  · rw [he, he']
    exact hbrace n hn
  · rw [he]
    exact RefinedOn.of_not _ fun c => Lint.wp_mono (hfails n hn c) fun _ _ h => h.elim
  · rw [he]
    exact RefinedOn.throw_bind e f _

theorem parameters_last {stop : Nat} {start : Int} {z : Int × List Report} {c d : Context}
    (hrun : parameters s stop start c = (.ok z, d)) : ∃ a : Nat, z.1 + 1 = a ∧ a ≤ s.length := by
  obtain ⟨-, hlast, hle, -⟩ := Lint.wp_ok (parameters_spec stop start) hrun
  have hlt := Bracket.partner_lt .paren s _ _ hlast
  obtain ⟨a, ha⟩ := Int.eq_ofNat_of_zero_le (show 0 ≤ z.1 + 1 by omega)
  exact ⟨a, ha, by omega⟩

theorem method_refined (h : s.PlainEnd) (i : Int) :
    RefinedOn R (method s i) (method s.ended i) := by
  rw [method, method, functionHead?_ended]
  cases hhead : functionHead? s i with
  | none => exact RefinedOn.refl _
  | some y =>
    obtain ⟨m, name⟩ := y
    obtain ⟨p, hp, hm⟩ := functionHead?_eq_some hhead
    apply RefinedOn.bind_run
      (parameters_refined h (List.mem_append_left _ hp) hm (Int.natCast_nonneg _))
    rintro c ⟨last, reports⟩ d hrun
    obtain ⟨a, ha, -⟩ := parameters_last hrun
    dsimp only at ha ⊢
    rw [ha]
    apply headEnd_refined
    · exact fun j => RefinedOn.refl _
    · intro n _
      exact RefinedOn.bind (Body.check_refined h n) fun _ => RefinedOn.refl _
    · intro n hn c
      simp only [Lint.wp_bind]
      exact Lint.wp_mono (check_fails hn c) fun _ _ h => h.elim

theorem function_refined (h : s.PlainEnd) (q : Nat) :
    RefinedOn R (function s q) (function s.ended q) := by
  rw [function, function, functionHead?_ended]
  cases hhead : functionHead? s q with
  | none => exact RefinedOn.refl _
  | some y =>
    obtain ⟨m, name⟩ := y
    obtain ⟨p, hp, hm⟩ := functionHead?_eq_some hhead
    apply RefinedOn.bind_run
      (parameters_refined h (List.mem_append_left _ hp) hm (Int.natCast_nonneg q))
    rintro c ⟨last, reports⟩ d hrun
    obtain ⟨a, ha, hle⟩ := parameters_last hrun
    dsimp only at ha ⊢
    rw [ha, Text.slice_ended (Int.natCast_nonneg q) (Int.natCast_nonneg a) (Int.ofNat_le.mpr hle)]
    apply RefinedOn.bind (RefinedOn.refl _)
    intro line
    apply headEnd_refined
    · exact fun j => RefinedOn.refl _
    · intro n hn
      dsimp only
      rw [Text.lineOf_ended (Nat.le_of_lt hn)]
      apply RefinedOn.bind (RefinedOn.refl _)
      intro _
      exact RefinedOn.bind (Body.check_refined h n) fun _ => RefinedOn.refl _
    · intro n hn c
      simp only [Lint.wp_bind, Lint.wp_setLine]
      exact Lint.wp_mono (check_fails hn _) fun _ _ h => h.elim

theorem classConstructor_refined (h : s.PlainEnd) (i : Int) :
    RefinedOn R (classConstructor s i) (classConstructor s.ended i) := by
  rw [classConstructor, classConstructor, Pattern.matchAt_ended (by decide)]
  cases hm : Shape.constructor.matchAt s i with
  | none => exact RefinedOn.refl _
  | some m =>
    apply RefinedOn.bind_run (parameters_refined h (by simp) hm (Int.natCast_nonneg _))
    rintro c ⟨last, reports⟩ d hrun
    obtain ⟨a, ha, -⟩ := parameters_last hrun
    dsimp only at ha ⊢
    rw [ha]
    apply RefinedOn.lift_bind (Scan.Refined.of_eq (Token.next_ended s a))
    intro t ht
    rw [Text.find_ended (by decide) (Int.natCast_nonneg a),
      Text.find_ended (by decide) (Int.natCast_nonneg a)]
    apply RefinedOn.ite
    · exact fun _ => RefinedOn.refl _
    · intro _
      apply RefinedOn.ite
      · intro hbrace
        obtain ⟨b, hb⟩ := Token.exists_find_of_next ht (eq_of_beq hbrace)
        rw [hb]
        exact RefinedOn.bind (Body.check_refined h b) fun _ => RefinedOn.refl _
      · exact fun _ => RefinedOn.refl _

def Followed (s : Text) (x : Finding) : Prop :=
  x.stop ≠ -1 ∧ x.stop + 1 < s.length

theorem destructorEnd_refined (h : s.PlainEnd) (m : Match) (own : List Report) :
    RefinedOn (fun found => ∀ x, found = some x → x.start ≠ -1 → Followed s x)
      (destructorEnd s m own) (destructorEnd s.ended m own) := by
  have hend : ∀ (stop : Int) (reports : List Report), -1 ≤ stop →
      RefinedOn (fun found => ∀ x, found = some x → x.start ≠ -1 → Followed s x)
        (do
          let t ← (Token.next s stop : Lint _)
          return some ⟨⟨m.start, if t.is ";" then s.find ';' stop else stop⟩, own ++ reports⟩)
        (do
          let t ← (Token.next s.ended stop : Lint _)
          return some ⟨⟨m.start, if t.is ";" then s.ended.find ';' stop else stop⟩,
            own ++ reports⟩) := by
    intro stop reports hle
    by_cases hstop : stop = -1
    · apply RefinedOn.of_not
      intro c
      simp only [Lint.wp_bind, Lint.wp_lift_ensures, Lint.wp_pure]
      intro t _ hfollowed
      obtain ⟨hne, hlt⟩ := hfollowed _ rfl (show (m.start : Int) ≠ -1 by omega)
      simp only at hne hlt
      rw [hstop] at hne hlt
      split at hne
      · rename_i hsemicolon
        rw [if_pos hsemicolon] at hlt
        rcases Text.find_cases s ';' (-1) with ⟨hno, -⟩ | ⟨n, hn, hbound, -⟩
        · exact hne hno
        · rw [Text.bound, if_pos (by omega)] at hbound
          omega
      · exact hne rfl
    · rw [Token.next_ended, Text.find_ended (by decide) (by omega)]
      exact RefinedOn.refl _
  apply RefinedOn.lift_bind (Scan.Refined.of_eq (Token.next_ended s _))
  intro t ht
  apply RefinedOn.ite
  · intro hbrace
    obtain ⟨b, hb⟩ := Token.exists_find_of_next ht (eq_of_beq hbrace)
    rw [Text.find_ended (by decide) (Int.natCast_nonneg _), hb]
    apply RefinedOn.bind_run (Body.check_refined h b)
    intro c body d hrun
    have hstop := Lint.wp_ok (Body.check_stop b) hrun
    exact hend body.stop body.reports (Bracket.neg_one_le_partner .brace (by omega) _ hstop)
  · intro _
    exact hend m.stop [] (by omega)

theorem classDestructor_refined (h : s.PlainEnd) (i : Int) :
    RefinedOn (fun found => ∀ x, found = some x → x.start ≠ -1 → Followed s x)
      (classDestructor s i) (classDestructor s.ended i) := by
  have hmatch := Pattern.matchAt_ended (p := Shape.destructor) (by decide) s i
  cases hm : Shape.destructor.matchAt s i with
  | none =>
    rw [classDestructor, classDestructor, hmatch, hm]
    exact RefinedOn.refl _
  | some m =>
    rw [classDestructor_eq hm, classDestructor_eq (hmatch.trans hm), Pattern.text_ended hm]
    apply RefinedOn.ite
    · intro _
      exact RefinedOn.bind (RefinedOn.refl _) (destructorEnd_refined h m)
    · intro _
      apply RefinedOn.bind (RefinedOn.refl _)
      intro line
      exact RefinedOn.bind (RefinedOn.refl _) (destructorEnd_refined h m)

theorem check_last {c : Context} {last : Int} (hlast : last = -1) (hlen : 0 < s.length) :
    Lint.wp (Body.check s (s.find '{' last)) (fun x _ => x.stop = -1) (fun _ => True) c := by
  have hbound : s.bound last = s.length - 1 := by
    rw [hlast, Text.bound, if_pos (by omega)]
    omega
  rcases Text.find_cases s '{' last with ⟨hfind, hno⟩ | ⟨n, hfind, hle, hn⟩
  · rw [hfind]
    exact Body.check_neg_one (i := last) (by omega) hno
  · rw [hfind]
    refine Lint.wp_mono (Body.check_stop n) ?_
    intro x _ hx
    obtain h | ⟨k, hk, hclose⟩ := Bracket.partner_closing (b := .brace) hn _ hx
    · exact h
    · have hkn := (Bracket.le_partner .brace s _ _ hx).resolve_left (by omega)
      have hklen := (List.getElem?_eq_some_iff.mp hclose).1
      obtain rfl : n = k := by omega
      rw [hn] at hclose
      cases hclose

theorem memberBody_refined (h : s.PlainEnd) (q : Nat) :
    RefinedOn (fun found => ∀ x, found = some x → x.start ≠ -1 → x.stop ≠ -1)
      (memberBody s q) (memberBody s.ended q) := by
  rw [memberBody, memberBody, Pattern.matchAt_ended (by decide), Pattern.matchAt_ended (by decide),
    Pattern.matchAt_ended (by decide)]
  dsimp only
  split
  · rename_i m hm
    have hpos : 0 < m.stop := by
      have hlt : ∀ p : Pattern, p.endsInLine = true → p.matchAt s q = some m → 0 < m.stop :=
        fun p hp hm => Nat.zero_lt_of_lt (Pattern.start_lt_stop hp hm)
      rw [← Option.or_eq_orElse, ← Option.or_eq_orElse] at hm
      rcases Option.or_eq_some_iff.mp hm with hm | ⟨-, hm⟩
      · exact hlt _ (by decide) hm
      · rcases Option.or_eq_some_iff.mp hm with hm | ⟨-, hm⟩
        · exact hlt _ (by decide) hm
        · exact hlt _ (by decide) hm
    apply RefinedOn.lift_bind (Bracket.partner_ended .paren (by omega))
    intro last hlast
    have hle := Bracket.neg_one_le_partner .paren (show -1 ≤ (m.stop : Int) - 1 by omega) last hlast
    have hlen := Bracket.bound_partner_lt .paren s _ _ hlast
    by_cases hend : last = -1
    · apply RefinedOn.of_not
      intro c
      simp only [Lint.wp_bind, Lint.wp_setLine, Lint.wp_pure]
      refine Lint.wp_mono (check_last hend (by omega)) ?_
      intro x _ hx hR
      exact hR _ rfl (show (q : Int) ≠ -1 by omega) hx
    · rw [Text.find_ended (by decide) (by omega)]
      rcases Text.find_cases s '{' last with ⟨hfind, hno⟩ | ⟨n, hfind, -, hn⟩
      · rw [hfind]
        apply RefinedOn.of_not
        intro c
        simp only [Lint.wp_bind, Lint.wp_setLine, Lint.wp_pure]
        exact Body.check_neg_one hlen hno
      · rw [hfind, Text.lineOf_ended (Nat.le_of_lt (List.getElem?_eq_some_iff.mp hn).1)]
        apply RefinedOn.bind (RefinedOn.refl _)
        intro _
        exact RefinedOn.bind (Body.check_refined h n) fun _ => RefinedOn.refl _
  · exact RefinedOn.refl _

end Declaration

end CodeAudit
