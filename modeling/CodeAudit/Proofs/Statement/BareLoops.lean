import CodeAudit.Proofs.Statement.Bounds
import CodeAudit.Proofs.Statement.Heads

/-!
Loops whose body is a statement without braces. Such a loop is not found at all, or it is taken to
end with the first block after it, however far away that is.
-/

namespace CodeAudit.Statement

open Pattern

inductive LoopHead where
  | whileLoop (condition : Text)
  | forLoop (first second third : Text)

namespace LoopHead

def keyword : LoopHead → Text
  | whileLoop _ => "while".toList
  | forLoop _ _ _ => "for".toList

def inner : LoopHead → Text
  | whileLoop condition => condition
  | forLoop first second third => first ++ ';' :: (second ++ ';' :: third)

def pattern : LoopHead → Pattern
  | whileLoop _ => Shape.indented Shape.whileHead
  | forLoop _ _ _ => Shape.indented Shape.forHead

def form : LoopHead → Text → Int → Scan (Option Span)
  | whileLoop _ => whileStatement
  | forLoop _ _ _ => forStatement

def unclosed (a : Nat) : LoopHead → Scan (Option Span)
  | whileLoop _ => .ok (some ⟨a, -1⟩)
  | forLoop _ _ _ => .error .malformed

end LoopHead

structure BareLoop where
  head : LoopHead
  gap : Blanks
  space : Blanks
  body : Text
  head_no_brace : '{' ∉ head.inner
  body_no_brace : '{' ∉ body

def BareLoop.lead (x : BareLoop) : Text :=
  x.head.keyword ++ (x.gap.text ++ '(' :: (x.head.inner ++ ')' :: (x.space.text ++ x.body)))

def BareLoop.text (x : BareLoop) : Text := x.lead ++ [';']

variable {s v : Text} {a n : Nat} {x : BareLoop} {head : LoopHead}

namespace LoopHead

theorem keyword_no_brace (head : LoopHead) : '{' ∉ head.keyword := by
  cases head with
  | whileLoop condition =>
    rw [keyword]
    decide
  | forLoop first second third =>
    rw [keyword]
    decide

theorem matchAt_of_no_block (ha : a ≤ s.length) (hblock : firstBlock? (s.drop a) = none) :
    head.pattern.matchAt s a = none := by
  cases head with
  | whileLoop condition =>
    change (Shape.indented (lit "while".toList ++ Shape.blanks ++ lit ['('] ++ few1 .any) ++
      blockMark true).matchAt s a = none
    exact Statement.matchAt_of_no_block rfl ha hblock
  | forLoop first second third =>
    change (Shape.indented (lit "for".toList ++ Shape.blanks ++ lit ['('] ++ few .any ++ lit [';'] ++
      few .any ++ lit [';'] ++ few .any) ++ blockMark false).matchAt s a = none
    exact Statement.matchAt_of_no_block rfl ha hblock

theorem form_of_none (h : head.pattern.matchAt s a = none) : head.form s a = .ok none := by
  cases head with
  | whileLoop condition => exact braced_of_none h
  | forLoop first second third =>
    have hbraced : braced (Shape.indented Shape.forHead) s a = .ok none := braced_of_none h
    rw [form, forStatement, hbraced]
    rfl

theorem form_of_matchAt {b : Nat} {w : Text} {gs : List (String × Nat × Nat)}
    (hm : head.pattern.matchAt s a = some ⟨a, b + 1, gs⟩) (hs : s.drop b = '{' :: w) :
    head.form s a = (Bracket.brace.closeFrom 0 0 ('{' :: w)).elim (head.unclosed a)
      fun j => .ok (some ⟨a, (b + j : Nat)⟩) := by
  have hbrace : ((b + 1 : Nat) : Int) - 1 = b := by omega
  have hpartner : Bracket.brace.partner s b =
      (Bracket.brace.closeFrom 0 0 ('{' :: w)).elim (.ok (-1)) fun k => .ok (b + k : Nat) :=
    Bracket.partner_of_opening hs
  have hbraced : braced head.pattern s a = (Bracket.brace.closeFrom 0 0 ('{' :: w)).elim
      (.ok (some ⟨a, -1⟩)) fun j => .ok (some ⟨a, (b + j : Nat)⟩) := by
    rw [braced, hm]
    simp only [hbrace, hpartner]
    cases Bracket.brace.closeFrom 0 0 ('{' :: w) <;> rfl
  cases head with
  | whileLoop condition => exact hbraced
  | forLoop first second third =>
    have hbraced : braced (Shape.indented Shape.forHead) s a = _ := hbraced
    rw [form, forStatement, hbraced]
    cases Bracket.brace.closeFrom 0 0 ('{' :: w) with
    | none => rfl
    | some j =>
      have hfound : (((b + j : Nat) : Int) == -1) = false := beq_false_of_ne (by omega)
      simp only [Option.elim_some, bind, Except.bind, Option.any_some, hfound]
      rfl

end LoopHead

namespace BareLoop

theorem lead_no_brace (x : BareLoop) : '{' ∉ x.lead := by
  simp [lead, x.head.keyword_no_brace, x.gap.not_mem (c := '{') (by decide), x.head_no_brace,
    x.space.not_mem (c := '{') (by decide), x.body_no_brace]

theorem matchAt_of_block (hs : s.drop a = x.text ++ v) (hv : firstBlock? v = some n) :
    x.head.pattern.matchAt s a = some ⟨a, a + x.text.length + n + 1, []⟩ := by
  obtain ⟨head, gap, space, body, hhead, hbody⟩ := x
  have hspace : '{' ∉ space.text := space.not_mem (by decide)
  have hblock {r : Text} (hr : '{' ∉ r) :
      firstBlock? (r ++ ';' :: v) = some (n + (r.length + 1)) := by
    rw [firstBlock?_of_semicolon hr, hv, Option.map_some]
  cases head with
  | whileLoop condition =>
    obtain ⟨d, r, hr⟩ := List.exists_cons_of_ne_nil
      (show condition ++ ')' :: (space.text ++ body) ≠ [] by simp)
    have hlead : '{' ∉ d :: r := by
      rw [LoopHead.inner] at hhead
      rw [← hr]
      simp [hspace, hbody, hhead]
    have htext : text ⟨.whileLoop condition, gap, space, body, hhead, hbody⟩ =
        "while".toList ++ (gap.text ++ '(' :: d :: (r ++ [';'])) := by
      rw [← List.cons_append, ← hr]
      simp [text, lead, LoopHead.keyword, LoopHead.inner]
    rw [htext] at hs ⊢
    have hs : s.drop a = [] ++ ("while".toList ++ (gap.text ++ '(' :: d :: (r ++ ';' :: v))) := by
      simp [hs]
    have hkey : ∃ c r, "while".toList = c :: r ∧ Text.isWord c = true :=
      ⟨'w', "hile".toList, rfl, by decide⟩
    refine (matchAt_braceHead (by simp) hkey gap.isBlank hs
      (hblock fun h => hlead (List.mem_cons_of_mem d h))).trans ?_
    simp only [List.length_append, List.length_cons, List.length_nil, Option.some.injEq,
      Match.mk.injEq, and_true, true_and]
    omega
  | forLoop first second third =>
    -- the parts need not be the ones that were written: the pattern divides at the first two
    -- semicolons
    obtain ⟨u, u', r, hr, hu, hu'⟩ : ∃ u u' r, first ++ ';' :: (second ++ ';' :: third) =
        u ++ ';' :: (u' ++ ';' :: r) ∧ ';' ∉ u ∧ ';' ∉ u' := by
      apply exists_parts
      simp only [List.count_append, List.count_cons_self]
      omega
    have hlead : '{' ∉ r ++ ')' :: (space.text ++ body) := by
      rw [LoopHead.inner, hr] at hhead
      simp_all
    have htext : text ⟨.forLoop first second third, gap, space, body, hhead, hbody⟩ =
        "for".toList ++ (gap.text ++ '(' :: (u ++ ';' :: (u' ++ ';' ::
          (r ++ ')' :: (space.text ++ body) ++ [';'])))) := by
      rw [text, lead, LoopHead.keyword, LoopHead.inner]
      simp [hr]
    rw [htext] at hs ⊢
    have hs : s.drop a = [] ++ ("for".toList ++ (gap.text ++ '(' :: (u ++ ';' :: (u' ++ ';' ::
        (r ++ ')' :: (space.text ++ body) ++ ';' :: v))))) := by
      simp [hs]
    refine (matchAt_forHead (by simp) gap.isBlank hu hu' hs (hblock hlead)).trans ?_
    simp only [List.length_append, List.length_cons, List.length_nil, Option.some.injEq,
      Match.mk.injEq, and_true, true_and]
    omega

theorem form_eq_elim (x : BareLoop) (before after : Text) :
    x.head.form (before ++ x.text ++ after) before.length =
      (firstBlock? after).elim (.ok none) fun n =>
        (Bracket.brace.closeFrom 0 0 (after.drop n)).elim (x.head.unclosed before.length)
          fun j => .ok (some ⟨before.length, ((before ++ x.text).length + n + j : Nat)⟩) := by
  have hs : (before ++ x.text ++ after).drop before.length = x.text ++ after := by
    rw [List.append_assoc, List.drop_left]
  have hrest (n : Nat) : (before ++ x.text ++ after).drop (before.length + x.text.length + n) =
      after.drop n := by
    rw [← List.length_append, ← List.drop_drop, List.drop_left]
  have hlength : before.length ≤ (before ++ x.text ++ after).length := by
    simp only [List.length_append]
    omega
  rw [List.length_append]
  generalize before ++ x.text ++ after = s at *
  cases hafter : firstBlock? after with
  | none =>
    apply LoopHead.form_of_none (LoopHead.matchAt_of_no_block hlength _)
    rw [hs, text, List.append_assoc, List.singleton_append, firstBlock?_of_semicolon x.lead_no_brace,
      hafter]
    rfl
  | some n =>
    obtain ⟨w, hw⟩ := exists_brace_of_firstBlock? hafter
    rw [Option.elim_some, hw]
    exact LoopHead.form_of_matchAt (matchAt_of_block hs hafter) ((hrest n).trans hw)

theorem unclosed_ne (x : BareLoop) (a : Nat) :
    x.head.unclosed a ≠ .ok none ∧ x.head.unclosed a ≠ .ok (some (spanOf a x.text)) := by
  have hstop := ne_of_beq_false (spanOf_stop_ne a (show x.text ≠ [] by simp [text]))
  cases x.head with
  | whileLoop condition =>
    rw [LoopHead.unclosed]
    simp only [ne_eq, Except.ok.injEq, Option.some.injEq, reduceCtorEq, not_false_eq_true, true_and]
    intro h
    exact hstop (congrArg Span.stop h).symm
  | forLoop first second third =>
    rw [LoopHead.unclosed]
    simp

end BareLoop

/-- A loop without braces is taken to end with the first block after it, and it is passed by, or
ends with its own semicolon, just if no block follows. -/
theorem BareLoop.reaches_next_block (x : BareLoop) (before after : Text) :
    x.head.form (before ++ x.text ++ after) before.length =
      (firstBlock? after).elim (.ok none) (fun n =>
        (Bracket.brace.closeFrom 0 0 (after.drop n)).elim (x.head.unclosed before.length)
          fun j => .ok (some ⟨before.length, ((before ++ x.text).length + n + j : Nat)⟩)) ∧
    ((x.head.form (before ++ x.text ++ after) before.length = .ok none ∨
      x.head.form (before ++ x.text ++ after) before.length =
        .ok (some (spanOf before.length x.text))) ↔ firstBlock? after = none) := by
  have heq := x.form_eq_elim before after
  refine ⟨heq, ?_⟩
  rw [heq]
  cases firstBlock? after with
  | none => simp
  | some n =>
    rw [Option.elim_some]
    cases Bracket.brace.closeFrom 0 0 (after.drop n) with
    | none => simpa using x.unclosed_ne before.length
    | some j =>
      have hstop : (spanOf before.length x.text).stop ≠ ((before ++ x.text).length + n + j : Nat) := by
        simp only [spanOf, List.length_append]
        omega
      simp only [Option.elim_some, Except.ok.injEq, Option.some.injEq, reduceCtorEq, false_or,
        iff_false]
      intro h
      exact hstop (congrArg Span.stop h).symm

theorem whileStatement_reaches_choice :
    whileStatement "while(a) b; if(c) \x7b\x7d".toList 0 = .ok (some ⟨0, 19⟩) ∧
      Text.find "while(a) b; if(c) \x7b\x7d".toList ';' 0 = 10 :=
  ⟨Scan.eq_ok_of_toOption (by decide +kernel), by decide⟩

end CodeAudit.Statement
