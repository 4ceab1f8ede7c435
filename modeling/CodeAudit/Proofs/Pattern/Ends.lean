import CodeAudit.Pattern.Match

namespace CodeAudit.Pattern

def runEnds (c : CharClass) : (least : Nat) → (most : Option Nat) → (pos : Nat) → Text →
    List (Nat × Text)
  | least, _, pos, [] => if least = 0 then [(pos, [])] else []
  | least, most, pos, x :: xs =>
    (if least = 0 then [(pos, x :: xs)] else []) ++
      if most ≠ some 0 ∧ c.has x then runEnds c (least - 1) (most.map (· - 1)) (pos + 1) xs else []

theorem takeLeast_eq_findSome? (c : CharClass) (k : Nat → Text → Option Place) (least : Nat)
    (most : Option Nat) (pos : Nat) (xs : Text) :
    takeLeast c k least most pos xs =
      (runEnds c least most pos xs).findSome? fun y => k y.1 y.2 := by
  induction xs generalizing least most pos with
  | nil => simp only [takeLeast, runEnds]; split <;> simp
  | cons x xs ih =>
    simp only [takeLeast, runEnds, ih, List.findSome?_append]
    by_cases hl : least = 0
    · simp only [hl, ↓reduceIte, List.findSome?_singleton]
      cases k pos (x :: xs) with
      | none => simp only [Option.none_or]; split <;> rfl
      | some r => rfl
    · simp only [hl, ↓reduceIte, List.findSome?_nil, Option.none_or]
      split <;> rfl

theorem takeMost_eq_findSome? (c : CharClass) (k : Nat → Text → Option Place) (least : Nat)
    (most : Option Nat) (pos : Nat) (xs : Text) :
    takeMost c k least most pos xs =
      (runEnds c least most pos xs).reverse.findSome? fun y => k y.1 y.2 := by
  induction xs generalizing least most pos with
  | nil => simp only [takeMost, runEnds]; split <;> simp
  | cons x xs ih =>
    simp only [takeMost, runEnds, ih, List.reverse_append, List.findSome?_append]
    by_cases hx : most ≠ some 0 ∧ c.has x
    · rw [if_pos hx, if_pos hx]
      cases (runEnds c (least - 1) (most.map (· - 1)) (pos + 1) xs).reverse.findSome?
          fun y => k y.1 y.2 with
      | none => simp only [Option.none_or]; split <;> simp
      | some r => rfl
    · rw [if_neg hx, if_neg hx, List.reverse_nil, List.findSome?_nil, Option.none_or]
      split <;> simp

def repeatEnds (body : Place → List Place) (least : Nat) (most : Option Nat) (greedy : Bool) :
    (fuel count : Nat) → (last : Option Nat) → Place → List Place
  | 0, _, _, _ => []
  | fuel + 1, count, last, x =>
    if count < least then
      (body x).flatMap (repeatEnds body least most greedy fuel (count + 1) last)
    else
      let further :=
        if most.all (count < ·) && last != some x.pos then
          (body x).flatMap (repeatEnds body least most greedy fuel (count + 1) (some x.pos))
        else []
      if greedy then further ++ [x] else x :: further

theorem findSome?_flatMap {α β γ : Type} (l : List α) (f : α → List β) (k : β → Option γ) :
    (l.flatMap f).findSome? k = l.findSome? fun a => (f a).findSome? k := by
  induction l with
  | nil => rfl
  | cons a l ih =>
    rw [List.flatMap_cons, List.findSome?_append, List.findSome?_cons, ih]
    cases (f a).findSome? k <;> rfl

theorem takeRepeated_eq_findSome? (body : Place → (Place → Option Place) → Option Place)
    (ends : Place → List Place) (hb : ∀ x k, body x k = (ends x).findSome? k) (least : Nat)
    (most : Option Nat) (greedy : Bool) (k : Place → Option Place) (fuel count : Nat)
    (last : Option Nat) (x : Place) :
    takeRepeated body least most greedy k fuel count last x =
      (repeatEnds ends least most greedy fuel count last x).findSome? k := by
  induction fuel generalizing count last x with
  | zero => rfl
  | succ fuel ih =>
    have hturn : ∀ n l, takeRepeated body least most greedy k fuel n l =
        fun y => (repeatEnds ends least most greedy fuel n l y).findSome? k :=
      fun n l => funext fun y => ih n l y
    simp only [takeRepeated, repeatEnds, hb, hturn]
    by_cases hc : count < least
    · simp only [hc, ↓reduceIte, findSome?_flatMap]
    · simp only [hc, ↓reduceIte]
      generalize (most.all (count < ·) && last != some x.pos) = more
      cases greedy <;> cases more <;>
        simp only [Bool.false_eq_true, ↓reduceIte, List.nil_append, List.findSome?_append,
          List.findSome?_cons, List.findSome?_nil, findSome?_flatMap]
      · cases k x <;> rfl
      · cases k x <;> rfl
      · cases k x <;> rfl
      · cases (ends x).findSome? fun y =>
          (repeatEnds ends least most true fuel (count + 1) (some x.pos) y).findSome? k with
        | none => cases k x <;> rfl
        | some r => rfl

/-- The places that a pattern can lead to from `x`, in order of preference. -/
def ends (s : Text) : Pattern → Place → List Place
  | lit cs, x =>
    if cs.isPrefixOf x.rest then
      [{ x with pos := x.pos + cs.length, rest := x.rest.drop cs.length }]
    else []
  | one c, x =>
    match x.rest with
    | [] => []
    | a :: rest => if c.has a then [{ x with pos := x.pos + 1, rest := rest }] else []
  | run c least most greedy, x =>
    let found := (runEnds c least most x.pos x.rest).map fun y =>
      { x with pos := y.1, rest := y.2 }
    if greedy then found.reverse else found
  | cat p q, x => (p.ends s x).flatMap (q.ends s)
  | alt p q, x => p.ends s x ++ q.ends s x
  | rep p least most greedy, x =>
    repeatEnds (p.ends s) least most greedy (least + x.rest.length + 2) 0 none x
  | group name p, x =>
    (p.ends s x).map fun y => { y with groups := (name, x.pos, y.pos) :: y.groups }
  | again name caseless, x =>
    match x.group? name with
    | none => []
    | some (a, b) =>
      let told := (s.take b).drop a
      let read := x.rest.take told.length
      if told == read || (caseless && told.map Text.lowerChar == read.map Text.lowerChar) then
        [{ x with pos := x.pos + told.length, rest := x.rest.drop told.length }]
      else []
  | edge e, x => if e.holds s x.pos x.rest then [x] else []
  | look back expected p, x =>
    let start := x.pos - back
    let seen :=
      if x.pos < back then none
      else (p.ends s { x with pos := start, rest := s.drop start }).head?
    match seen with
    | some y => if expected then [{ x with groups := y.groups }] else []
    | none => if expected then [] else [x]
  | atomic p, x => (p.ends s x).head?.toList
  | ifGroup name p q, x => if (x.group? name).isSome then p.ends s x else q.ends s x

theorem findSome?_some {α : Type} (l : List α) : l.findSome? some = l.head? := by
  cases l <;> rfl

theorem walk_eq_findSome? (s : Text) (p : Pattern) (x : Place) (k : Place → Option Place) :
    p.walk s x k = (p.ends s x).findSome? k := by
  induction p generalizing x k with
  | lit cs => simp only [walk, ends]; split <;> simp
  | one c =>
    simp only [walk, ends]
    cases x.rest with
    | nil => rfl
    | cons a rest => simp only; split <;> simp
  | run c least most greedy =>
    cases greedy with
    | true =>
      simp only [walk, ends, ↓reduceIte, takeMost_eq_findSome?, ← List.map_reverse,
        List.findSome?_map]
      rfl
    | false =>
      simp only [walk, ends, Bool.false_eq_true, ↓reduceIte, takeLeast_eq_findSome?,
        List.findSome?_map]
      rfl
  | cat p q ihp ihq => simp only [walk, ends, ihp, ihq, findSome?_flatMap]
  | alt p q ihp ihq =>
    simp only [walk, ends, ihp, ihq, List.findSome?_append]
    cases (p.ends s x).findSome? k <;> rfl
  | rep p least most greedy ih =>
    simp only [walk, ends]
    exact takeRepeated_eq_findSome? _ _ (fun y h => ih y h) least most greedy k _ _ _ _
  | group name p ih => simp only [walk, ends, ih, List.findSome?_map]; rfl
  | again name caseless =>
    simp only [walk, ends]
    cases x.group? name with
    | none => rfl
    | some y => simp only; split <;> simp
  | edge e => simp only [walk, ends]; split <;> simp
  | look back expected p ih =>
    simp only [walk, ends, ih, findSome?_some]
    generalize (if x.pos < back then none else
      (p.ends s { x with pos := x.pos - back, rest := s.drop (x.pos - back) }).head?) = seen
    cases seen <;> cases expected <;> simp
  | atomic p ih =>
    simp only [walk, ends, ih, findSome?_some]
    cases (p.ends s x).head? <;> simp
  | ifGroup name p q ihp ihq => simp only [walk, ends, ihp, ihq]; split <;> rfl

theorem matchHere_eq (p : Pattern) (s : Text) (pos : Nat) (rest : Text) :
    p.matchHere s pos rest =
      (p.ends s { pos, rest }).head?.map fun y => ⟨pos, y.pos, y.groups⟩ := by
  rw [matchHere, walk_eq_findSome?, findSome?_some]

end CodeAudit.Pattern
