import CodeAudit.Pattern.Basic

/-!
Matching. `Pattern.walk` follows a pattern from a place in a text and hands each place that it can
reach, in order of preference, to what comes after it; the first that succeeds there counts.
-/

namespace CodeAudit

structure Place where
  pos : Nat
  rest : Text
  groups : List (String × Nat × Nat) := []
  deriving DecidableEq, Repr

namespace Place

def group? (x : Place) (name : String) : Option (Nat × Nat) :=
  x.groups.lookup name

end Place

namespace Pattern

def takeMost (c : CharClass) (k : Nat → Text → Option Place) :
    (least : Nat) → (most : Option Nat) → (pos : Nat) → Text → Option Place
  | least, _, pos, [] => if least = 0 then k pos [] else none
  | least, most, pos, x :: xs =>
    if most ≠ some 0 ∧ c.has x then
      match takeMost c k (least - 1) (most.map (· - 1)) (pos + 1) xs with
      | some r => some r
      | none => if least = 0 then k pos (x :: xs) else none
    else if least = 0 then k pos (x :: xs) else none

def takeLeast (c : CharClass) (k : Nat → Text → Option Place) :
    (least : Nat) → (most : Option Nat) → (pos : Nat) → Text → Option Place
  | least, _, pos, [] => if least = 0 then k pos [] else none
  | least, most, pos, x :: xs =>
    match if least = 0 then k pos (x :: xs) else none with
    | some r => some r
    | none =>
      if most ≠ some 0 ∧ c.has x then
        takeLeast c k (least - 1) (most.map (· - 1)) (pos + 1) xs
      else none

/-- Repetition of `body`, of which `count` have been read. Beyond the least number, a repetition
does not start where the one before it started, so one that reads nothing is the last. -/
def takeRepeated (body : Place → (Place → Option Place) → Option Place) (least : Nat)
    (most : Option Nat) (greedy : Bool) (k : Place → Option Place) :
    (fuel count : Nat) → (last : Option Nat) → Place → Option Place
  | 0, _, _, _ => none
  | fuel + 1, count, last, x =>
    if count < least then
      body x (takeRepeated body least most greedy k fuel (count + 1) last)
    else
      let further := fun (_ : Unit) =>
        if most.all (count < ·) && last != some x.pos then
          body x (takeRepeated body least most greedy k fuel (count + 1) (some x.pos))
        else none
      if greedy then
        match further () with
        | some r => some r
        | none => k x
      else
        match k x with
        | some r => some r
        | none => further ()

end Pattern

namespace Edge

def holds (s : Text) (pos : Nat) (rest : Text) : Edge → Bool
  | textStart => pos == 0
  | textEnd => rest.isEmpty
  | lastLineEnd => rest.isEmpty || rest == ['\n']
  | lineStart => pos == 0 || s[pos - 1]? == some '\n'
  | lineEnd => rest.isEmpty || rest.head? == some '\n'
  | wordBoundary letters => atWordEdge letters
  | noWordBoundary letters => !s.isEmpty && !atWordEdge letters
where
  atWordEdge (letters : CharClass) : Bool :=
    !s.isEmpty && (pos != 0 && (s[pos - 1]?).any letters.has) != rest.head?.any letters.has

end Edge

namespace Pattern

def walk (s : Text) : Pattern → Place → (Place → Option Place) → Option Place
  | lit cs, x, k =>
    if cs.isPrefixOf x.rest then
      k { x with pos := x.pos + cs.length, rest := x.rest.drop cs.length }
    else none
  | one c, x, k =>
    match x.rest with
    | [] => none
    | a :: rest => if c.has a then k { x with pos := x.pos + 1, rest := rest } else none
  | run c least most greedy, x, k =>
    let k' := fun pos rest => k { x with pos := pos, rest := rest }
    if greedy then takeMost c k' least most x.pos x.rest
    else takeLeast c k' least most x.pos x.rest
  | cat p q, x, k => p.walk s x fun y => q.walk s y k
  | alt p q, x, k =>
    match p.walk s x k with
    | some r => some r
    | none => q.walk s x k
  | rep p least most greedy, x, k =>
    takeRepeated (fun y h => p.walk s y h) least most greedy k
      (least + x.rest.length + 2) 0 none x
  | group name p, x, k =>
    p.walk s x fun y => k { y with groups := (name, x.pos, y.pos) :: y.groups }
  | again name caseless, x, k =>
    match x.group? name with
    | none => none
    | some (a, b) =>
      let told := (s.take b).drop a
      let read := x.rest.take told.length
      if told == read || (caseless && told.map Text.lowerChar == read.map Text.lowerChar) then
        k { x with pos := x.pos + told.length, rest := x.rest.drop told.length }
      else none
  | edge e, x, k => if e.holds s x.pos x.rest then k x else none
  | look back expected p, x, k =>
    let start := x.pos - back
    let seen :=
      if x.pos < back then none
      else p.walk s { x with pos := start, rest := s.drop start } some
    match seen with
    | some y => if expected then k { x with groups := y.groups } else none
    | none => if expected then none else k x
  | atomic p, x, k =>
    match p.walk s x some with
    | some y => k y
    | none => none
  | ifGroup name p q, x, k =>
    if (x.group? name).isSome then p.walk s x k else q.walk s x k

end Pattern

structure Match where
  start : Nat
  stop : Nat
  groups : List (String × Nat × Nat)
  deriving DecidableEq, Repr

namespace Match

def group? (m : Match) (name : String) : Option (Nat × Nat) :=
  m.groups.lookup name

def text (m : Match) (s : Text) : Text :=
  (s.take m.stop).drop m.start

def groupText? (m : Match) (s : Text) (name : String) : Option Text :=
  (m.group? name).map fun (a, b) => (s.take b).drop a

end Match

namespace Pattern

def matchHere (p : Pattern) (s : Text) (pos : Nat) (rest : Text) : Option Match :=
  (p.walk s { pos, rest } some).map fun y => ⟨pos, y.pos, y.groups⟩

def searchHere (p : Pattern) (s : Text) : (pos : Nat) → (rest : Text) → Option Match
  | pos, [] => p.matchHere s pos []
  | pos, x :: xs =>
    match p.matchHere s pos (x :: xs) with
    | some m => some m
    | none => searchHere p s (pos + 1) xs

def matchAt (p : Pattern) (s : Text) (i : Int) : Option Match :=
  let (a, rest) := s.seek i
  p.matchHere s a rest

def matchBefore (p : Pattern) (s : Text) (i limit : Int) : Option Match :=
  p.matchAt (s.take limit.toNat) i

def search (p : Pattern) (s : Text) (i : Int) : Option Match :=
  let (a, rest) := s.seek i
  p.searchHere s a rest

def searchBefore (p : Pattern) (s : Text) (i limit : Int) : Option Match :=
  p.search (s.take limit.toNat) i

end Pattern

end CodeAudit
