/-!
Texts and positions in them. Positions are integers: a search that finds nothing answers `-1`, and a
negative position in a bound or an index counts from the end of the text.
-/

namespace CodeAudit

abbrev Text := List Char

namespace Text

def isBlank (c : Char) : Bool :=
  let n := c.toNat
  if n < 128 then (9 ≤ n && n ≤ 13) || (28 ≤ n && n ≤ 32)
  else n == 0x85 || n == 0xa0 || n == 0x1680 || (0x2000 ≤ n && n ≤ 0x200a) ||
    n == 0x2028 || n == 0x2029 || n == 0x202f || n == 0x205f || n == 0x3000

/-- The place of a bound in a text: a negative bound counts from the end, but not beyond the
beginning. -/
def bound (s : Text) (i : Int) : Nat :=
  if i < 0 then (i + s.length).toNat else i.toNat

def advance : (k pos : Nat) → Text → Nat × Text
  | 0, pos, s => (pos, s)
  | _ + 1, pos, [] => (pos, [])
  | k + 1, pos, _ :: s => advance k (pos + 1) s

def seek (s : Text) (i : Int) : Nat × Text :=
  advance i.toNat 0 s

def charAt? (s : Text) (i : Int) : Option Char :=
  if 0 ≤ i then s[i.toNat]?
  else if 0 ≤ i + s.length then s[(i + s.length).toNat]? else none

def slice (s : Text) (a b : Int) : Text :=
  (s.take (s.bound b)).drop (s.bound a)

/-- What a scan from position `i` reads: from a negative position the end of the text, and then the
text from its beginning. There is nothing to read from a position before the beginning. -/
def onward? (s : Text) (i : Int) : Option Text :=
  if 0 ≤ i then some (s.drop i.toNat)
  else if 0 ≤ i + s.length then some (s.drop (i + s.length).toNat ++ s) else none

def find (s : Text) (c : Char) (i : Int) : Int :=
  let a := s.bound i
  match (s.drop a).findIdx? (· == c) with
  | some k => a + k
  | none => -1

def offsetOf (part : Text) : Text → Option Nat
  | [] => if part.isEmpty then some 0 else none
  | c :: s => if part.isPrefixOf (c :: s) then some 0 else (offsetOf part s).map (· + 1)

def findText (s part : Text) (i : Int) : Int :=
  if s.length < i then -1
  else
    let a := s.bound i
    match offsetOf part (s.drop a) with
    | some k => a + k
    | none => -1

def holds (s part : Text) : Bool :=
  (offsetOf part s).isSome

def breaksWithin : (n told : Nat) → Text → Nat
  | 0, told, _ => told
  | _ + 1, told, [] => told
  | n + 1, told, c :: s => breaksWithin n (if c == '\n' then told + 1 else told) s

def lineBreaks (s : Text) (a b : Int) : Nat :=
  breaksWithin (s.bound b - s.bound a) 0 (s.drop (s.bound a))

def lineOf (s : Text) (i : Int) : Nat :=
  s.lineBreaks 0 i + 1

def lineEnd (s : Text) (i : Int) : Nat :=
  let (a, rest) := s.seek i
  match rest.findIdx? (· == '\n') with
  | some k => a + k
  | none => a + rest.length

def dropBlanks (s : Text) : Text :=
  s.dropWhile isBlank

def trim (s : Text) : Text :=
  (dropBlanks (dropBlanks s).reverse).reverse

def trimMargin (s : Text) : Text :=
  match s.dropWhile (fun c => c == ' ' || c == '\n' || c == '\t') with
  | [] => s
  | rest => rest

end Text

end CodeAudit
