import CodeAudit.Failure

namespace CodeAudit

inductive Bracket where
  | angle
  | brace
  | paren
  | square
  deriving DecidableEq, Repr

namespace Bracket

def opening : Bracket → Char
  | angle => '<'
  | brace => '{'
  | paren => '('
  | square => '['

def closing : Bracket → Char
  | angle => '>'
  | brace => '}'
  | paren => ')'
  | square => ']'

def all : List Bracket := [angle, brace, paren, square]

def ofText? (s : Text) : Option Bracket :=
  all.find? fun b => s == [b.opening]

def deepen (b : Bracket) (depth : Nat) (c : Char) : Nat :=
  if c == b.opening then depth + 1
  else if c == b.closing then depth - 1
  else depth

def closeFrom (b : Bracket) : (depth k : Nat) → Text → Option Nat
  | _, _, [] => none
  | depth, k, c :: rest =>
    if b.deepen depth c = 0 then some k else b.closeFrom (b.deepen depth c) (k + 1) rest

/-- Place of the partner of the bracket at `i`, which has to be an opening bracket of some kind;
one of another kind is its own partner. -/
def partner (b : Bracket) (s : Text) (i : Int) : Scan Int := do
  let c ← s.charAt i
  unless all.any (·.opening == c) do throw .malformed
  match b.closeFrom 0 0 (← s.onward i) with
  | some k => return i + k
  | none => return -1

end Bracket

end CodeAudit
