import CodeAudit.Text.Basic
import CodeAudit.Text.Case
import CodeAudit.Text.Numeral

namespace CodeAudit

inductive CharClass where
  | any
  | blank
  | word
  | decimal
  | among (cs : List Char)
  | range (first last : Nat)
  | either (a b : CharClass)
  | other (a : CharClass)
  | caseless (a : CharClass)
  deriving DecidableEq, Repr

namespace CharClass

def caseVariants (c : Char) : List Char :=
  let low := Text.lowerChar c
  let shifted := Text.lowerRuns.filterMap fun (r, way) =>
    let n := (low.toNat - way).toNat
    if r.covers n then some (Char.ofNat n) else none
  low :: low.toUpper :: shifted

def has : CharClass → Char → Bool
  | any, _ => true
  | blank, c => Text.isBlank c
  | word, c => Text.isWord c
  | decimal, c => Text.isDecimal c
  | among cs, c => cs.contains c
  | range first last, c => first ≤ c.toNat && c.toNat ≤ last
  | either a b, c => a.has c || b.has c
  | other a, c => !a.has c
  | caseless a, c => (caseVariants c).any a.has

def inLine : CharClass := .other (.among ['\n'])

end CharClass

inductive Edge where
  | textStart
  | textEnd
  | lastLineEnd
  | lineStart
  | lineEnd
  | wordBoundary (letters : CharClass)
  | noWordBoundary (letters : CharClass)
  deriving DecidableEq, Repr

/-- A pattern of text. Of several ways to match, the first one counts: in `alt` that of the left
pattern, in a greedy repetition the longer one, in any other the shorter one. -/
inductive Pattern where
  | lit (cs : List Char)
  | one (c : CharClass)
  | run (c : CharClass) (least : Nat) (most : Option Nat) (greedy : Bool)
  | cat (p q : Pattern)
  | alt (p q : Pattern)
  | rep (p : Pattern) (least : Nat) (most : Option Nat) (greedy : Bool)
  | group (name : String) (p : Pattern)
  | again (name : String) (caseless : Bool)
  | edge (e : Edge)
  | look (back : Nat) (expected : Bool) (p : Pattern)
  | atomic (p : Pattern)
  | ifGroup (name : String) (p q : Pattern)
  deriving DecidableEq, Repr

namespace Pattern

instance : Append Pattern := ⟨cat⟩
instance : Coe String Pattern := ⟨fun s => lit s.toList⟩

def opt (p : Pattern) : Pattern := alt p (lit [])

def oneOf : List Pattern → Pattern
  | [] => lit []
  | [p] => p
  | p :: ps => alt p (oneOf ps)

def many (c : CharClass) : Pattern := run c 0 none true
def many1 (c : CharClass) : Pattern := run c 1 none true
def few (c : CharClass) : Pattern := run c 0 none false
def few1 (c : CharClass) : Pattern := run c 1 none false

def groupNames : Pattern → List String
  | group name p => name :: p.groupNames
  | cat p q | alt p q | ifGroup _ p q => p.groupNames ++ q.groupNames
  | rep p _ _ _ | look _ _ p | atomic p => p.groupNames
  | lit _ | one _ | run _ _ _ _ | again _ _ | edge _ => []

end Pattern

end CodeAudit
