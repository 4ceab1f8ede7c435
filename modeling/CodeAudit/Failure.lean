import CodeAudit.Pattern.Written

namespace CodeAudit

inductive ReadFailure where
  | missing
  | isFolder
  | throughFile
  | notUtf8
  deriving DecidableEq, Repr

inductive Failure where
  | malformed
  | outOfRange
  | noToken
  | openClass
  | noBody
  | namelessFile
  | namelessInclude
  | noClosingMark
  | endless
  /-- A statement is nested in itself, so that measuring it descends for ever. -/
  | nestedInItself
  | noGroup
  | badPattern (written : Text) (e : PatternError)
  | unreadable (e : ReadFailure)
  | noResult
  | tooLarge
  | tooManyDigits
  deriving DecidableEq, Repr

namespace Failure

def message : Failure → String
  | malformed => "the text is not of the expected form"
  | outOfRange => "a position lies outside of the text"
  | noToken => "no token is left"
  | openClass => "a class definition is not closed"
  | noBody => "nothing follows the parameters of a function"
  | namelessFile => "the file has no name"
  | namelessInclude => "an include directive names no file"
  | noClosingMark => "a region has no closing mark"
  | endless => "the check does not end"
  | nestedInItself => "a statement is nested in itself"
  | noGroup => "the pattern has no group to take out"
  | badPattern written e => e.message written
  | unreadable .missing => "there is no such file"
  | unreadable .isFolder => "the path leads to a folder"
  | unreadable .throughFile => "the path leads through a file"
  | unreadable .notUtf8 => "the file is not UTF-8"
  | noResult => "there is nothing to print"
  | tooLarge => "a size is too large to be written"
  | tooManyDigits => "a number has too many digits"

end Failure

abbrev Scan := Except Failure

inductive Round (σ ρ : Type) where
  | again (next : σ)
  | done (result : ρ)
  deriving Repr

/-- Rounds of a scan until the last one. A scan that goes on for more rounds than it has states is
in a state for the second time, and so it never ends. -/
def rounds {σ ρ : Type} {m : Type → Type} [Monad m] [MonadExceptOf Failure m]
    (round : σ → m (Round σ ρ)) : (states : Nat) → σ → m ρ
  | 0, _ => throw .endless
  | states + 1, x => do
    match ← round x with
    | .done r => pure r
    | .again y => rounds round states y

namespace Text

def charAt (s : Text) (i : Int) : Scan Char :=
  match s.charAt? i with
  | some c => .ok c
  | none => .error .outOfRange

def onward (s : Text) (i : Int) : Scan Text :=
  match s.onward? i with
  | some t => .ok t
  | none => .error .outOfRange

def nextInk (s : Text) (i : Int) : Scan Int := do
  match (← s.onward i).findIdx? (!isBlank ·) with
  | some k => return i + k
  | none => return -1

end Text

end CodeAudit
