import CodeAudit.Failure
import CodeAudit.Report

namespace CodeAudit

inductive Scope where
  | file
  | classBody
  deriving DecidableEq, Repr

structure Context where
  file : Option Text := none
  line : Int := 0
  ownIncludes : Bool := false
  scope : Scope := .file
  deriving DecidableEq, Repr

namespace Context

def isHeader? (c : Context) : Option Bool :=
  c.file.map fun name => ".h".toList.isSuffixOf name

end Context

abbrev Lint := ExceptT Failure (StateM Context)

instance : MonadLift Scan Lint := ⟨fun e => ExceptT.mk (pure e)⟩

structure Span where
  start : Int
  stop : Int
  deriving DecidableEq, Repr

structure Finding extends Span where
  reports : List Report := []
  deriving DecidableEq, Repr

abbrev Form := Text → Int → Lint (Option Finding)

namespace Form

def ofScan (f : Text → Int → Scan (Option Span)) : Form := fun s i => do
  return (← f s i).map fun span => { span with }

def ofSpan (f : Text → Int → Option Span) : Form := fun s i =>
  return (f s i).map fun span => { span with }

/-- A finding that starts at `-1` does not count. -/
def counted (f : Form) : Form := fun s i => do
  return (← f s i).filter (·.start != -1)

def first : List Form → Form
  | [], _, _ => return none
  | f :: fs, s, i => do
    match ← counted f s i with
    | some x => return some x
    | none => first fs s i

end Form

def currentLine : Lint Int := return (← get).line

def setLine (line : Int) : Lint Unit := modify fun c => { c with line }

end CodeAudit
