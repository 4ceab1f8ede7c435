import CodeAudit.Declaration.Directive
import CodeAudit.Declaration.Function
import CodeAudit.Declaration.Simple

namespace CodeAudit.Class

inductive Outcome where
  | absent
  | unfinished
  | found (finding : Finding)
  deriving DecidableEq, Repr

def members : List Form := [
  .ofSpan Statement.access,
  .ofSpan Statement.friend,
  .ofSpan (Statement.whole Shape.enum),
  .ofSpan (Statement.whole Shape.property),
  Declaration.define,
  Declaration.objectMark,
  Declaration.classDestructor,
  Declaration.classConstructor,
  Declaration.method,
  Declaration.typedef,
  Declaration.memberVariable]

def nameReports (name : Text) (line : Int) : Scan (List Report) := do
  let told := fun rule => (⟨line, rule, some name, none⟩ : Report)
  let c ← name.charAt 3
  let lead := if name.take 3 == "cit".toList then [] else [told .classLead]
  let capital := if Text.isUpper c || Text.isDigit c then [] else [told .classCapital]
  return lead ++ capital

def colonRule? (s : Text) (next : Int) : Scan (Option Rule) := do
  if (← s.charAt next) != ':' then return none
  if (← s.charAt (next - 1)) == ' ' then return none
  if (← s.charAt (next + 1)) == ' ' then return none
  return some .inheritanceColon

structure State where
  old : Int
  pos : Int
  reports : List Report := []

def round (s : Text) (start : Int) (x : State) : Lint (Round State Outcome) := do
  unless x.old < x.pos do throw .malformed
  let pos ← (s.nextInk x.pos : Lint _)
  if (← (s.charAt pos : Lint _)) == ';' then return .again ⟨x.pos, pos + 1, x.reports⟩
  setLine (s.lineOf pos)
  if let some member ← Form.first members s pos then
    return .again ⟨x.pos, member.stop + 1, x.reports ++ member.reports⟩
  if s.slice pos (pos + 2) == ['}', ';'] then
    return .done (.found ⟨⟨start, pos + 1⟩, x.reports⟩)
  let stop := s.find ';' pos
  if s.slice (stop - 1) (stop + 1) == ['}', ';'] then
    return .done (.found ⟨⟨start, stop⟩, x.reports⟩)
  if s.length ≤ stop + 1 then return .done .unfinished
  return .again ⟨x.pos, stop + 1, x.reports⟩

def body (s : Text) (start : Int) (m : Match) (reports : List Report) : Lint Outcome := do
  let next ← (s.nextInk m.stop : Lint _)
  let rule ← (colonRule? s next : Lint _)
  let line ← currentLine
  let colon := rule.toList.map fun r => (⟨line, r, some (m.text s), none⟩ : Report)
  let brace := s.find '{' next
  rounds (round s start) (s.length + 3) ⟨brace, brace + 1, reports ++ colon⟩

def inClass {α : Type} (x : Lint α) : Lint α := fun c =>
  let (r, c) := x { c with scope := .classBody }
  (r, { c with scope := .file })

def check (s : Text) (i : Int) : Lint Outcome := do
  if let some m := Shape.classForward.matchAt s i then
    return .found ⟨⟨m.start, m.stop - 1⟩, []⟩
  let some m := Shape.classHead.matchAt s i | return .absent
  let name := (m.groupText? s "class").getD []
  let reports ← (nameReports name (← currentLine) : Lint _)
  inClass (body s i m reports)

def form : Form := fun s i => do
  match ← check s i with
  | .absent => return none
  | .unfinished => throw .openClass
  | .found finding => return some finding

end CodeAudit.Class
