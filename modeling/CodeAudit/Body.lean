import CodeAudit.Nesting
import CodeAudit.Variable

namespace CodeAudit.Body

def measured (keyword : String) (form : Text → Int → Scan (Option Span)) : Form := fun s i => do
  let some span ← (form s i : Lint _) | return none
  let (_, reports) ← (Nesting.check s keyword span : Lint _)
  return some { span with reports }

def rawMemory : Form := fun s i => do
  let (found, stop) := Variable.rawMemory s i
  unless found do return none
  return some ⟨⟨(s.seek i).1, stop⟩,
    [⟨← currentLine, .rawMemory, some (s.slice i stop), none⟩]⟩

def localReports (s : Text) (i : Int) (declared : Text) : Lint (List Report) := do
  let line ← currentLine
  let own ← (Variable.localRule? declared : Lint _)
  let pointer ← (Variable.rawPointerRule? declared : Lint _)
  let told := fun rule => (⟨line, rule, some declared, none⟩ : Report)
  let array := (Variable.rawArray? s i).map fun text =>
    (⟨line, .rawArray, some text, none⟩ : Report)
  return own.toList.map told ++ pointer.toList.map told ++ array.toList ++
    (Variable.containerRule? declared).toList.map told

/-- The left side of an assignment, where `m` is what stands before and with the equals sign:
operators and spaces at its end do not belong to it. -/
def leftSide (s : Text) (m : Match) : Text :=
  let told := (s.take m.stop).drop m.start
  match told with
  | [] => []
  | c :: rest =>
    let kept := (rest.reverse.dropWhile fun d => ['=', '+', '-', '*', '/', ' '].contains d).reverse
    c :: if kept.isEmpty then rest.take 1 else kept

def assignment : Form := fun s i => do
  let some m := Shape.assignment.matchAt s i | return none
  let left := leftSide s m
  let reports ←
    if (Shape.variableDeclaration.matchAt left 0).isSome then localReports s i left else pure []
  return some ⟨⟨m.start, s.find ';' m.stop⟩, reports⟩

def plainCast : Form := fun s i => do
  let (found, stop) := Variable.plainCast s i
  unless found do return none
  return some ⟨⟨(s.seek i).1, stop⟩,
    [⟨← currentLine, .plainCast, some (s.slice i stop), none⟩]⟩

def declaration : Form := fun s i => do
  let some m := Shape.variableDeclaration.matchAt s i | return none
  let stop := s.find ';' m.stop
  if stop == -1 then return none
  return some ⟨⟨m.start, stop⟩, ← localReports s i (s.slice m.start (stop + 1))⟩

def forms : List Form := [
  measured "if" Statement.ifStatement,
  .ofSpan Statement.deleteStatement,
  measured "for" Statement.forStatement,
  .ofScan Statement.foreachStatement,
  .ofSpan Statement.streamStatement,
  measured "while" Statement.whileStatement,
  .ofScan Statement.doStatement,
  .ofSpan Statement.emitStatement,
  measured "switch" Statement.switchStatement,
  rawMemory,
  .ofSpan Statement.callStatement,
  .ofSpan Statement.returnStatement,
  assignment,
  plainCast,
  declaration]

structure State where
  pos : Int
  reports : List Report := []

def round (s : Text) (start stop line : Int) (x : State) : Lint (Round State (List Report)) := do
  unless x.pos < stop do return .done x.reports
  let pos ← (s.nextInk (x.pos + 1) : Lint _)
  setLine (line + s.lineBreaks start pos)
  match ← Form.first forms s pos with
  | some found => return .again ⟨found.stop + 1, x.reports ++ found.reports⟩
  | none =>
    let stop := s.find ';' pos
    if stop == -1 then return .done x.reports
    return .again ⟨stop + 1, x.reports⟩

def check (s : Text) (i : Int) : Lint Finding := do
  if (← (s.charAt i : Lint _)) != '{' then throw .malformed
  let stop ← (Bracket.brace.partner s i : Lint _)
  let reports ← rounds (round s i stop (← currentLine)) (s.length + 3) ⟨i, []⟩
  return ⟨⟨i, stop⟩, reports⟩

end CodeAudit.Body
