import CodeAudit.Bracket
import CodeAudit.Lint
import CodeAudit.Shape
import CodeAudit.Token

namespace CodeAudit.Statement

def whole (p : Pattern) (s : Text) (i : Int) : Option Span :=
  (p.matchAt s i).map fun m => ⟨m.start, m.stop - 1⟩

def upTo (c : Char) (p : Pattern) (s : Text) (i : Int) : Option Span :=
  (p.matchAt s i).map fun m => ⟨m.start, s.find c m.stop⟩

def braced (p : Pattern) (s : Text) (i : Int) : Scan (Option Span) :=
  match p.matchAt s i with
  | none => return none
  | some m => return some ⟨m.start, ← Bracket.brace.partner s (m.stop - 1)⟩

def streamStatement := upTo ';' Shape.stream
def friend := upTo ';' Shape.friend
def access := upTo ':' Shape.access
def usingNamespace := whole Shape.usingNamespace
def deleteStatement := whole Shape.deleteStatement
def emitStatement := whole Shape.emitStatement
def callStatement := whole Shape.call
def returnStatement := whole Shape.returnStatement
def whileStatement := braced (Shape.indented Shape.whileHead)
def switchStatement := braced (Shape.indented Shape.switchHead)

def forStatement (s : Text) (i : Int) : Scan (Option Span) := do
  let found ← braced (Shape.indented Shape.forHead) s i
  if found.any (·.stop == -1) then throw .malformed
  return found

def staticMember (s : Text) (i : Int) : Option Span :=
  (Shape.staticMember.matchAt s i).map fun m => ⟨i, s.find ';' m.stop⟩

def conditional (s : Text) (i : Int) : Option Span :=
  (Shape.conditional.matchAt s i).map fun m => ⟨m.start, s.lineEnd m.stop⟩

def doStatement (s : Text) (i : Int) : Scan (Option Span) := do
  let some span ← braced Shape.doHead s i | return none
  if (← s.charAt span.stop) != '}' then throw .malformed
  unless (← Token.next s (span.stop + 1)).is "while" do throw .malformed
  return some ⟨span.start, s.find ';' (span.stop + 1)⟩

def foreachStatement (s : Text) (i : Int) : Scan (Option Span) := do
  let some m := Shape.foreachHead.matchAt s i | return none
  let headEnd ← Bracket.paren.partner s (m.stop - 1)
  return some ⟨i, ← Bracket.brace.partner s (s.find '{' (headEnd + 1))⟩

def struct (s : Text) (i : Int) : Scan (Option Span) := do
  let some span ← braced Shape.struct s i | return none
  if span.stop == -1 then throw .malformed
  let stop := s.find ';' (span.stop + 1)
  if (← s.charAt stop) != ';' then throw .malformed
  return some ⟨span.start, stop⟩

/-- The end of a branch whose first token is `t`: the partner of its brace, or without a brace the
next semicolon at or after `i`. -/
def branchEnd (s : Text) (t : Token) (i : Int) : Scan Int := do
  if t.text == ['{'] then
    let stop ← Bracket.brace.partner s t.start
    if stop == -1 then throw .malformed
    return stop
  else return s.find ';' i

def elseRound (s : Text) (stop : Int) : Scan (Round Int Int) := do
  let t ← Token.next s (stop + 1)
  unless t.is "else" do return .done stop
  let t ← Token.next s t.stop
  if t.is "if" then
    let t ← Token.next s t.stop
    unless t.is "(" do throw .malformed
    let headEnd ← Bracket.paren.partner s t.start
    let t ← Token.next s (headEnd + 1)
    return .again (← branchEnd s t t.stop)
  else return .again (← branchEnd s t t.stop)

def ifStatement (s : Text) (i : Int) : Scan (Option Span) := do
  let some m := (Shape.indented Shape.ifHead).matchAt s i | return none
  let headEnd ← Bracket.paren.partner s (m.stop - 1)
  if headEnd == -1 then throw .malformed
  let stop ← branchEnd s (← Token.next s (headEnd + 1)) m.stop
  return some ⟨m.start, ← rounds (elseRound s) (s.length + 2) stop⟩

end CodeAudit.Statement
