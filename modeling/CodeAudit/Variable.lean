import CodeAudit.Lint
import CodeAudit.Shape

namespace CodeAudit.Variable

/-- The first `c` has a space before it; the last character counts as the one before the first. -/
def spaceBefore (s : Text) (c : Char) : Bool :=
  let i := s.find c 0
  i != -1 && s.charAt? (i - 1) == some ' '

def declared (s : Text) : Scan (Text × Text) :=
  match Shape.variableDeclaration.matchAt s 0 with
  | some m => .ok ((m.groupText? s "variable").getD [], m.text s)
  | none => .error .malformed

def leads (letter : Char) (name : Text) : Bool :=
  name.take 2 == [letter, '_']

def localRule? (s : Text) : Scan (Option Rule) := do
  let (name, declaration) ← declared s
  if !leads 'l' name then return some .localLead
  if spaceBefore declaration '*' then return some .farMark
  return none

def memberRule? (s : Text) : Scan (Option Rule) := do
  let (name, _) ← declared s
  return if leads 'm' name then none else some .memberLead

def rawPointerRule? (s : Text) : Scan (Option Rule) := do
  let (_, declaration) ← declared s
  if (Shape.genericPointer.matchAt s 0).isSome then return none
  return if declaration.contains '*' then some .rawPointer else none

def markRule? (s : Text) : Option Rule :=
  if spaceBefore s '*' || spaceBefore s '&' then some .farMark else none

def rawArray? (s : Text) (i : Int) : Option Text :=
  (Shape.rawArray.matchAt s i).map fun m => m.text s

def containerRule? (s : Text) : Option Rule :=
  match Shape.stdContainer.search s 0 with
  | some m => ((m.groupText? s "type").bind StdContainer.ofText?).map .stdContainer
  | none => none

def isStatic (s : Text) : Bool :=
  s.holds "static ".toList

def plainCast (s : Text) (i : Int) : Bool × Int :=
  let stop := s.find '\n' i
  ((Shape.plainCast.searchBefore s i stop).isSome, stop)

def rawMemory (s : Text) (i : Int) : Bool × Int :=
  let stop := s.find ';' i
  match Shape.rawMemory.matchBefore s i stop with
  | some m => (true, m.stop + 1)
  | none => (false, stop)

/-- The next parameter from `i` on, before the parenthesis at `j`. The last character that was read
has to be a space or a line break. -/
def parameterRound (s : Text) (j i : Int) : Scan (Round Int (Option Rule)) := do
  unless i < j do return .done none
  match Shape.parameter.matchBefore s i j with
  | none => return .done none
  | some m =>
    let c ← s.charAt (m.stop - 1)
    if c != ' ' && c != '\n' then return .done (some .parameterSpace)
    return .again m.stop

def parameterRule? (s : Text) (i j : Int) : Scan (Option Rule) := do
  unless (← s.charAt i) == '(' do throw .malformed
  unless (← s.charAt j) == ')' do throw .malformed
  rounds (parameterRound s j) (s.length + 2) i

end CodeAudit.Variable
