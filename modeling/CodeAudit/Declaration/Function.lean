import CodeAudit.Body

namespace CodeAudit.Declaration

def functionHead? (s : Text) (i : Int) : Option (Match × Option Text) :=
  match Shape.function.matchAt s i with
  | some m => some (m, m.groupText? s "function")
  | none => (Shape.operator.matchAt s i).map fun m => (m, none)

def parameters (s : Text) (stop start : Int) : Lint (Int × List Report) := do
  let last ← (Bracket.paren.partner s (stop - 1) : Lint _)
  let rule ← (Variable.parameterRule? s (stop - 1) last : Lint _)
  let line ← currentLine
  return (last, rule.toList.map fun r => ⟨line, r, some (s.slice start (last + 1)), none⟩)

inductive HeadEnd where
  | semicolon (i : Int)
  | brace (i : Int)

/-- The first semicolon or brace at or after `i`; without one, the last place is taken for that of a
brace. -/
def headEnd (s : Text) (i : Int) : Scan HeadEnd :=
  match (s.drop i.toNat).findIdx? fun c => c == ';' || c == '{' with
  | some k => .ok (if s[i.toNat + k]? == some ';' then .semicolon (i + k) else .brace (i + k))
  | none => if i < s.length then .ok (.brace (s.length - 1)) else .error .noBody

def method : Form := fun s i => do
  let some (m, _) := functionHead? s i | return none
  let (last, reports) ← parameters s m.stop m.start
  match ← (headEnd s (last + 1) : Lint _) with
  | .semicolon j => return some ⟨⟨i, j⟩, reports⟩
  | .brace j =>
    let body ← Body.check s j
    return some ⟨⟨i, body.stop⟩, reports ++ body.reports⟩

def functionRule? (name : Text) : Option Rule :=
  if name.take 3 != "cit".toList && name != "main".toList then some .functionLead else none

def function : Form := fun s i => do
  let some (m, name) := functionHead? s i | return none
  let (last, reports) ← parameters s m.stop i
  let line ← currentLine
  let own := (name.bind functionRule?).toList.map fun r =>
    (⟨line, r, some (s.slice i (last + 1)), none⟩ : Report)
  match ← (headEnd s (last + 1) : Lint _) with
  | .semicolon j => return some ⟨⟨i, j⟩, reports ++ own⟩
  | .brace j =>
    setLine (s.lineOf j)
    let body ← Body.check s j
    return some ⟨⟨i, body.stop⟩, reports ++ own ++ body.reports⟩

def classConstructor : Form := fun s i => do
  let some m := Shape.constructor.matchAt s i | return none
  let (last, _) ← parameters s m.stop m.start
  let t ← (Token.next s (last + 1) : Lint _)
  if t.is ";" then return some ⟨⟨m.start, s.find ';' (last + 1)⟩, []⟩
  if t.text == ['{'] then
    let body ← Body.check s (s.find '{' (last + 1))
    return some ⟨⟨m.start, body.stop⟩, body.reports⟩
  return none

def classDestructor : Form := fun s i => do
  let some m := Shape.destructor.matchAt s i | return none
  let text := m.text s
  let own ←
    if text.holds "virtual".toList then pure []
    else pure [⟨← currentLine, .virtualDestructor, some text, none⟩]
  let t ← (Token.next s m.stop : Lint _)
  let (stop, reports) ←
    if t.text == ['{'] then do
      let body ← Body.check s (s.find '{' m.stop)
      pure (body.stop, body.reports)
    else pure ((m.stop : Int), [])
  let t ← (Token.next s stop : Lint _)
  let stop := if t.is ";" then s.find ';' stop else stop
  return some ⟨⟨m.start, stop⟩, own ++ reports⟩

def memberBody : Form := fun s i => do
  let head := (Shape.destructorBody.matchAt s i).orElse fun _ =>
    (Shape.constructorBody.matchAt s i).orElse fun _ => Shape.methodBody.matchAt s i
  let some m := head | return none
  let last ← (Bracket.paren.partner s (m.stop - 1) : Lint _)
  let start := s.find '{' last
  setLine (s.lineOf start)
  let body ← Body.check s start
  return some ⟨⟨i, body.stop⟩, body.reports⟩

end CodeAudit.Declaration
