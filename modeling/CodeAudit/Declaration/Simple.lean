import CodeAudit.Statement
import CodeAudit.Variable

namespace CodeAudit.Declaration

def enum : Form := fun s i => do
  let some m := Shape.enum.matchAt s i | return none
  let c ← get
  let reports := if c.scope = .file then [⟨c.line, .looseEnum, none, none⟩] else []
  return some ⟨⟨m.start, m.stop - 1⟩, reports⟩

def typedef : Form := fun s i => do
  let some m := Shape.typedef.matchAt s i | return none
  let next ← (s.nextInk m.stop : Lint _)
  if let some found ← enum s next then return some { found with start := m.start }
  if let some span ← (Statement.struct s next : Lint _) then return some ⟨⟨m.start, span.stop⟩, []⟩
  return some ⟨⟨m.start, s.find ';' m.stop⟩, []⟩

def objectMark : Form := fun s i => do
  let some m := Shape.objectMark.matchAt s i | return none
  let next ← (s.nextInk m.stop : Lint _)
  let reports ←
    if s.slice next (next + 2) == ['}', ';'] then pure []
    else pure [⟨← currentLine, .objectMarkLast, some (m.text s), none⟩]
  return some ⟨⟨m.start, m.stop⟩, reports⟩

def variableAt? (s : Text) (i : Int) : Option (Text × Text × Match) :=
  (Shape.variableDeclaration.matchAt s i).map fun m =>
    ((m.groupText? s "variable").getD [], m.text s, m)

def globalNameRule? (name text : Text) : Option Rule :=
  if name.length < 3 then some .shortName
  else if Variable.isStatic text then
    if Variable.leads 's' name then Variable.markRule? text else some .staticLead
  else if Variable.leads 'g' name then Variable.markRule? text
  else some .globalLead

def globalVariable : Form := fun s i => do
  let some (name, text, m) := variableAt? s i | return none
  let line ← currentLine
  let told := fun rule => (⟨line, rule, some text, none⟩ : Report)
  let reports ← match globalNameRule? name text with
    | some rule => pure [told rule]
    | none => do
      let pointer ← (Variable.rawPointerRule? text : Lint _)
      let array := (Variable.rawArray? s i).map fun a => (⟨line, .rawArray, some a, none⟩ : Report)
      pure (pointer.toList.map told ++ array.toList ++
        (Variable.containerRule? text).toList.map told)
  return some ⟨⟨m.start, s.find ';' m.stop⟩, reports⟩

def memberTypeReport? (s : Text) (i : Int) (text : Text) (line : Int) : Scan (Option Report) := do
  let told := fun rule => (⟨line, rule, some text, none⟩ : Report)
  if let some rule := Variable.markRule? text then return some (told rule)
  if let some rule ← Variable.rawPointerRule? text then return some (told rule)
  if let some array := Variable.rawArray? s i then return some ⟨line, .rawArray, some array, none⟩
  return (Variable.containerRule? text).map told

def memberVariable : Form := fun s i => do
  let some (name, text, m) := variableAt? s i | return none
  let line ← currentLine
  let told := fun rule => (⟨line, rule, some text, none⟩ : Report)
  let reports ←
    if name.length < 3 then pure [told .shortName]
    else do
      let own := if Variable.leads 'm' name then [] else [told .memberLead]
      let other ← (memberTypeReport? s i text line : Lint _)
      pure (own ++ other.toList)
  return some ⟨⟨m.start, s.find ';' m.stop⟩, reports⟩

end CodeAudit.Declaration
