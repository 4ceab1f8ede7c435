import CodeAudit.Files.Path
import CodeAudit.Lint
import CodeAudit.Shape
import CodeAudit.Text.Case
import CodeAudit.Text.Letter

namespace CodeAudit.Declaration

def inCapitals (name : Text) : Bool :=
  (name.takeWhile (· != '(')).all fun c => !Text.isLetter c || Text.isUpper c

def macroRule? (name : Text) : Option Rule :=
  if name.take 4 != "CIT_".toList then some .macroLead
  else if !inCapitals name then some .macroCapitals
  else none

def macroEndRound (s : Text) (i : Int) : Scan (Round Int Int) := do
  let stop : Int := s.lineEnd i
  if (← s.charAt (stop - 1)) == '\\' then return .again (stop + 1) else return .done stop

def macroEnd (s : Text) (i : Int) : Scan Int :=
  rounds (macroEndRound s) (s.length + 2) i

def define : Form := fun s i => do
  let some m := Shape.define.matchAt s i | return none
  let nameStart ← (s.nextInk m.stop : Lint _)
  if nameStart == -1 then throw .malformed
  let some n := Shape.macroName.matchAt s nameStart | throw .malformed
  let name := n.text s
  let line ← currentLine
  let reports := (macroRule? name).toList.map fun rule => ⟨line, rule, some name, none⟩
  return some ⟨⟨m.start, ← (macroEnd s m.stop : Lint _)⟩, reports⟩

def sameUnit (file included : Text) : Bool :=
  Text.lower (Path.stem file) == Text.lower (Path.stem included)

/-- System includes come first; an include of the unit's own header does not end them. -/
def includeFile : Form := fun s i => do
  if let some m := Shape.systemInclude.matchAt s i then
    let c ← get
    let reports := if c.ownIncludes then [⟨c.line, .includeOrder, some (m.text s), none⟩] else []
    return some ⟨⟨m.start, m.stop - 1⟩, reports⟩
  let some m := Shape.ownInclude.matchAt s i | return none
  let some included := m.groupText? s "include" | throw .namelessInclude
  let some file := (← get).file | throw .namelessFile
  unless sameUnit file included do modify fun c => { c with ownIncludes := true }
  return some ⟨⟨m.start, m.stop - 1⟩, []⟩

end CodeAudit.Declaration
