import CodeAudit.Class

namespace CodeAudit.SourceText

def forms : List Form := [
  Declaration.define,
  Declaration.enum,
  Declaration.includeFile,
  Declaration.typedef,
  Class.form,
  Declaration.memberBody,
  .ofSpan Statement.conditional,
  .ofSpan (Statement.whole Shape.enumBlock),
  .ofSpan Statement.usingNamespace,
  .ofScan Statement.struct,
  .ofSpan Statement.staticMember,
  Declaration.function,
  Declaration.globalVariable]

structure State where
  old : Int
  pos : Int
  reports : List Report := []

def round (s : Text) (x : State) : Lint (Round State (List Report)) := do
  let pos ← (s.nextInk x.pos : Lint _)
  if pos == -1 then return .done x.reports
  unless x.old < pos do throw .malformed
  setLine (s.lineOf pos)
  match ← Form.first forms s pos with
  | some found => return .again ⟨pos, found.stop + 1, x.reports ++ found.reports⟩
  | none =>
    let stop := s.lineEnd pos
    if s.length ≤ stop then return .done x.reports
    return .again ⟨pos, stop, x.reports⟩

/-- Reports on the text from position `i` on. Each round starts after the one before it, so no more
rounds are needed than there are positions. -/
def check (s : Text) (i : Int) : Lint (List Report) :=
  rounds (round s) (2 * s.length + 3) ⟨i - 1, i, []⟩

end CodeAudit.SourceText
