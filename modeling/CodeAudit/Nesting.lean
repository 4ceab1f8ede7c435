import CodeAudit.Statement

/-!
The length of control statements. A statement is as long as it has lines after its head, where a
statement nested in it counts for one line; its own length is reported apart.
-/

namespace CodeAudit.Nesting

def maxLines : Nat := 10

def measured : List (String × (Text → Int → Scan (Option Span))) :=
  [("if", Statement.ifStatement), ("for", Statement.forStatement),
    ("while", Statement.whileStatement), ("switch", Statement.switchStatement)]

def first? (s : Text) (i : Int) :
    List (String × (Text → Int → Scan (Option Span))) → Scan (Option (String × Span))
  | [] => return none
  | (keyword, form) :: rest => do
    match ← form s i with
    | some span => return some (keyword, span)
    | none => first? s i rest

structure Count where
  pos : Int
  lines : Nat := 0
  reports : List Report := []

def round (inner : String → Span → Scan (Nat × List Report)) (s : Text) (stop : Int) (c : Count) :
    Scan (Round Count Count) := do
  unless c.pos < stop do return .done c
  match ← first? s c.pos measured with
  | some (keyword, span) =>
    let (_, reports) ← inner keyword span
    return .again ⟨s.lineEnd span.stop + 1, c.lines + 1, c.reports ++ reports⟩
  | none => return .again ⟨s.lineEnd c.pos + 1, c.lines + 1, c.reports⟩

def measure (s : Text) : (depth : Nat) → (keyword : String) → Span → Scan (Nat × List Report)
  | 0, _, _ => throw .nestedInItself
  | depth + 1, keyword, span => do
    let headEnd ← Bracket.paren.partner s (s.find '(' span.start)
    let c ← rounds (round (measure s depth) s span.stop) (s.length + 2)
      ⟨s.lineEnd headEnd + 1, 0, []⟩
    if c.lines > maxLines then
      let head := (s.slice span.start (s.find ')' span.start + 1)).trim
      let report := ⟨s.lineOf span.start, .longStatement keyword, some head, none⟩
      return (c.lines, c.reports ++ [report])
    else return (c.lines, c.reports)

/-- Statements inside of each other begin at places of their own. One that is deeper than there are
places is nested in itself. -/
def check (s : Text) (keyword : String) (span : Span) : Scan (Nat × List Report) :=
  measure s (s.length + 2) keyword span

end CodeAudit.Nesting
