import CodeAudit.Audit
import CodeAudit.Pattern.Match

namespace CodeAudit.Stylesheet

def closingMark? (mark : Text) : Option Text :=
  if mark == "/*".toList then some "\\*/".toList
  else if mark == ['{'] then some ['}']
  else none

def skipRound (s mark : Text) (i : Int) : Scan (Round Int Int) := do
  let pos ← s.nextInk i
  let start := s.findText mark pos
  if start == -1 || pos < start then return .done pos
  let some closing := closingMark? mark | throw .noClosingMark
  let stop := s.findText closing start
  if stop == -1 then return .done (-1)
  return .again (stop + closing.length)

def skipRegions (s mark : Text) (i : Int) : Scan Int :=
  rounds (skipRound s mark) (s.length + 3) i

def skip (s : Text) (mark : Option Text) (i : Int) : Scan Int :=
  match mark with
  | some mark => skipRegions s mark i
  | none => .ok i

structure State where
  pos : Int
  reports : List Report := []

def round (name : Pattern) (s : Text) (x : State) : Scan (Round State (List Report)) := do
  let pos ← s.nextInk x.pos
  if pos == -1 then return .done x.reports
  let pos ← skipRegions s "/*".toList pos
  if pos == -1 then return .done x.reports
  let own :=
    if (name.matchAt s pos).isSome then []
    else [⟨s.lineOf pos, .foreignSelector, some (s.slice pos (s.lineEnd pos)), none⟩]
  let reports := x.reports ++ own
  let stop ← skipRegions s ['{'] (s.find '{' pos)
  if stop == -1 || s.length ≤ stop then return .done reports
  return .again ⟨stop, reports⟩

def stem (file : Text) : Text :=
  file.slice 0 (file.length - 4)

def check (s file : Text) : Scan (List Report) :=
  match Pattern.read (stem file) with
  | .error e => .error (.badPattern (stem file) e)
  | .ok name => rounds (round name s) (s.length + 3) ⟨0, []⟩

def readText (content : Except ReadFailure ByteArray) : Scan Text :=
  match content with
  | .error e => .error (.unreadable e)
  | .ok bytes =>
    match Content.text? bytes with
    | none => .error (.unreadable .notUtf8)
    | some s => .ok s

def checkFile (home path : Text) (content : Except ReadFailure ByteArray) :
    Audit (Option (List Report)) := do
  match (do check (← readText content) (Path.base path) : Scan _) with
  | .ok reports => return some (Audit.located home path reports)
  | .error (.unreadable .notUtf8) =>
    Audit.log .error (path ++ "编码错误，请查看是否GB2312编码".toList)
    return none
  | .error e => throw e

def checkFolder (home : Text) : List Visit → Audit (List Report)
  | [] => return []
  | v :: vs => do
    let reports ←
      if ".qss".toList.isSuffixOf v.name then checkFile home v.path v.content else pure none
    return reports.getD [] ++ (← checkFolder home vs)

end CodeAudit.Stylesheet
