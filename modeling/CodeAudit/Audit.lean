import CodeAudit.Cleaning
import CodeAudit.Files.Content
import CodeAudit.Files.Folder
import CodeAudit.SourceText

namespace CodeAudit

inductive LogLevel where
  | info
  | error
  deriving DecidableEq, Repr

structure LogEntry where
  level : LogLevel
  text : Text
  deriving DecidableEq, Repr

structure Session where
  context : Context := {}
  log : List LogEntry := []
  deriving DecidableEq, Repr

abbrev Audit := ExceptT Failure (StateM Session)

namespace Audit

def log (level : LogLevel) (text : Text) : Audit Unit :=
  modify fun t => { t with log := t.log ++ [⟨level, text⟩] }

def lint {α : Type} (x : Lint α) : Audit α := fun t =>
  let (r, c) := x t.context
  (r, { t with context := c })

def setContext (f : Context → Context) : Audit Unit :=
  modify fun t => { t with context := f t.context }

def sourceText (content : Except ReadFailure ByteArray) : Scan Text :=
  match content with
  | .error e => .error (.unreadable e)
  | .ok bytes =>
    match Content.text? bytes with
    | none => .error (.unreadable .notUtf8)
    | some s => Cleaning.clean s

def located (home path : Text) (reports : List Report) : List Report :=
  reports.map fun r => { r with path := some (Path.resolve home path) }

def checkFile (home path : Text) (content : Except ReadFailure ByteArray) :
    Audit (Option (List Report)) := do
  setContext fun c => { c with file := some (Path.base path), line := 1 }
  let result ← attempt (lint (do SourceText.check (← (sourceText content : Lint _)) 0))
  let reports ← match result with
    | .ok reports => pure (some (located home path reports))
    | .error (.unreadable .notUtf8) => do
      log .error "源文件编码错误，请查看是否GB2312编码".toList
      pure none
    | .error e => do
      setContext fun c => { c with ownIncludes := false }
      throw e
  setContext fun c => { c with ownIncludes := false }
  return reports
where
  attempt {α : Type} (x : Audit α) : Audit (Except Failure α) := fun t =>
    let (r, t) := x t
    (.ok r, t)

def isSource (name : Text) : Bool :=
  ".h".toList.isSuffixOf name || ".cpp".toList.isSuffixOf name

def checkVisit (home : Text) (v : Visit) : Audit (List Report) := do
  log .info ("解析文件".toList ++ v.name)
  match ← checkFile.attempt (checkFile home v.path v.content) with
  | .ok reports => return reports.getD []
  | .error .malformed =>
    log .error ("解析".toList ++ v.name ++ "文件有断言".toList)
    return []
  | .error e => throw e

def checkFolder (home : Text) : List Visit → Audit (List Report)
  | [] => return []
  | v :: vs => do
    let reports ← if isSource v.name then checkVisit home v else pure []
    return reports ++ (← checkFolder home vs)

end Audit

end CodeAudit
