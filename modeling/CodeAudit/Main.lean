import CodeAudit.Command
import CodeAudit.HeapWatch

namespace CodeAudit.CommandLine

def readFile (path : Text) : IO (Except ReadFailure ByteArray) := do
  let place := (← IO.currentDir) / String.ofList path
  if path.isEmpty then return .error .missing
  if ← place.isDir then return .error .isFolder
  try return .ok (← IO.FS.readBinFile place)
  catch _ => return .error .missing

partial def readFolder (path : Text) : IO Folder := do
  let place := (← IO.currentDir) / String.ofList path
  let mut d := Folder.empty
  unless ← place.isDir do return d
  for entry in ← place.readDir do
    let name := entry.fileName.toList
    let inner := Path.inFolder path name
    if ← entry.path.isDir then
      let sub ← readFolder inner
      d := d.changeSub name fun _ => sub
    else if let .ok content ← readFile inner then
      d := d.putFile name content
  return d

def load : Command.Request → IO Command.Loaded
  | .file path => return .file path (← readFile path)
  | .folder path => do
    if path.isEmpty then return .folder []
    return .folder ((← readFolder path).visits path)

def finish (x : Command.Outcome) : IO UInt32 := do
  IO.print (String.ofList x.out)
  for entry in x.log do
    let level := match entry.level with
      | .info => "INFO "
      | .error => "ERROR "
    IO.eprintln (level ++ String.ofList entry.text)
  match x.fault with
  | none => return 0
  | some fault =>
    IO.eprintln fault.message
    return 1

def check (tool : Command.Tool) (args : List String) : IO UInt32 := do
  let args := args.map String.toList
  let home := (← IO.currentDir).toString.toList
  let loaded ← match Command.requests tool args with
    | .error e => pure (.error e)
    | .ok requests => do pure (.ok (← requests.mapM load))
  finish (Command.outcome tool home args loaded)

def printEvent : HeapWatch.Event → IO Unit
  | .print text => IO.print text
  | _ => return

def watch (outputs : List String) : IO UInt32 := do
  (HeapWatch.events outputs).forM printEvent
  return 0

end CodeAudit.CommandLine

open CodeAudit CommandLine in
def main (args : List String) : IO UInt32 := do
  match args with
  | "source" :: rest => check .source rest
  | "stylesheet" :: rest => check .stylesheet rest
  | "leaks" :: _ => finish (Command.leakOutcome (← readFile Command.leakReportPath))
  | "heap" :: rest => watch rest
  | _ =>
    IO.eprintln "expected one of: source, stylesheet, leaks, heap"
    return 2
