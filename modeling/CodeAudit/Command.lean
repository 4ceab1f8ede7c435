import CodeAudit.Leak.Profile
import CodeAudit.Stylesheet
import CodeAudit.Text.Quoted

namespace CodeAudit.Command

inductive UsageError where
  | unknown (option : Char)
  | unknownLong (option : Text)
  | needsArgument (option : Char)
  deriving DecidableEq, Repr

namespace UsageError

def message : UsageError → String
  | unknown option => "option -" ++ String.singleton option ++ " not recognized"
  | unknownLong option => "option --" ++ String.ofList option ++ " not recognized"
  | needsArgument option => "option -" ++ String.singleton option ++ " requires argument"

end UsageError

structure Setting where
  option : Char
  argument : Text
  deriving DecidableEq, Repr

def shortSettings : Text → List Text → Except UsageError (List Setting × List Text)
  | [], more => .ok ([], more)
  | c :: rest, more =>
    if c = 'h' then do
      let (settings, more) ← shortSettings rest more
      return (⟨c, []⟩ :: settings, more)
    else if c = 'f' ∨ c = 'd' then
      match rest, more with
      | [], [] => .error (.needsArgument c)
      | [], a :: more => .ok ([⟨c, a⟩], more)
      | _ :: _, _ => .ok ([⟨c, rest⟩], more)
    else .error (.unknown c)

/-- The options before the first argument that is none. There are no long options. -/
def settingsIn : (fuel : Nat) → List Text → Except UsageError (List Setting)
  | 0, _ => .ok []
  | _, [] => .ok []
  | fuel + 1, a :: more =>
    match a with
    | ['-', '-'] => .ok []
    | '-' :: '-' :: name => .error (.unknownLong (name.takeWhile (· != '=')))
    | '-' :: c :: rest => do
      let (settings, more) ← shortSettings (c :: rest) more
      return settings ++ (← settingsIn fuel more)
    | _ => .ok []

def settings (args : List Text) : Except UsageError (List Setting) :=
  settingsIn args.length args

inductive Tool where
  | source
  | stylesheet
  deriving DecidableEq, Repr

inductive Request where
  | file (path : Text)
  | folder (path : Text)
  deriving DecidableEq, Repr

/-- The two tools name files and folders by opposite options. -/
def Setting.request? (tool : Tool) (x : Setting) : Option Request :=
  match tool, x.option with
  | .source, 'f' | .stylesheet, 'd' => some (.file x.argument)
  | .source, 'd' | .stylesheet, 'f' => some (.folder x.argument)
  | _, _ => none

def requests (tool : Tool) (args : List Text) : Except UsageError (List Request) := do
  return (← settings args).filterMap (·.request? tool)

inductive Loaded where
  | file (path : Text) (content : Except ReadFailure ByteArray)
  | folder (visits : List Visit)

def load (d : Folder) : Request → Loaded
  | .file path => .file path (d.read path)
  | .folder path => .folder (d.walk path)

def check (tool : Tool) (home : Text) (x : Loaded) : Audit (Option (List Report)) :=
  match tool, x with
  | .source, .file path content => Audit.checkFile home path content
  | .source, .folder visits => do return some (← Audit.checkFolder home visits)
  | .stylesheet, .file path content => Stylesheet.checkFile home path content
  | .stylesheet, .folder visits => do return some (← Stylesheet.checkFolder home visits)

def checkAll (tool : Tool) (home : Text) (last : Option (List Report)) :
    List Loaded → Audit (List Report)
  | [] => match last with
    | some reports => return reports
    | none => throw .noResult
  | x :: xs => do checkAll tool home (← check tool home x) xs

inductive Fault where
  | usage (e : UsageError)
  | failure (e : Failure)
  deriving DecidableEq, Repr

def Fault.message : Fault → String
  | usage e => e.message
  | failure e => e.message

structure Outcome where
  out : Text
  log : List LogEntry := []
  fault : Option Fault := none

def heading (tool : Tool) (args : List Text) : Text :=
  match tool with
  | .source => []
  | .stylesheet => Text.quotedList args ++ ['\n']

def summary (reports : List Report) : Text :=
  reports.flatMap (fun r => r.render.toList ++ ['\n']) ++
    "总共发现:".toList ++ (toString reports.length).toList ++ ['\n']

def outcome (tool : Tool) (home : Text) (args : List Text)
    (loaded : Except UsageError (List Loaded)) : Outcome :=
  match loaded with
  | .error e => { out := heading tool args, fault := some (.usage e) }
  | .ok loaded =>
    let (result, session) := checkAll tool home none loaded {}
    match result with
    | .error e =>
      { out := heading tool args, log := session.log, fault := some (.failure e) }
    | .ok reports => { out := heading tool args ++ summary reports, log := session.log }

def run (d : Folder) (tool : Tool) (home : Text) (args : List Text) : Outcome :=
  outcome tool home args ((requests tool args).map (·.map (load d)))

def leakReportPath : Text := "./memory_leak_report.txt".toList

def leakOutcome (content : Except ReadFailure ByteArray) : Outcome :=
  let p := Leak.profile [] content Leak.defaultMost
  { out := p.out, fault := p.failure.map .failure }

end CodeAudit.Command
