import CodeAudit.Text.Basic

namespace CodeAudit.HeapWatch

inductive Event where
  | run (command : String)
  | print (text : String)
  | ask (command : String)
  | pause (seconds : Nat)
  deriving DecidableEq, Repr

def watched : String := "citProcessor.exe"
def pauseSeconds : Nat := 3600
def logFolder : String := "./memory/"

def enable : String := "gflags.exe /i " ++ watched ++ " +ust"

def snapshot (number : Nat) : String :=
  "umdh.exe -pn:" ++ watched ++ " -f:" ++ logFolder ++ "memory_log_" ++ toString number

def eventsFrom (number : Nat) : List String → List Event
  | [] => [.print (snapshot number ++ "\n"), .ask (snapshot number)]
  | output :: rest =>
    [.print (snapshot number ++ "\n"), .ask (snapshot number), .print (output ++ "\n"),
      .pause pauseSeconds] ++ eventsFrom (number + 1) rest

def events (outputs : List String) : List Event :=
  .run enable :: eventsFrom 0 outputs

end CodeAudit.HeapWatch
