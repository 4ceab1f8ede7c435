import CodeAudit.Failure
import CodeAudit.Shape

/-!
Cleaning: what is removed from a text before it is checked. The first match of a pattern is taken
out and the text is searched again from its beginning until there is no match.
-/

namespace CodeAudit.Cleaning

def splice (s : Text) (start stop : Nat) (part : Text) : Text :=
  s.take start ++ part ++ s.drop stop

def lineCommentRound (s : Text) : Round Text Text :=
  match Shape.lineComment.search s 0 with
  | none => .done s
  | some m => .again (splice s m.start m.stop [])

def removeLineComments (s : Text) : Scan Text :=
  rounds (fun t => .ok (lineCommentRound t)) (s.length + 1) s

/-- Of a block comment the line breaks are left, so that lines keep their numbers. -/
def blockCommentRound (s : Text) : Round Text Text :=
  match Shape.blockComment.search s 0 with
  | none => .done s
  | some m =>
    .again (splice s m.start m.stop (List.replicate ((m.text s).count '\n') '\n'))

def removeBlockComments (s : Text) : Scan Text :=
  rounds (fun t => .ok (blockCommentRound t)) (s.length + 1) s

def removeComments (s : Text) : Scan Text := do
  removeBlockComments (← removeLineComments s)

def keyRound (p : Pattern) (key : String) (s : Text) : Scan (Round Text Text) :=
  match p.search s 0 with
  | none => .ok (.done s)
  | some m =>
    match m.group? key with
    | some (a, b) => .ok (.again (splice s a b []))
    | none => if p.groupNames.contains key then .ok (.again s) else .error .noGroup

def removeKeyBy (p : Pattern) (key : String) (s : Text) : Scan Text :=
  rounds (keyRound p key) (s.length + 2) s

def removeKey (s key : Text) : Scan Text :=
  let written := "\\s*(".toList ++ key ++ ")\\s+".toList
  match Pattern.read written with
  | .ok p => removeKeyBy p "1" s
  | .error e => .error (.badPattern written e)

def removeKeywords (s : Text) : Scan Text :=
  removeKey s "unsigned".toList

def clean (s : Text) : Scan Text := do
  removeKeywords (← removeComments s)

end CodeAudit.Cleaning
