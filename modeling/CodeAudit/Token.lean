import CodeAudit.Failure

namespace CodeAudit

structure Token where
  start : Nat
  text : Text
  deriving DecidableEq, Repr

namespace Token

def stop (t : Token) : Nat :=
  t.start + t.text.length

def isMark (c : Char) : Bool :=
  ['}', '{', ';', '(', ')', ',', '*', '<', '>', '[', ']', '='].contains c

def lead : Text → Text
  | [] => []
  | c :: rest =>
    if Text.isWord c then (c :: rest).takeWhile Text.isWord
    else if isMark c then [c]
    else if [':', ':'].isPrefixOf (c :: rest) then [':', ':']
    else []

def first? : (pos : Nat) → Text → Option Token
  | _, [] => none
  | pos, c :: rest =>
    if (lead (c :: rest)).isEmpty then first? (pos + 1) rest else some ⟨pos, lead (c :: rest)⟩

def next? (s : Text) (i : Int) : Option Token :=
  let (a, rest) := s.seek i
  first? a rest

def next (s : Text) (i : Int) : Scan Token :=
  match next? s i with
  | some t => .ok t
  | none => .error .noToken

def allFrom : (pos skip : Nat) → Text → List Token
  | _, _, [] => []
  | pos, skip + 1, _ :: rest => allFrom (pos + 1) skip rest
  | pos, 0, c :: rest =>
    let t := lead (c :: rest)
    if t.isEmpty then allFrom (pos + 1) 0 rest
    else ⟨pos, t⟩ :: allFrom (pos + 1) (t.length - 1) rest

def all (s : Text) : List Token :=
  allFrom 0 0 s

def is (t : Token) (text : String) : Bool :=
  t.text == text.toList

end Token

structure TokenReader where
  text : Text
  pos : Int
  current : Option Token := none

namespace TokenReader

def next (r : TokenReader) : Scan TokenReader := do
  let t ← Token.next r.text r.pos
  return { r with pos := t.stop, current := some t }

def currentEnd (r : TokenReader) : Nat :=
  match r.current with
  | some t => t.stop
  | none => 0

end TokenReader

end CodeAudit
