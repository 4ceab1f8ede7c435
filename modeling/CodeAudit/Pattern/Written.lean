import CodeAudit.Pattern.Basic
import CodeAudit.Text.Quoted

/-!
Patterns that a user writes: alternatives, repetitions, sets, groups, references, conditions on the
neighbourhood, and flags. `Pattern.read` turns the written form into a `Pattern` whose groups are
named by their numbers, or says what is wrong with it and where.
-/

namespace CodeAudit

inductive PatternFault where
  | escapeAtEnd
  | badEscape (written : String)
  | incompleteEscape (written : String)
  | octalTooLarge (written : String)
  | missingBrace
  | missingName (kind : String)
  | unterminatedName (closing : String)
  | unknownCharacterName (name : String)
  | badGroupName (name : String)
  | unknownGroupName (name : String)
  | repeatedGroupName (name : String) (number earlier : Nat)
  | badGroupNumber
  | invalidReference (number : Nat)
  | openGroupReference
  | lookBehindReference
  | unterminatedSet
  | badRange (first last : String)
  | repeatOrder
  | repeatTooLarge
  | nothingToRepeat
  | multipleRepeat
  | unexpectedEnd
  | unknownExtension (written : String)
  | unterminatedComment
  | unterminatedGroup
  | tooManyBranches
  | unbalanced
  | flagsNotAtStart
  | localeFlag
  | incompatibleFlags
  | flagOnAndOff
  | flagCannotTurnOff
  | globalFlagOn
  | globalFlagOff
  | unknownFlag
  | missingFlag
  | missingFlagEnd
  | missingColon
  | lookBehindWidth
  deriving DecidableEq, Repr

namespace PatternFault

def reason : PatternFault → String
  | escapeAtEnd => "bad escape (end of pattern)"
  | badEscape written => "bad escape " ++ written
  | incompleteEscape written => "incomplete escape " ++ written
  | octalTooLarge written => "octal escape value " ++ written ++ " outside of range 0-0o377"
  | missingBrace => "missing \x7b"
  | missingName kind => "missing " ++ kind
  | unterminatedName closing => "missing " ++ closing ++ ", unterminated name"
  | unknownCharacterName name => "undefined character name " ++ name
  | badGroupName name => "bad character in group name " ++ name
  | unknownGroupName name => "unknown group name " ++ name
  | repeatedGroupName name number earlier =>
    s!"redefinition of group name {name} as group {number}; was group {earlier}"
  | badGroupNumber => "bad group number"
  | invalidReference number => s!"invalid group reference {number}"
  | openGroupReference => "cannot refer to an open group"
  | lookBehindReference => "cannot refer to group defined in the same lookbehind subpattern"
  | unterminatedSet => "unterminated character set"
  | badRange first last => "bad character range " ++ first ++ "-" ++ last
  | repeatOrder => "min repeat greater than max repeat"
  | repeatTooLarge => "the repetition number is too large"
  | nothingToRepeat => "nothing to repeat"
  | multipleRepeat => "multiple repeat"
  | unexpectedEnd => "unexpected end of pattern"
  | unknownExtension written => "unknown extension " ++ written
  | unterminatedComment => "missing ), unterminated comment"
  | unterminatedGroup => "missing ), unterminated subpattern"
  | tooManyBranches => "conditional backref with more than two branches"
  | unbalanced => "unbalanced parenthesis"
  | flagsNotAtStart => "global flags not at the start of the expression"
  | localeFlag => "bad inline flags: cannot use 'L' flag with a str pattern"
  | incompatibleFlags => "bad inline flags: flags 'a', 'u' and 'L' are incompatible"
  | flagOnAndOff => "bad inline flags: flag turned on and off"
  | flagCannotTurnOff => "bad inline flags: cannot turn off flags 'a', 'u' and 'L'"
  | globalFlagOn => "bad inline flags: cannot turn on global flag"
  | globalFlagOff => "bad inline flags: cannot turn off global flag"
  | unknownFlag => "unknown flag"
  | missingFlag => "missing flag"
  | missingFlagEnd => "missing -, : or )"
  | missingColon => "missing :"
  | lookBehindWidth => "look-behind requires fixed-width pattern"

end PatternFault

structure PatternError where
  fault : PatternFault
  position : Option Nat
  deriving DecidableEq, Repr

namespace PatternError

def message (e : PatternError) (pattern : Text) : String :=
  match e.position with
  | none => e.fault.reason
  | some pos =>
    let before := pattern.take pos
    let told := s!"{e.fault.reason} at position {pos}"
    if pattern.contains '\n' then
      let line := before.count '\n' + 1
      let column := (before.reverse.takeWhile (· != '\n')).length + 1
      s!"{told} (line {line}, column {column})"
    else told

end PatternError

namespace Pattern

def widths (groups : List (String × Nat × Option Nat)) : Pattern → Nat × Option Nat
  | lit cs => (cs.length, some cs.length)
  | one _ => (1, some 1)
  | run _ least most _ => (least, most)
  | cat p q =>
    let (a, b) := p.widths groups
    let (c, d) := q.widths groups
    (a + c, b.bind fun x => d.map (x + ·))
  | alt p q | ifGroup _ p q =>
    let (a, b) := p.widths groups
    let (c, d) := q.widths groups
    (min a c, b.bind fun x => d.map (max x ·))
  | rep p least most _ =>
    let (a, b) := p.widths groups
    (a * least, if b = some 0 then some 0 else b.bind fun x => most.map (x * ·))
  | group _ p | atomic p => p.widths groups
  | again name _ => (groups.lookup name).getD (0, some 0)
  | edge _ | look _ _ _ => (0, some 0)

namespace Written

structure Flags where
  caseless : Bool := false
  lines : Bool := false
  dotAll : Bool := false
  verbose : Bool := false
  ascii : Bool := false

/-- What is still to be read, in units of one character or of a backslash and a character, and what
is known of the groups so far. -/
structure Reader where
  ahead : List (List Char)
  pos : Nat := 0
  opened : Nat := 0
  closed : List (String × Nat × Option Nat) := []
  names : List (String × Nat) := []
  behind : Option Nat := none
  conditions : List (Nat × Nat) := []
  flags : Flags := {}
  unfixed : Bool := false

abbrev ReadM := StateT Reader (Except PatternError)

def units : List Char → List (List Char)
  | '\\' :: c :: rest => ['\\', c] :: units rest
  | c :: rest => [c] :: units rest
  | [] => []

def failAt {α : Type} (fault : PatternFault) (pos : Nat) : ReadM α := fun _ =>
  .error ⟨fault, some pos⟩

def failBack {α : Type} (fault : PatternFault) (back : Nat) : ReadM α := fun r =>
  .error ⟨fault, some (r.pos - back)⟩

def fail {α : Type} (fault : PatternFault) : ReadM α :=
  failBack fault 0

def look : ReadM Unit := do
  if (← get).ahead.head? == some ['\\'] then fail .escapeAtEnd

def peek : ReadM (Option (List Char)) := return (← get).ahead.head?

def take : ReadM (Option (List Char)) := do
  match (← get).ahead with
  | [] => return none
  | u :: rest =>
    modify fun r => { r with ahead := rest, pos := r.pos + u.length }
    look
    return some u

def accept (c : Char) : ReadM Bool := do
  if (← peek) == some [c] then
    let _ ← take
    return true
  else return false

def takeUpTo (set : Char → Bool) : Nat → ReadM (List Char)
  | 0 => return []
  | n + 1 => do
    match ← peek with
    | some [c] =>
      if set c then
        let _ ← take
        return c :: (← takeUpTo set n)
      else return []
    | _ => return []

def takeName (closing : Char) (kind : String) : (fuel : Nat) → List Char → ReadM (List Char)
  | 0, told => return told
  | fuel + 1, told => do
    match ← take with
    | none =>
      if told.isEmpty then fail (.missingName kind)
      else failBack (.unterminatedName (String.singleton closing)) told.length
    | some u =>
      if u == [closing] then
        if told.isEmpty then failBack (.missingName kind) 1 else return told
      else takeName closing kind fuel (told ++ u)

def isOctal (c : Char) : Bool := '0' ≤ c && c ≤ '7'
def isHex (c : Char) : Bool := c.isDigit || ('a' ≤ c && c ≤ 'f') || ('A' ≤ c && c ≤ 'F')

def digitOf (c : Char) : Nat :=
  if c.isDigit then c.toNat - 48 else c.toLower.toNat - 87

def numeral (base : Nat) (cs : List Char) : Nat :=
  cs.foldl (fun n c => n * base + digitOf c) 0

inductive Piece where
  | code (n : Nat)
  | cls (c : CharClass)
  | part (p : Pattern) (isEdge : Bool)

def wordClass (f : Flags) : CharClass :=
  if f.ascii then
    .either (.range 48 57) (.either (.range 65 90) (.either (.range 97 122) (.among ['_'])))
  else .word

def namedClass? (f : Flags) : Char → Option CharClass
  | 'd' => some decimals
  | 'D' => some (.other decimals)
  | 's' => some blanks
  | 'S' => some (.other blanks)
  | 'w' => some (wordClass f)
  | 'W' => some (.other (wordClass f))
  | _ => none
where
  decimals := if f.ascii then CharClass.range 48 57 else .decimal
  blanks := if f.ascii then CharClass.either (.range 9 13) (.among [' ']) else .blank

def controlCode? : Char → Option Nat
  | 'a' => some 7
  | 'b' => some 8
  | 'f' => some 12
  | 'n' => some 10
  | 'r' => some 13
  | 't' => some 9
  | 'v' => some 11
  | '\\' => some 92
  | _ => none

def hexCode (c : Char) (count : Nat) : ReadM Piece := do
  let digits ← takeUpTo isHex count
  let written := '\\' :: c :: digits
  if digits.length ≠ count then failBack (.incompleteEscape (String.ofList written)) written.length
  let n := numeral 16 digits
  if n ≥ 0x110000 then failBack (.badEscape (String.ofList written)) written.length
  return .code n

def namedCode : ReadM Piece := do
  unless ← accept '{' do fail .missingBrace
  let name ← takeName '}' "character name" ((← get).ahead.length + 1) []
  failBack (.unknownCharacterName (String.ofList (Text.quoted name))) (name.length + 4)

def plainEscape (c : Char) : ReadM Piece := do
  match c with
  | 'x' => hexCode c 2
  | 'u' => hexCode c 4
  | 'U' => hexCode c 8
  | 'N' => namedCode
  | _ =>
    if c.isAlpha || c.isDigit then failBack (.badEscape (String.ofList ['\\', c])) 2
    return .code c.toNat

def setEscape (f : Flags) (c : Char) : ReadM Piece := do
  match controlCode? c, namedClass? f c with
  | some n, _ => return .code n
  | none, some k => return .cls k
  | none, none =>
    if isOctal c then
      let digits := c :: (← takeUpTo isOctal 2)
      let n := numeral 8 digits
      if n > 0o377 then
        failBack (.octalTooLarge (String.ofList ('\\' :: digits))) (digits.length + 1)
      return .code n
    else plainEscape c

def checkReference (number back : Nat) : ReadM Unit := do
  let r ← get
  if (r.closed.lookup (toString number)).isNone then failBack .openGroupReference back
  if let some before := r.behind then
    if number > before then fail .lookBehindReference

def checkCondition (number : Nat) : ReadM Unit := do
  let r ← get
  if let some before := r.behind then
    if (r.closed.lookup (toString number)).isNone then fail .openGroupReference
    if number > before then fail .lookBehindReference

def numberEscape (f : Flags) (c : Char) : ReadM Piece := do
  let more ← takeUpTo Char.isDigit 1
  let digits := c :: more
  let third ← if digits.length = 2 && digits.all isOctal then takeUpTo isOctal 1 else pure []
  if !third.isEmpty then
    let digits := digits ++ third
    let n := numeral 8 digits
    if n > 0o377 then
      failBack (.octalTooLarge (String.ofList ('\\' :: digits))) (digits.length + 1)
    return .code n
  let number := numeral 10 digits
  if number ≤ (← get).opened then
    checkReference number (digits.length + 1)
    return .part (.again (toString number) f.caseless) false
  failBack (.invalidReference number) digits.length

def escape (f : Flags) (c : Char) : ReadM Piece := do
  match c with
  | 'A' => return .part (.edge .textStart) true
  | 'Z' => return .part (.edge .textEnd) true
  | 'b' => return .part (.edge (.wordBoundary (wordClass f))) true
  | 'B' => return .part (.edge (.noWordBoundary (wordClass f))) true
  | '0' => return .code (numeral 8 (← takeUpTo isOctal 2))
  | _ =>
    match namedClass? f c, controlCode? c with
    | some k, _ => return .cls k
    | none, some n => return .code n
    | none, none => if c.isDigit then numberEscape f c else plainEscape c

def Piece.toClass : Piece → CharClass
  | code n => .range n n
  | cls c => c
  | part _ _ => .among []

def setPiece (f : Flags) : List Char → ReadM Piece
  | ['\\', c] => setEscape f c
  | c :: _ => return .code c.toNat
  | [] => return .code 0

def setMembers (f : Flags) (here : Nat) :
    (fuel : Nat) → List CharClass → ReadM (List CharClass)
  | 0, members => return members
  | fuel + 1, members => do
    let some u ← take | failSet
    if u == [']'] && !members.isEmpty then return members
    let first ← setPiece f u
    if ← accept '-' then
      let some v ← take | failSet
      if v == [']'] then return .among ['-'] :: first.toClass :: members
      let last ← setPiece f v
      match first, last with
      | .code lo, .code hi =>
        if hi < lo then failRange u v
        setMembers f here fuel (.range lo hi :: members)
      | _, _ => failRange u v
    else setMembers f here fuel (first.toClass :: members)
where
  failSet {α : Type} : ReadM α := failAt .unterminatedSet here
  failRange {α : Type} (u v : List Char) : ReadM α :=
    failBack (.badRange (String.ofList u) (String.ofList v)) (u.length + 1 + v.length)

def folded (f : Flags) (c : CharClass) : CharClass :=
  if f.caseless then .caseless c else c

def setClass (f : Flags) : ReadM CharClass := do
  let here := (← get).pos - 1
  let negated ← accept '^'
  let members ← setMembers f here ((← get).ahead.length + 1) []
  let c := folded f (members.foldl (fun a b => .either b a) (.among []))
  return if negated then .other c else c

structure Item where
  pattern : Pattern
  isEdge : Bool := false
  isRepeated : Bool := false

def Item.ofPiece (f : Flags) : Piece → Item
  | .code n => { pattern := .one (folded f (.range n n)) }
  | .cls c => { pattern := .one (folded f c) }
  | .part p isEdge => { pattern := p, isEdge }

def repeated (p : Pattern) (least : Nat) (most : Option Nat) (greedy : Bool) : Pattern :=
  match p with
  | .one c => .run c least most greedy
  | p => .rep p least most greedy

def bounds (start : Nat) : ReadM (Option (Nat × Option Nat)) := do
  let saved ← get
  if (← peek) == some ['}'] then return none
  let size := saved.ahead.length
  let low ← takeUpTo Char.isDigit size
  let high ← if ← accept ',' then takeUpTo Char.isDigit size else pure low
  unless ← accept '}' do
    modify fun r => { r with ahead := saved.ahead, pos := saved.pos }
    return none
  let least := numeral 10 low
  let most := if high.isEmpty then none else some (numeral 10 high)
  if least ≥ 4294967295 then tooLarge
  if most.any (4294967295 ≤ ·) then tooLarge
  if most.any (· < least) then failAt .repeatOrder start
  return some (least, most)
where
  tooLarge : ReadM Unit := fun _ => .error ⟨.repeatTooLarge, none⟩

def repeatLast (start least : Nat) (most : Option Nat) : List Item → ReadM (List Item)
  | [] => failAt .nothingToRepeat start
  | item :: items => do
    if item.isEdge then failAt .nothingToRepeat start
    if item.isRepeated then failAt .multipleRepeat start
    let few ← accept '?'
    let whole ← if few then pure false else accept '+'
    let p := repeated item.pattern least most (!few)
    return { pattern := if whole then .atomic p else p, isRepeated := true } :: items

def isFlag (c : Char) : Bool := "iLmsxatu".toList.contains c

def isLetterUnit (u : List Char) : Bool := u.length == 1 && u.all Text.isLetter

def flagsOn : (fuel : Nat) → Char → List Char → ReadM (List Char × List Char)
  | 0, _, told => return (told, [])
  | fuel + 1, c, told => do
    if c == 'L' then fail .localeFlag
    let told := c :: told
    if told.contains 'a' && told.contains 'u' then fail .incompatibleFlags
    let some u ← take | fail .missingFlagEnd
    match u with
    | [d] =>
      if d == ')' || d == '-' || d == ':' then return (told, u)
      if isFlag d then flagsOn fuel d told
      else failBack (if isLetterUnit u then .unknownFlag else .missingFlagEnd) 1
    | _ => failBack .missingFlagEnd u.length

def flagsOff : (fuel : Nat) → Char → List Char → ReadM (List Char)
  | 0, _, told => return told
  | fuel + 1, c, told => do
    if c == 'a' || c == 'u' || c == 'L' then fail .flagCannotTurnOff
    let told := c :: told
    let some u ← take | fail .missingColon
    match u with
    | [d] =>
      if d == ':' then return told
      if isFlag d then flagsOff fuel d told
      else failBack (if isLetterUnit u then .unknownFlag else .missingColon) 1
    | _ => failBack .missingColon u.length

def Flags.turn (f : Flags) (value : Bool) (cs : List Char) : Flags :=
  { caseless := if cs.contains 'i' then value else f.caseless
    lines := if cs.contains 'm' then value else f.lines
    dotAll := if cs.contains 's' then value else f.dotAll
    verbose := if cs.contains 'x' then value else f.verbose
    ascii := if cs.contains 'a' then value else if cs.contains 'u' then !value else f.ascii }

def groupFlags (f : Flags) (c : Char) : ReadM (Option Flags) := do
  let size := (← get).ahead.length + 2
  let (on, u) ← if c == '-' then pure ([], ['-']) else flagsOn size c []
  if u == [')'] then
    modify fun r => { r with flags := r.flags.turn true on }
    return none
  if on.contains 't' then failBack .globalFlagOn 1
  let off ←
    if u == ['-'] then
      let some v ← take | fail .missingFlag
      match v with
      | [d] =>
        if isFlag d then flagsOff size d []
        else failBack (if isLetterUnit v then .unknownFlag else .missingFlag) 1
      | _ => failBack .missingFlag v.length
    else pure []
  if off.contains 't' then failBack .globalFlagOff 1
  if on.any off.contains then failBack .flagOnAndOff 1
  return some ((f.turn true on).turn false off)

def isName : List Char → Bool
  | [] => false
  | c :: cs => (Text.isLetter c || c == '_') && cs.all Text.isWord

def checkName (name : List Char) : ReadM Unit := do
  unless isName name do
    failBack (.badGroupName (String.ofList (Text.quoted name))) (name.length + 1)

def groupNumber (name : List Char) : ReadM Nat := do
  match (← get).names.lookup (String.ofList name) with
  | some n => return n
  | none => failBack (.unknownGroupName (String.ofList (Text.quoted name))) (name.length + 1)

def openGroup (name : Option (List Char)) : ReadM Nat := do
  let r ← get
  let number := r.opened + 1
  set { r with opened := number }
  if let some name := name then
    let key := String.ofList name
    if let some earlier := r.names.lookup key then
      let told := String.ofList (Text.quoted name)
      failBack (.repeatedGroupName told number earlier) (name.length + 1)
    modify fun r => { r with names := (key, number) :: r.names }
  return number

def closeParen (start : Nat) : ReadM Unit := do
  unless ← accept ')' do failAt .unterminatedGroup start

def skipComment (start : Nat) : (fuel : Nat) → ReadM Unit
  | 0 => return
  | fuel + 1 => do
    match ← take with
    | none => failAt .unterminatedComment start
    | some u => if u == [')'] then return else skipComment start fuel

def skipLine : (fuel : Nat) → ReadM Unit
  | 0 => return
  | fuel + 1 => do
    match ← take with
    | none => return
    | some u => if u == ['\n'] then return else skipLine fuel

def conditionNumber (name : List Char) : ReadM Nat := do
  if isName name then groupNumber name
  else if name.all Text.isDecimal then
    let number := name.foldl (fun n c => n * 10 + (Text.decimalValue? c).getD 0) 0
    if number = 0 then failBack .badGroupNumber (name.length + 1)
    modify fun r =>
      if (r.conditions.lookup number).isSome then r
      else { r with conditions := r.conditions ++ [(number, r.pos - name.length - 1)] }
    return number
  else failBack (.badGroupName (String.ofList (Text.quoted name))) (name.length + 1)

def sequenceOf (items : List Item) : Pattern :=
  match items.map (·.pattern) with
  | [] => .lit []
  | p :: ps => ps.foldl (fun q p => .cat p q) p

def unitItems (f : Flags) (start : Nat) (u : List Char) (told : List Item) :
    ReadM (List Item) := do
  let size := (← get).ahead.length + 1
  match u with
  | [c] =>
    if f.verbose && (c == ' ' || ('\t' ≤ c && c ≤ '\r')) then return told
    if f.verbose && c == '#' then
      skipLine size
      return told
    match c with
    | '[' => return { pattern := .one (← setClass f) } :: told
    | '?' => repeatLast start 0 (some 1) told
    | '*' => repeatLast start 0 none told
    | '+' => repeatLast start 1 none told
    | '{' =>
      match ← bounds (start + 1) with
      | some (least, most) => repeatLast start least most told
      | none => return Item.ofPiece f (.code c.toNat) :: told
    | '.' => return { pattern := .one (if f.dotAll then CharClass.any else .inLine) } :: told
    | '^' => return edge (if f.lines then .lineStart else .textStart) :: told
    | '$' => return edge (if f.lines then .lineEnd else .lastLineEnd) :: told
    | _ => return Item.ofPiece f (.code c.toNat) :: told
  | ['\\', c] => return Item.ofPiece f (← escape f c) :: told
  | _ => return told
where
  edge (e : Edge) : Item := { pattern := .edge e, isEdge := true }

def namedReference (f : Flags) (size : Nat) : ReadM Item := do
  let name ← takeName ')' "group name" size []
  checkName name
  let number ← groupNumber name
  checkReference number (name.length + 1)
  return { pattern := .again (toString number) f.caseless }

mutual

def alternatives (top : Bool) (f : Flags) (first : Bool) : (fuel : Nat) → ReadM Pattern
  | 0 => return .lit []
  | fuel + 1 => do
    let p ← items (top && first) f fuel []
    unless ← accept '|' do return p
    let r ← get
    return .alt p (← alternatives top (if top then r.flags else f) false fuel)
termination_by structural fuel => fuel

def items (leading : Bool) (f : Flags) : (fuel : Nat) → List Item → ReadM Pattern
  | 0, told => return sequenceOf told
  | fuel + 1, told => do
    let start := (← get).pos
    let some u ← peek | return sequenceOf told
    if u == ['|'] || u == [')'] then return sequenceOf told
    let _ ← take
    if u == ['('] then
      let (told, f) ← parenthesis leading f start fuel told
      items leading f fuel told
    else items leading f fuel (← unitItems f start u told)
termination_by structural fuel => fuel

def parenthesis (leading : Bool) (f : Flags) (start : Nat) :
    (fuel : Nat) → List Item → ReadM (List Item × Flags)
  | 0, told => return (told, f)
  | fuel + 1, told => do
    unless ← accept '?' do return ({ pattern := ← captured none f start fuel } :: told, f)
    let size := (← get).ahead.length + 1
    let some u ← take | fail .unexpectedEnd
    match u with
    | ['P'] => return ((← extension f start size fuel) :: told, f)
    | [':'] => return ({ pattern := ← enclosed f start fuel } :: told, f)
    | ['>'] => return ({ pattern := .atomic (← enclosed f start fuel) } :: told, f)
    | ['='] => return ({ pattern := .look 0 true (← enclosed f start fuel) } :: told, f)
    | ['!'] => return ({ pattern := .look 0 false (← enclosed f start fuel) } :: told, f)
    | ['<'] => return ({ pattern := ← lookBehind f start fuel } :: told, f)
    | ['('] => return ({ pattern := ← condition f start size fuel } :: told, f)
    | ['#'] =>
      skipComment start size
      return (told, f)
    | [d] =>
      unless isFlag d || d == '-' do failBack (.unknownExtension ("?" ++ String.ofList u)) 2
      match ← groupFlags f d with
      | some inner => return ({ pattern := ← enclosed inner start fuel } :: told, f)
      | none =>
        if !leading || !told.isEmpty then failAt .flagsNotAtStart start
        return (told, (← get).flags)
    | _ => failBack (.unknownExtension ("?" ++ String.ofList u)) (u.length + 1)
termination_by structural fuel => fuel

def extension (f : Flags) (start size : Nat) : (fuel : Nat) → ReadM Item
  | 0 => return { pattern := .lit [] }
  | fuel + 1 => do
    if ← accept '<' then
      let name ← takeName '>' "group name" size []
      checkName name
      return { pattern := ← captured (some name) f start fuel }
    if ← accept '=' then return ← namedReference f size
    let some u ← take | fail .unexpectedEnd
    failBack (.unknownExtension ("?P" ++ String.ofList u)) (u.length + 2)
termination_by structural fuel => fuel

def lookBehind (f : Flags) (start : Nat) : (fuel : Nat) → ReadM Pattern
  | 0 => return .lit []
  | fuel + 1 => do
    let some u ← take | fail .unexpectedEnd
    unless u == ['='] || u == ['!'] do
      failBack (.unknownExtension ("?<" ++ String.ofList u)) (u.length + 2)
    let outer := (← get).behind
    modify fun r => { r with behind := some (outer.getD r.opened) }
    let p ← alternatives false f true fuel
    modify fun r => { r with behind := outer }
    closeParen start
    let (least, most) := p.widths (← get).closed
    if most ≠ some least then modify fun r => { r with unfixed := true }
    return .look least (u == ['=']) p
termination_by structural fuel => fuel

def condition (f : Flags) (start size : Nat) : (fuel : Nat) → ReadM Pattern
  | 0 => return .lit []
  | fuel + 1 => do
    let number ← conditionNumber (← takeName ')' "group name" size [])
    checkCondition number
    let p ← items false f fuel []
    let q ← if ← accept '|' then items false f fuel [] else pure (.lit [])
    if (← peek) == some ['|'] then fail .tooManyBranches
    closeParen start
    return .ifGroup (toString number) p q
termination_by structural fuel => fuel

def enclosed (f : Flags) (start : Nat) : (fuel : Nat) → ReadM Pattern
  | 0 => return .lit []
  | fuel + 1 => do
    let p ← alternatives false f true fuel
    closeParen start
    return p
termination_by structural fuel => fuel

def captured (name : Option (List Char)) (f : Flags) (start : Nat) : (fuel : Nat) → ReadM Pattern
  | 0 => return .lit []
  | fuel + 1 => do
    let number ← openGroup name
    let p ← enclosed f start fuel
    let key := toString number
    modify fun r => { r with closed := (key, p.widths r.closed) :: r.closed }
    return .group key p
termination_by structural fuel => fuel

end

def whole (size : Nat) : ReadM Pattern := do
  look
  let p ← alternatives true {} true size
  if (← peek).isSome then fail .unbalanced
  let r ← get
  if let some (number, pos) := r.conditions.find? (r.opened < ·.1) then
    failAt (.invalidReference number) pos
  if r.unfixed then throw ⟨.lookBehindWidth, none⟩
  return p

end Written

def read (written : Text) : Except PatternError Pattern :=
  (Written.whole (8 * written.length + 8)).run' { ahead := Written.units written }

end Pattern

end CodeAudit
