import CodeAudit.Failure
import CodeAudit.Files.Content
import CodeAudit.Pattern.Match
import CodeAudit.Text.Numeral

/-!
Blocks of a leak report. A block starts with a header and a line with a hash and a count, and goes
on to the next empty line or the end of the report. Lines outside of blocks are passed over.
-/

namespace CodeAudit.Leak

namespace Shape

open Pattern

def blanks : Pattern := many .blank
def number : Pattern := many1 .decimal
def hexWord : Pattern := "0x" ++ many1 (.either .decimal .word)

def blockHead : Pattern :=
  many1 (.among ['-']) ++ " Block " ++ number ++ " at " ++ hexWord ++ ": " ++
    group "bytes" number ++ " bytes " ++ many1 (.among ['-'])

def leakHash : Pattern :=
  blanks ++ "Leak Hash: " ++ group "hash" hexWord ++ " Count: " ++ group "count" number

end Shape

structure Block where
  hash : Text
  bytes : Nat
  count : Nat
  message : Text
  deriving DecidableEq, Repr

namespace Block

def total (b : Block) : Nat := b.bytes * b.count

end Block

def numberOf (s : Text) : Nat :=
  s.foldl (fun n c => n * 10 + (Text.decimalValue? c).getD 0) 0

/-- The most digits that a number can be read or written with. -/
def maxDigits : Nat := 4300

def readNumber (s : Text) : Scan Nat :=
  if s.length ≤ maxDigits then .ok (numberOf s) else .error .tooManyDigits

def headBytes? (line : Text) : Option (Scan Nat) := do
  let m ← Shape.blockHead.matchAt line 0
  return readNumber (← m.groupText? line "bytes")

def hashAndCount? (line : Text) : Option (Text × Scan Nat) := do
  let m ← Shape.leakHash.matchAt line 0
  return (← m.groupText? line "hash", readNumber (← m.groupText? line "count"))

inductive Stage where
  | outside
  | headed (bytes : Nat) (head : Text)
  | inside (block : Block)

/-- The blocks in the lines of a report, and why reading stops early if it does. `final` is what the
end of the lines stands for: the end of the report, or a fault. -/
def blocksFrom (final : Option Failure) : Stage → List Text → List Block × Option Failure
  | .outside, [] => ([], final)
  | .headed _ _, [] => ([], some (final.getD .malformed))
  | .inside block, [] => (if final.isNone then [block] else [], final)
  | .outside, line :: rest =>
    match headBytes? line with
    | none => blocksFrom final .outside rest
    | some (.error e) => ([], some e)
    | some (.ok bytes) => blocksFrom final (.headed bytes line) rest
  | .headed bytes head, line :: rest =>
    match hashAndCount? line with
    | none => ([], some .malformed)
    | some (_, .error e) => ([], some e)
    | some (hash, .ok count) => blocksFrom final (.inside ⟨hash, bytes, count, head ++ line⟩) rest
  | .inside block, line :: rest =>
    if line == ['\n'] then
      let (blocks, failure) := blocksFrom final .outside rest
      (block :: blocks, failure)
    else blocksFrom final (.inside { block with message := block.message ++ line }) rest

def readReport (content : Except ReadFailure ByteArray) : List Block × Option Failure :=
  match content with
  | .error e => ([], some (.unreadable e))
  | .ok bytes =>
    let (lines, complete) := Content.lines bytes
    blocksFrom (if complete then none else some (.unreadable .notUtf8)) .outside lines

end CodeAudit.Leak
