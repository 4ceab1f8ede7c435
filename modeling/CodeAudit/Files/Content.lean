import CodeAudit.Text.Basic

/-!
The text in a file. It is UTF-8, and each of the three ways to end a line is read as a line break. A
file is read block by block, so what stands before a fault in a later block is read before the fault
is noticed; a character that the end of the file cuts off is noticed last.
-/

namespace CodeAudit.Content

def unifyBreaks : Text → Text
  | '\r' :: '\n' :: rest => '\n' :: unifyBreaks rest
  | '\r' :: rest => '\n' :: unifyBreaks rest
  | c :: rest => c :: unifyBreaks rest
  | [] => []

def text? (bytes : ByteArray) : Option Text :=
  (String.fromUTF8? bytes).map fun s => unifyBreaks s.toList

def startsCharacter : List UInt8 → Bool
  | [a] => 0xC2 ≤ a && a ≤ 0xF4
  | [a, b] =>
    (a == 0xE0 && 0xA0 ≤ b && b ≤ 0xBF) || (a == 0xED && 0x80 ≤ b && b ≤ 0x9F) ||
      (0xE1 ≤ a && a ≤ 0xEF && a != 0xED && 0x80 ≤ b && b ≤ 0xBF) ||
      (a == 0xF0 && 0x90 ≤ b && b ≤ 0xBF) || (a == 0xF4 && 0x80 ≤ b && b ≤ 0x8F) ||
      (0xF1 ≤ a && a ≤ 0xF3 && 0x80 ≤ b && b ≤ 0xBF)
  | [a, b, c] =>
    0xF0 ≤ a && a ≤ 0xF4 && startsCharacter [a, b] && 0x80 ≤ c && c ≤ 0xBF
  | _ => false

def readable? (bytes : ByteArray) : Option (Text × Bool) :=
  match String.fromUTF8? bytes with
  | some s => some (s.toList, true)
  | none => [1, 2, 3].findSome? fun k =>
    let cut := bytes.size - k
    if startsCharacter (bytes.extract cut bytes.size).toList then
      (String.fromUTF8? (bytes.extract 0 cut)).map fun s => (s.toList, false)
    else none

def blockSize : Nat := 8192

def readBlocks (bytes : ByteArray) : (n : Nat) → Text
  | 0 => []
  | n + 1 =>
    match readable? (bytes.extract 0 ((n + 1) * blockSize)) with
    | some (s, _) => s
    | none => readBlocks bytes n

def splitLines : Text → List Text
  | [] => []
  | c :: rest =>
    if c == '\n' then [c] :: splitLines rest
    else match splitLines rest with
      | [] => [[c]]
      | l :: ls => (c :: l) :: ls

def dropReturn (s : Text) : Text :=
  if s.getLast? == some '\r' then s.dropLast else s

/-- The lines of a file with their breaks, and whether they are all its lines. A line that is not
ended before a fault is not read. -/
def lines (bytes : ByteArray) : List Text × Bool :=
  match text? bytes with
  | some s => (splitLines s, true)
  | none =>
    let s := unifyBreaks (dropReturn (readBlocks bytes (bytes.size / blockSize + 1)))
    ((splitLines s).filter fun l => l.getLast? == some '\n', false)

end CodeAudit.Content
