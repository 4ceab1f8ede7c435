import CodeAudit.Decimal.Shortest
import CodeAudit.Leak.Block

namespace CodeAudit.Leak

def sizeFormat : Decimal.Format := ⟨-4, 16, 2⟩

def maxExponent : Int := 1024 - 53

def megabytes? (bytes : Nat) : Option Text :=
  if bytes = 0 then some "0.0".toList
  else
    let b := Decimal.Binary.round bytes
    if b.exponent - 10 > maxExponent then none
    else some (sizeFormat.write (Decimal.Binary.shortest ⟨b.significand, b.exponent - 20⟩))

def megabytes (bytes : Nat) : Scan Text :=
  match megabytes? bytes with
  | some s => .ok s
  | none => .error .tooLarge

/-- The last elements of a list, from its end backwards: of a list of `n`, those whose place is
greater than `-most`, where a negative place counts from the end. -/
def lastBefore {α : Type} (most : Int) (xs : List α) : List α :=
  let n : Int := xs.length
  let stop := if most > 0 then max (-1) (n - most) else min (-most) (n - 1)
  xs.reverse.take (n - 1 - stop).toNat

def byTotal (blocks : List Block) : List Block :=
  blocks.mergeSort fun a b => a.total ≤ b.total

def byCount (blocks : List Block) : List Block :=
  blocks.mergeSort fun a b => a.count ≤ b.count

def writeNumber (n : Int) : Scan Text :=
  if (toString n.natAbs).length ≤ maxDigits then .ok (toString n).toList else .error .tooManyDigits

def blockLines (b : Block) : List (Scan Text) :=
  [do return b.hash ++ " ---> ".toList ++ (← megabytes b.total) ++ "M ---> count: ".toList ++
      (← writeNumber b.count),
    .ok b.message]

def totalOf (blocks : List Block) : Nat :=
  blocks.foldr (·.total + ·) 0

def topMemory (most : Int) (blocks : List Block) : List Block := lastBefore most (byTotal blocks)
def topCount (most : Int) (blocks : List Block) : List Block := lastBefore most (byCount blocks)

def profileLines (most : Int) (blocks : List Block) : List (Scan Text) :=
  [.ok "-------------------------TOP MEMORY------------------------------".toList] ++
  (topMemory most blocks).flatMap blockLines ++
  [do return "top ".toList ++ (← writeNumber most) ++ " size --> ".toList ++
        (← megabytes (totalOf (topMemory most blocks))) ++ " M".toList,
    do return "all size --> ".toList ++ (← megabytes (totalOf blocks)) ++ " M".toList,
    .ok "------------------------TOP COUNT------------------------------------".toList] ++
  (topCount most blocks).flatMap blockLines

def printLines : List (Scan Text) → Text × Option Failure
  | [] => ([], none)
  | .ok line :: rest =>
    let (out, failure) := printLines rest
    (line ++ '\n' :: out, failure)
  | .error e :: _ => ([], some e)

structure Profile where
  out : Text
  blocks : List Block
  failure : Option Failure

def defaultMost : Int := 20

def profile (known : List Block) (content : Except ReadFailure ByteArray) (most : Int) : Profile :=
  let (blocks, failure) := readReport content
  let blocks := known ++ blocks
  match failure with
  | some e => ⟨[], blocks, some e⟩
  | none =>
    let (out, failure) := printLines (profileLines most blocks)
    ⟨out, blocks, failure⟩

end CodeAudit.Leak
