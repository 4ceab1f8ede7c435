/-!
Decimal text of binary fractions. A number of `precision` bits stands for all reals that are rounded
to it; it is written with the fewest digits that stand for one of them, and of these with the
nearest.
-/

namespace CodeAudit.Decimal

def precision : Nat := 53

structure Binary where
  significand : Nat
  exponent : Int
  deriving DecidableEq, Repr

def roundHalfEven (n d : Nat) : Nat :=
  let q := n / d
  let r := n % d
  if 2 * r > d ∨ (2 * r = d ∧ q % 2 = 1) then q + 1 else q

def Binary.round (n : Nat) : Binary :=
  let bits := n.log2 + 1
  if bits ≤ precision then ⟨n * Nat.pow 2 (precision - bits), (bits : Int) - precision⟩
  else
    let shift := bits - precision
    let m := roundHalfEven n (Nat.pow 2 shift)
    if m = Nat.pow 2 precision then ⟨Nat.pow 2 (precision - 1), shift + 1⟩ else ⟨m, shift⟩

structure Ratio where
  num : Nat
  den : Nat
  deriving DecidableEq, Repr

def Ratio.scaled (base n : Nat) (e : Int) : Ratio :=
  if 0 ≤ e then ⟨n * base.pow e.toNat, 1⟩ else ⟨n, base.pow (-e).toNat⟩

def Ratio.le (a b : Ratio) : Bool := a.num * b.den ≤ b.num * a.den
def Ratio.lt (a b : Ratio) : Bool := a.num * b.den < b.num * a.den

structure Interval where
  low : Ratio
  high : Ratio
  closed : Bool
  deriving DecidableEq, Repr

/-- Below a power of two the neighbour is only half as far away. -/
def Binary.interval (b : Binary) : Interval :=
  let gap := if b.significand = Nat.pow 2 (precision - 1) then 1 else 2
  ⟨.scaled 2 (4 * b.significand - gap) (b.exponent - 2),
    .scaled 2 (4 * b.significand + 2) (b.exponent - 2), b.significand % 2 == 0⟩

def Interval.has (i : Interval) (x : Ratio) : Bool :=
  if i.closed then i.low.le x && x.le i.high else i.low.lt x && x.lt i.high

structure Digits where
  value : Nat
  exponent : Int
  deriving DecidableEq, Repr

def Digits.ratio (d : Digits) : Ratio := .scaled 10 d.value d.exponent

def digitCount (n : Nat) : Nat := (Nat.toDigits 10 n).length

def smallExponent : (fuel : Nat) → Ratio → Int
  | 0, _ => 0
  | fuel + 1, r => if r.den ≤ r.num then 0 else smallExponent fuel ⟨r.num * 10, r.den⟩ - 1

def leadExponent (r : Ratio) : Int :=
  if r.den ≤ r.num then (digitCount (r.num / r.den) : Int) - 1
  else smallExponent (digitCount r.den) r

/-- Of the two neighbours of `x` among the multiples of `10 ^ e`, the nearest in the interval; from
the middle the even one. -/
def nearestOn (x : Ratio) (i : Interval) (e : Int) : Option Digits :=
  let unit := Ratio.scaled 10 1 e
  let n := x.num * unit.den
  let d := x.den * unit.num
  let below : Digits := ⟨n / d, e⟩
  let above : Digits := ⟨n / d + 1, e⟩
  let near := if roundHalfEven n d = n / d then below else above
  let far := if roundHalfEven n d = n / d then above else below
  if i.has near.ratio then some near
  else if i.has far.ratio then some far
  else none

def shortestFrom (x : Ratio) (i : Interval) (lead : Int) : (fuel count : Nat) → Digits
  | 0, count => ⟨x.num / x.den, count⟩
  | fuel + 1, count =>
    match nearestOn x i (lead - count) with
    | some d => d
    | none => shortestFrom x i lead fuel (count + 1)

def Binary.shortest (b : Binary) : Digits :=
  let x := Ratio.scaled 2 b.significand b.exponent
  shortestFrom x b.interval (leadExponent x) 20 0

structure Format where
  lowest : Int
  highest : Int
  width : Nat

def stripZeros (cs : List Char) : List Char :=
  (cs.reverse.dropWhile (· == '0')).reverse

def positional (digits : List Char) (lead : Int) : List Char :=
  if lead < 0 then
    '0' :: '.' :: List.replicate ((-lead).toNat - 1) '0' ++ digits
  else
    let whole := lead.toNat + 1
    let fraction := digits.drop whole
    digits.take whole ++ List.replicate (whole - digits.length) '0' ++ '.' ::
      (if fraction.isEmpty then ['0'] else fraction)

def scientific (width : Nat) (digits : List Char) (lead : Int) : List Char :=
  let power := Nat.toDigits 10 lead.natAbs
  let tail := match digits with
    | [] => []
    | [c] => [c]
    | c :: cs => c :: '.' :: cs
  tail ++ 'e' :: (if lead < 0 then '-' else '+') ::
    (List.replicate (width - power.length) '0' ++ power)

def Format.write (f : Format) (d : Digits) : List Char :=
  let all := Nat.toDigits 10 d.value
  let lead := d.exponent + all.length - 1
  let digits := stripZeros all
  if f.lowest ≤ lead ∧ lead < f.highest then positional digits lead
  else scientific f.width digits lead

end CodeAudit.Decimal
