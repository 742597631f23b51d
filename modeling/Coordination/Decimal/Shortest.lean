/-!
The shortest decimal of a binary64 number: of all decimals that read back to the same
number, the ones with the fewest significant digits, and of those the nearest; an exact
tie goes to the even last digit. The number is decoded from its bits into `m · 2^q`, and
every comparison is exact arithmetic on naturals.

`Style` then writes such a decimal as text, positionally or with an exponent.
-/

namespace Coordination.Decimal

/-- A finite binary64 magnitude `mant · 2^exp`; `tight` holds when the next lower number
is half as far away as the next higher one (the bottom of a binade). -/
structure Binary where
  mant : Nat
  exp : Int
  tight : Bool
  deriving Repr

/-- The magnitude of a finite binary64 number given by its bits (the sign bit is ignored). -/
def Binary.ofBits (b : UInt64) : Binary :=
  let frac := (b &&& 0xFFFFFFFFFFFFF).toNat
  let e := ((b >>> 52) &&& 0x7FF).toNat
  if e = 0 then ⟨frac, -1074, false⟩
  else ⟨frac + Nat.pow 2 52, (e : Int) - 1075, frac = 0 && 1 < e⟩

/-- Compares `c · 10^k` with `r · 2^q / 4`. -/
def cmpScaled (c : Nat) (k : Int) (r : Nat) (q : Int) : Ordering :=
  let lhs := 4 * c * Nat.pow 10 k.toNat * Nat.pow 2 (-q).toNat
  let rhs := r * Nat.pow 2 q.toNat * Nat.pow 10 (-k).toNat
  compare lhs rhs

/-- `⌊mant · 2^exp / 10^k⌋`. -/
def Binary.floorAt (b : Binary) (k : Int) : Nat :=
  b.mant * Nat.pow 2 b.exp.toNat * Nat.pow 10 (-k).toNat /
    (Nat.pow 2 (-b.exp).toNat * Nat.pow 10 k.toNat)

/-- Whether `10^e` is at most the magnitude. -/
def Binary.reaches (b : Binary) (e : Int) : Bool :=
  cmpScaled 1 e (4 * b.mant) b.exp != .gt

/-- Moves an estimate of the decimal exponent up while `10^(e+1)` is still reached. -/
def Binary.raiseExp (b : Binary) : Nat → Int → Int
  | 0, e => e
  | fuel + 1, e => if b.reaches (e + 1) then b.raiseExp fuel (e + 1) else e

/-- Moves an estimate of the decimal exponent down until `10^e` is reached. -/
def Binary.lowerExp (b : Binary) : Nat → Int → Int
  | 0, e => e
  | fuel + 1, e => if b.reaches e then e else b.lowerExp fuel (e - 1)

/-- `⌊log₁₀ (mant · 2^exp)⌋` for a non-zero magnitude: an estimate from the bit length,
corrected by exact comparisons. -/
def Binary.decimalExp (b : Binary) : Int :=
  let bits : Int := (Nat.log2 b.mant : Int) + b.exp
  let guess := (bits * 30103).fdiv 100000
  b.raiseExp 4 (b.lowerExp 4 guess)

/-- Whether `c · 10^k` lies between the midpoints to the neighbouring numbers; the
midpoints count when the mantissa is even, since ties read back to the even one. -/
def Binary.holds (b : Binary) (c : Nat) (k : Int) : Bool :=
  let low := if b.tight then 4 * b.mant - 1 else 4 * b.mant - 2
  let high := 4 * b.mant + 2
  let even := b.mant % 2 == 0
  let aboveLow := match cmpScaled c k low b.exp with
    | .gt => true | .eq => even | .lt => false
  let belowHigh := match cmpScaled c k high b.exp with
    | .lt => true | .eq => even | .gt => false
  aboveLow && belowHigh

/-- Of the two neighbours `lo · 10^k` and `(lo + 1) · 10^k` of the magnitude, the nearer one
that reads back, if any; an exact tie goes to the even digit. -/
def Binary.nearestAt (b : Binary) (k : Int) : Option Nat :=
  let lo := b.floorAt k
  let hi := lo + 1
  let loOk := b.holds lo k
  let hiOk := b.holds hi k
  if loOk && hiOk then
    match cmpScaled (lo + hi) k (8 * b.mant) b.exp with
    | .lt => some hi
    | .gt => some lo
    | .eq => if lo % 2 == 0 then some lo else some hi
  else if loOk then some lo
  else if hiOk then some hi
  else none

/-- Tries grids of `n`, `n + 1`, … significant digits below the decimal exponent `e10`. -/
def Binary.search (b : Binary) (e10 : Int) : Nat → Nat → Nat × Int
  | 0, n => (b.floorAt (e10 + 1 - n), e10 + 1 - n)
  | fuel + 1, n =>
    let k := e10 + 1 - n
    match b.nearestAt k with
    | some c => (c, k)
    | none => b.search e10 fuel (n + 1)

/-- Drops trailing zero digits of `c · 10^k` into the exponent. -/
def stripZeros : Nat → Nat → Int → Nat × Int
  | 0, c, k => (c, k)
  | fuel + 1, c, k => if c ≠ 0 ∧ c % 10 = 0 then stripZeros fuel (c / 10) (k + 1) else (c, k)

/-- The shortest nearest decimal `c · 10^k` of a magnitude, with no trailing zeros in `c`;
zero is `(0, 0)`. -/
def Binary.shortest (b : Binary) : Nat × Int :=
  if b.mant = 0 then (0, 0)
  else
    let (c, k) := b.search b.decimalExp 20 1
    stripZeros 20 c k

/-- How a decimal `c · 10^k` is written: positionally when the exponent of its first digit
lies in `[lowest, highest]` (an integer then ends in `.0`), otherwise as
`d.ddd` followed by `e`, the exponent's sign (`+` only when `plus`) and at least
`expDigits` exponent digits. -/
structure Style where
  lowest : Int
  highest : Int
  plus : Bool
  expDigits : Nat

/-- Decimal digits of a natural number. -/
def digitsOf (n : Nat) : List Char := (toString n).toList

/-- Writes `c · 10^k` (with `c` free of trailing zeros) in a style. -/
def Style.write (s : Style) (negative : Bool) (c : Nat) (k : Int) : String :=
  let ds := digitsOf c
  let len := ds.length
  let lead : Int := k + len - 1
  let sign := if negative then "-" else ""
  if c = 0 then sign ++ "0.0"
  else if s.lowest ≤ lead ∧ lead ≤ s.highest then
    if 0 ≤ k then
      sign ++ String.ofList ds ++ String.ofList (List.replicate k.toNat '0') ++ ".0"
    else if (-k).toNat < len then
      let whole := len - (-k).toNat
      sign ++ String.ofList (ds.take whole) ++ "." ++ String.ofList (ds.drop whole)
    else
      sign ++ "0." ++ String.ofList (List.replicate ((-k).toNat - len) '0') ++ String.ofList ds
  else
    let mant := match ds with
      | [] => "0"
      | [d] => String.ofList [d]
      | d :: rest => String.ofList (d :: '.' :: rest)
    let e := digitsOf lead.natAbs
    let e := List.replicate (s.expDigits - e.length) '0' ++ e
    let esign := if lead < 0 then "-" else if s.plus then "+" else ""
    sign ++ mant ++ "e" ++ esign ++ String.ofList e

/-- The text of a finite binary64 number, given by its bits, in a style. -/
def Style.ofBits (s : Style) (bits : UInt64) : String :=
  let (c, k) := (Binary.ofBits bits).shortest
  s.write (bits >>> 63 == 1) c k

end Coordination.Decimal

namespace Coordination.Decimal

/-- The bits of the binary64 number nearest to a natural number below `2^1024`, ties to an
even mantissa: the top 53 bits of `n`, rounded by the bits below them. -/
def nearestBits (n : Nat) : UInt64 :=
  if n < Nat.pow 2 53 then
    -- exact: a normal number for n ≥ 2^52, below it the bits are those of `n` scaled up
    if n = 0 then 0
    else
      let shift := 52 - Nat.log2 n
      let m := n * Nat.pow 2 shift
      let e := 1075 - shift
      (e.toUInt64 <<< 52) ||| (m - Nat.pow 2 52).toUInt64
  else
    let shift := Nat.log2 n - 52
    let m := n / Nat.pow 2 shift
    let rest := n % Nat.pow 2 shift
    let half := Nat.pow 2 (shift - 1)
    let m := if rest > half ∨ (rest = half ∧ m % 2 = 1) then m + 1 else m
    let (m, shift) := if m = Nat.pow 2 53 then (Nat.pow 2 52, shift + 1) else (m, shift)
    let e := shift + 1075
    if e ≥ 2047 then 0x7FF0000000000000
    else (e.toUInt64 <<< 52) ||| (m - Nat.pow 2 52).toUInt64

end Coordination.Decimal
