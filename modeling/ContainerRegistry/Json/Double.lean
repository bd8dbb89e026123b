/-
# Doubles, exactly

A positive double is a whole number below 2^53 times a power of two. Here it is
handled as that pair, in exact arithmetic: the double nearest to a ratio, with
ties to the even neighbour, and the shortest decimal that is nearest to a given
double among those that read back as it.

Key definitions: `Double`, `Double.ofRatio`, `Double.ofScientific?`,
`Double.shortest`.
-/

namespace ContainerRegistry

/-- The number `mantissa * 2 ^ exponent`. -/
structure Double where
  mantissa : Nat
  exponent : Int
  deriving DecidableEq, Repr

namespace Double

/-- The quotient of two numbers, rounded to the nearest, ties to even. -/
def roundedQuotient (num den : Nat) : Nat :=
  let q := num / den
  let r := num % den
  if 2 * r < den then q
  else if den < 2 * r then q + 1
  else if q % 2 = 0 then q
  else q + 1

/-- The ratio `num / den` with both sides scaled to whole numbers of units `2 ^ exponent`. -/
def scaled (num den : Nat) (exponent : Int) : Nat × Nat :=
  if 0 ≤ exponent then (num, den <<< exponent.toNat) else (num <<< (-exponent).toNat, den)

/-- The lowest exponent. -/
def lowest : Int := -1074

/-- The double nearest to a ratio, whatever its size. -/
def ofRatio (num den : Nat) : Double :=
  if num = 0 then ⟨0, lowest⟩
  else
    let guess := (num.log2 : Int) - den.log2 - 53
    let (n, d) := scaled num den guess
    let exponent := max lowest (if n / d < 1 <<< 53 then guess else guess + 1)
    let (n, d) := scaled num den exponent
    let mantissa := roundedQuotient n d
    if mantissa = 1 <<< 53 then ⟨1 <<< 52, exponent + 1⟩ else ⟨mantissa, exponent⟩

/-- Whether a double is too large to be one. -/
def isInfinite (x : Double) : Bool :=
  971 < x.exponent

/-- A double as a ratio. -/
def ratio (x : Double) : Nat × Nat :=
  if 0 ≤ x.exponent then (x.mantissa <<< x.exponent.toNat, 1)
  else (x.mantissa, 1 <<< (-x.exponent).toNat)

/-- The double nearest to a power of ten. -/
def tenTo (n : Nat) : Double :=
  ofRatio (Nat.pow 10 n) 1

/-- The double nearest to the product of two. -/
def mul (x y : Double) : Double :=
  ofRatio (x.ratio.1 * y.ratio.1) (x.ratio.2 * y.ratio.2)

/-- The double nearest to the quotient of two. -/
def div (x y : Double) : Double :=
  ofRatio (x.ratio.1 * y.ratio.2) (x.ratio.2 * y.ratio.1)

/-- The largest power of ten that is a double. -/
def largestTen : Nat := 308

/-- Divides a double by a power of ten, in steps of the largest one. -/
def divTen (x : Double) : Nat → Double
  | n =>
    if n ≤ largestTen then x.div (tenTo n)
    else if x.mantissa = 0 then x
    else divTen (x.div (tenTo largestTen)) (n - largestTen)
  termination_by n => n
  decreasing_by unfold largestTen at *; omega

/-- The double that `digits * 10 ^ exponent` reads as: the digits and the power of
ten are rounded first, and then their product or quotient. -/
def ofScientific? (digits : Nat) (exponent : Int) : Option Double :=
  let x := ofRatio digits 1
  if x.mantissa = 0 then some ⟨0, lowest⟩
  else if 0 ≤ exponent then
    if largestTen < exponent.toNat then none
    else
      let y := x.mul (tenTo exponent.toNat)
      if y.isInfinite then none else some y
  else if 3 * largestTen < (-exponent).toNat then some ⟨0, lowest⟩
  else some (x.divTen (-exponent).toNat)

/-- The ratio of `digits * 10 ^ exponent`. -/
def decimalRatio (digits : Nat) (exponent : Int) : Nat × Nat :=
  if 0 ≤ exponent then (digits * Nat.pow 10 exponent.toNat, 1)
  else (digits, Nat.pow 10 (-exponent).toNat)

/-- Whether the decimal `digits * 10 ^ exponent` is nearest to a double. -/
def readsAs (digits : Nat) (exponent : Int) (x : Double) : Bool :=
  ofRatio (decimalRatio digits exponent).1 (decimalRatio digits exponent).2 == x

/-- The exponent of the highest decimal digit of a positive ratio. -/
def highestDigit (num den : Nat) : Int :=
  let guess : Int := (Nat.toDigits 10 num).length - (Nat.toDigits 10 den).length
  let (n, d) := decimalRatio 1 guess
  if n * den ≤ num * d then guess else guess - 1

/-- The decimal with `count` digits that is next to a double, if it reads as it. -/
def withDigits? (x : Double) (count : Nat) : Option (Nat × Int) :=
  let (num, den) := x.ratio
  let exponent := highestDigit num den - (count - 1 : Nat)
  let (n, d) := decimalRatio 1 exponent
  let below := num * d / (den * n)
  let isLow := readsAs below exponent x
  let isHigh := readsAs (below + 1) exponent x
  let nearest := roundedQuotient (num * d) (den * n)
  if isLow && isHigh then some (nearest, exponent)
  else if isLow then some (below, exponent)
  else if isHigh then some (below + 1, exponent)
  else none

/-- The digits and the exponent without trailing zeros. -/
def stripZeros (digits : Nat) (exponent : Int) : Nat → Nat × Int
  | 0 => (digits, exponent)
  | fuel + 1 =>
    if digits ≠ 0 ∧ digits % 10 = 0 then stripZeros (digits / 10) (exponent + 1) fuel
    else (digits, exponent)

/-- The digits and the exponent of the shortest decimal that reads as a double. -/
def shortest (x : Double) : Nat × Int :=
  if x.mantissa = 0 then (0, 0)
  else
    match (List.range 17).findSome? fun n => x.withDigits? (n + 1) with
    | some (digits, exponent) => stripZeros digits exponent 18
    | none => (0, 0)

example : (ofScientific? 1 (-1)).map shortest = some (1, -1) := by decide +kernel
example : (ofScientific? 5 (-324)).map shortest = some (5, -324) := by decide +kernel
example : ofScientific? 1 309 = none := by decide +kernel

end Double

end ContainerRegistry
