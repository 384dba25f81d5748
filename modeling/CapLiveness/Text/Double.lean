/-!
# Ratios as double-precision numbers

The double-precision number nearest to a ratio of two counts, its bit pattern, and
its shortest decimal text: the fewest digits that lie nearer to it than to any
other double, and among numbers with that many digits the nearest.
-/

set_option autoImplicit false

namespace CapLiveness.Text

/-- The number `mantissa * 2 ^ exponent`. A mantissa other than zero has
fifty-three bits. -/
structure Double where
  mantissa : Nat
  exponent : Int
deriving DecidableEq

/-- A power of a base, or one for a negative exponent. -/
def powerUp (base : Nat) (exponent : Int) : Nat := Nat.pow base exponent.toNat

namespace Double

/-- The quotient of two numbers, rounded to the nearest whole number, of two
equally near ones to the even one. -/
def roundedQuotient (n d : Nat) : Nat :=
  let q := n / d
  if d < 2 * (n % d) ∨ (2 * (n % d) = d ∧ q % 2 = 1) then q + 1 else q

/-- The double nearest to a ratio. -/
def ofRatio (part whole : Nat) : Double :=
  if part = 0 ∨ whole = 0 then ⟨0, 0⟩
  else
    let estimate := Int.ofNat part.log2 - Int.ofNat whole.log2
    let reaches := whole * powerUp 2 estimate ≤ part * powerUp 2 (-estimate)
    let exponent := (if reaches then estimate else estimate - 1) - 52
    let m := roundedQuotient (part * powerUp 2 (-exponent)) (whole * powerUp 2 exponent)
    if m = 1 <<< 53 then ⟨1 <<< 52, exponent + 1⟩ else ⟨m, exponent⟩

/-- The bit pattern of a double that is not too small to have all its bits. -/
def bits (x : Double) : Nat :=
  if x.mantissa = 0 then 0 else (x.exponent + 1075).toNat * (1 <<< 52) + (x.mantissa - (1 <<< 52))

/-! ## Shortest text -/

/-- Compares `a * 10 ^ p` with `b * 2 ^ q`. -/
def compareScaled (a : Nat) (p : Int) (b : Nat) (q : Int) : Ordering :=
  compare (a * powerUp 10 p * powerUp 2 (-q)) (b * powerUp 2 q * powerUp 10 (-p))

/-- Whether `digits * 10 ^ power` is nearer to a double than to any other. -/
def isNear (x : Double) (digits : Nat) (power : Int) : Bool :=
  let below := if x.mantissa = 1 <<< 52 then 1 else 2
  let lower := compareScaled digits power (4 * x.mantissa - below) (x.exponent - 2)
  let upper := compareScaled digits power (4 * x.mantissa + 2) (x.exponent - 2)
  let even := x.mantissa % 2 == 0
  (lower == .gt || (even && lower == .eq)) && (upper == .lt || (even && upper == .eq))

/-- A decimal number: digits and a power of ten. -/
structure Decimal where
  digits : Nat
  power : Int
deriving DecidableEq

/-- The multiple of a power of ten just below a double, or the double itself. -/
def floorAt (x : Double) (power : Int) : Nat :=
  (x.mantissa * powerUp 2 x.exponent * powerUp 10 (-power)) /
    (powerUp 2 (-x.exponent) * powerUp 10 power)

/-- Whether the first of two neighbours on a decimal grid is not farther from a
double than the second. -/
def isLowerNearer (x : Double) (low : Nat) (power : Int) : Bool :=
  compareScaled (2 * low + 1) power (2 * x.mantissa) x.exponent != .lt

/-- The nearest multiple of a power of ten that is near enough to a double. -/
def onGrid (x : Double) (power : Int) : Option Decimal :=
  let low := x.floorAt power
  let lowNear := x.isNear low power
  let highNear := x.isNear (low + 1) power
  if lowNear && (!highNear || x.isLowerNearer low power) then some ⟨low, power⟩
  else if highNear then some ⟨low + 1, power⟩
  else none

/-- The shortest decimal number near a double, on grids finer and finer. -/
def shortestFrom (x : Double) : Nat → Int → Decimal
  | 0, power => ⟨x.floorAt power, power⟩
  | rounds + 1, power =>
    match x.onGrid power with
    | some found => found
    | none => shortestFrom x rounds (power - 1)

/-- The power of ten of the first digit of a double, found by going down from an
upper bound. -/
def leadingPower (x : Double) : Nat → Int → Int
  | 0, power => power
  | rounds + 1, power =>
    if compareScaled 1 power x.mantissa x.exponent == .gt then leadingPower x rounds (power - 1)
    else power

/-- The shortest decimal number that is nearer to a double than to any other. -/
def shortest (x : Double) : Decimal :=
  if x.mantissa = 0 then ⟨0, 0⟩ else x.shortestFrom 18 (x.leadingPower 700 310)

/-- A decimal number without zeros at the end of its digits. -/
def Decimal.trimmed : Nat → Decimal → Decimal
  | 0, d => d
  | rounds + 1, d =>
    if d.digits ≠ 0 ∧ d.digits % 10 = 0 then trimmed rounds ⟨d.digits / 10, d.power + 1⟩ else d

/-- Digits with a point after some of them; zeros fill what is missing. -/
def positional (digits : List Char) (point : Int) : List Char :=
  let filled := List.replicate (1 - point).toNat '0' ++ digits
  let point := max point 1
  let filled := filled ++ List.replicate (point.toNat - filled.length) '0'
  let fraction := filled.drop point.toNat
  filled.take point.toNat ++ (if fraction.isEmpty then [] else '.' :: fraction)

/-- An exponent with its sign and at least two digits. -/
def exponentText (n : Int) : List Char :=
  let digits := (toString n.natAbs).toList
  'e' :: (if n < 0 then '-' else '+') :: List.replicate (2 - digits.length) '0' ++ digits

/-- The shortest text of a double. Numbers from a ten-thousandth up to a million
are written without an exponent. -/
def text (x : Double) : String :=
  let d := x.shortest.trimmed 20
  let digits := (toString d.digits).toList
  let point := if d.digits = 0 then 1 else Int.ofNat digits.length + d.power
  if -4 ≤ point - 1 ∧ point - 1 < 6 then String.ofList (positional digits point)
  else
    let fraction := digits.tail
    String.ofList (digits.take 1 ++ (if fraction.isEmpty then [] else '.' :: fraction) ++
      exponentText (point - 1))

end Double

end CapLiveness.Text
