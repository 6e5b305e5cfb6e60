/-!
# Shortest decimals

A finite binary fraction is written with the fewest decimal digits that read back as the same
number. The candidates on the grid of multiples of a power of ten are the two neighbours of the
value, tested in exact integer arithmetic against the interval of reals that round to the value:
the coarsest grid with a hit wins, and of two hits the nearer one.
-/

namespace DeclaredMethods.Text

/-- A positive binary fraction `mantissa * 2 ^ exponent` together with whether the gap to the
next smaller fraction is half as wide as the gap to the next larger one. -/
structure Binary where
  mantissa : Nat
  exponent : Int
  narrowBelow : Bool

/-- A decimal `digits * 10 ^ exponent`. -/
structure Decimal where
  digits : Nat
  exponent : Int
deriving DecidableEq

/-- A power with an integer exponent as a fraction, numerator first. -/
def powRatio (base : Nat) (exponent : Int) : Nat × Nat :=
  (base.pow exponent.toNat, base.pow (-exponent).toNat)

namespace Binary

/-- Where the candidate `digits * 10 ^ exponent` stands on the grid of quarters of the last
place of a binary fraction, as the numerators over one denominator of the candidate and of one
quarter. -/
def quarters (x : Binary) (digits : Nat) (exponent : Int) : Nat × Nat :=
  let (tenUp, tenDown) := powRatio 10 exponent
  let (twoUp, twoDown) := powRatio 2 (x.exponent - 2)
  (digits * tenUp * twoDown, twoUp * tenDown)

/-- Whether a decimal reads back as the binary fraction: it lies in the interval of reals that
round to it, whose ends belong to it if and only if the mantissa is even. -/
def readsBack (x : Binary) (digits : Nat) (exponent : Int) : Bool :=
  let (candidate, quarter) := x.quarters digits exponent
  let low := (4 * x.mantissa - if x.narrowBelow then 1 else 2) * quarter
  let high := (4 * x.mantissa + 2) * quarter
  if x.mantissa % 2 = 0 then low ≤ candidate && candidate ≤ high
  else low < candidate && candidate < high

/-- The largest multiple of a power of ten that is at most the binary fraction. -/
def below (x : Binary) (exponent : Int) : Nat :=
  let (tenUp, tenDown) := powRatio 10 exponent
  let (twoUp, twoDown) := powRatio 2 x.exponent
  (x.mantissa * twoUp * tenDown) / (twoDown * tenUp)

/-- Whether the upper of two neighbours on a grid is nearer to the binary fraction; `halfUp`
decides when both are equally near. -/
def upperIsNearer (x : Binary) (halfUp : Bool) (lower : Nat) (exponent : Int) : Bool :=
  let (candidate, quarter) := x.quarters (2 * lower + 1) exponent
  let twice := 8 * x.mantissa * quarter
  if halfUp then candidate ≤ twice else candidate < twice

/-- The decimal on one grid that reads back as the binary fraction, if there is one. -/
def onGrid? (x : Binary) (halfUp : Bool) (exponent : Int) : Option Decimal :=
  let lower := x.below exponent
  let upper := lower + 1
  match x.readsBack lower exponent, x.readsBack upper exponent with
  | true, true => some ⟨if x.upperIsNearer halfUp lower exponent then upper else lower, exponent⟩
  | true, false => some ⟨lower, exponent⟩
  | false, true => some ⟨upper, exponent⟩
  | false, false => none

/-- The first hit on the grids from `exponent` downward. -/
def searchGrids (x : Binary) (halfUp : Bool) : Nat → Int → Decimal
  | 0, exponent => ⟨x.below exponent, exponent⟩
  | grids + 1, exponent =>
    match x.onGrid? halfUp exponent with
    | some decimal => decimal
    | none => searchGrids x halfUp grids (exponent - 1)

/-- The decimal with the fewest digits that reads back as the binary fraction. -/
def shortest (x : Binary) (halfUp : Bool) : Decimal :=
  x.searchGrids halfUp 660 310

end Binary

/-- How floating-point numbers are written. -/
structure FloatFormat where
  /-- The smallest exponent of the leading digit that is written without an exponent. -/
  leastPlain : Int
  /-- The largest exponent of the leading digit that is written without an exponent. -/
  mostPlain : Int
  /-- Of two shortest decimals equally near, take the upper one. -/
  halfUp : Bool

/-- Messages write numbers from one ten-thousandth up to, and not including, ten to the
sixteenth without an exponent. -/
def FloatFormat.shown : FloatFormat := ⟨-4, 15, true⟩

/-- Data dumps write numbers from one hundred-thousandth up to, and not including, ten to the
sixteenth without an exponent. -/
def FloatFormat.dumped : FloatFormat := ⟨-5, 15, false⟩

/-- The digits of a decimal, with a point behind the leading one if others follow, and the
exponent of the leading digit. -/
def scientificText (digits : List Char) (exponent : Int) : List Char :=
  let fraction := digits.drop 1
  digits.take 1 ++ (if fraction.isEmpty then [] else '.' :: fraction) ++
    'e' :: (toString exponent).toList

/-- The digits of a decimal whose leading digit has the given exponent, with a point and at
least one digit behind it. -/
def plainText (digits : List Char) (exponent : Int) : List Char :=
  if exponent < 0 then
    '0' :: '.' :: (List.replicate ((-exponent).toNat - 1) '0' ++ digits)
  else
    let whole := exponent.toNat + 1
    let padded := digits ++ List.replicate (whole - digits.length) '0'
    let fraction := padded.drop whole
    padded.take whole ++ '.' :: (if fraction.isEmpty then ['0'] else fraction)

def Decimal.text (format : FloatFormat) (x : Decimal) : List Char :=
  let digits := Nat.toDigits 10 x.digits
  let exponent := x.exponent + digits.length - 1
  if format.leastPlain ≤ exponent && exponent ≤ format.mostPlain then plainText digits exponent
  else scientificText digits exponent

/-- The magnitude of a finite double, from its bits. -/
def Binary.ofBits (bits : Nat) : Binary :=
  let fraction : Nat := bits % (1 <<< 52)
  let scale : Nat := (bits >>> 52) % (1 <<< 11)
  if scale = 0 then ⟨fraction, -1074, false⟩
  else ⟨(1 <<< 52) + fraction, (scale : Int) - 1075, fraction = 0 && scale ≠ 1⟩

def floatText (format : FloatFormat) (x : Float) : String :=
  let bits := x.toBits.toNat
  let sign := if 1 <<< 63 ≤ bits then "-" else ""
  let magnitude := Binary.ofBits bits
  if (bits >>> 52) % (1 <<< 11) = (1 <<< 11) - 1 then
    if bits % (1 <<< 52) = 0 then sign ++ "inf" else "NaN"
  else if magnitude.mantissa = 0 then sign ++ "0.0"
  else sign ++ String.ofList ((magnitude.shortest format.halfUp).text format)

end DeclaredMethods.Text
