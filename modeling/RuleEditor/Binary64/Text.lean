import RuleEditor.Binary64.Decimal

/-!
# Texts of binary floating point numbers

**Reading** (`ofText?`). A sign, digits around a point, an exponent: what is not needed may be left
out, as long as there is a digit. `nan`, `inf` and `infinity` are read in any case.

**Inside JSON** (`jsonText`). The shortest digits, an even last digit if two decimals are equally
near; positional while the leading digit stands between `10 ^ -5` and `10 ^ 15`, and scientific
outside of that range.

**Shown to a reader** (`displayText`). Always positional: whole numbers with all their digits,
others with the shortest ones, the larger decimal if two are equally near.
-/

namespace RuleEditor

/-! ## Reading -/

namespace Decimal

/-- Whether the text has a minus in front, and what follows the sign. -/
def splitSign : List Char → Bool × List Char
  | '-' :: text => (true, text)
  | '+' :: text => (false, text)
  | text => (false, text)

/-- The exponent at the end of a number; no text stands for zero. -/
def readExponent? : List Char → Option Int
  | [] => some 0
  | mark :: text =>
    let (negative, digits) := splitSign text
    let exponent : Int := Nat.ofDigitChars 10 digits 0
    if mark.toLower ≠ 'e' ∨ digits.isEmpty ∨ ¬digits.all Char.isDigit then none
    else some (if negative then -exponent else exponent)

/-- The number without sign that a text spells. -/
def ofChars? (text : List Char) : Option Decimal :=
  let whole := text.takeWhile Char.isDigit
  let (fraction, rest) := match text.dropWhile Char.isDigit with
    | '.' :: rest => (rest.takeWhile Char.isDigit, rest.dropWhile Char.isDigit)
    | rest => ([], rest)
  if whole.isEmpty && fraction.isEmpty then none
  else (readExponent? rest).map fun exponent =>
    ⟨Nat.ofDigitChars 10 (whole ++ fraction) 0, exponent - fraction.length⟩

end Decimal

/-- The number nearest to the one that a text spells. -/
def Binary64.ofText? (text : String) : Option Binary64 :=
  let (negative, text) := Decimal.splitSign text.toList
  let word := String.ofList (text.map Char.toLower)
  if word = "nan" then some { nan with negative := negative }
  else if word = "inf" ∨ word = "infinity" then some (infinity negative)
  else (Decimal.ofChars? text).map (Decimal.nearest negative)

/-! ## Writing -/

/-- `count` zeros. -/
def zeros (count : Nat) : String := String.ofList (List.replicate count '0')

namespace Decimal

/-- The exponent of the leading digit. -/
def leading (d : Decimal) : Int := d.exponent + digitCount d.digits - 1

/-- Positional spelling, with at least one digit on each side of the point. -/
def positional (d : Decimal) : String :=
  let digits := Nat.toDigits 10 d.digits
  let whole := (d.leading + 1).toNat
  if d.leading < 0 then "0." ++ zeros (-d.leading - 1).toNat ++ String.ofList digits
  else if digits.length ≤ whole then
    String.ofList digits ++ zeros (whole - digits.length) ++ ".0"
  else String.ofList (digits.take whole) ++ "." ++ String.ofList (digits.drop whole)

/-- Scientific spelling: one digit before the point, and the exponent with its sign. -/
def scientific (d : Decimal) : String :=
  let digits := Nat.toDigits 10 d.digits
  let fraction := digits.drop 1
  String.ofList (digits.take 1)
    ++ (if fraction.isEmpty then "" else "." ++ String.ofList fraction)
    ++ (if d.leading < 0 then "e-" else "e+")
    ++ toString d.leading.natAbs

end Decimal

namespace Binary64

/-- The magnitudes written positionally inside JSON, by the exponent of their leading digit. -/
def positionalInJson (leading : Int) : Bool := -5 ≤ leading && leading ≤ 15

def sign (x : Binary64) : String := if x.negative then "-" else ""

/-- A finite number in JSON. -/
def jsonText (x : Binary64) : String :=
  let d := x.shortest .toEven
  x.sign ++ (if positionalInJson d.leading then d.positional else d.scientific)

/-- A number as a reader sees it. -/
def displayText (x : Binary64) : String :=
  if x.isNaN then "NaN"
  else if !x.isFinite then x.sign ++ "inf"
  else if x.ratio.num % x.ratio.den = 0 then x.sign ++ toString x.ratio.floor ++ ".0"
  else x.sign ++ (x.shortest .up).positional

end Binary64

end RuleEditor
