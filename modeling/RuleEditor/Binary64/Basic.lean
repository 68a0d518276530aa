/-!
# Binary floating point numbers

The 64-bit binary numbers of IEEE 754, as a sign and a magnitude. Rules store, compare, read and
print such numbers and never calculate with them, so the magnitude is kept as the 63 bits below
the sign. Read as a natural number these bits order the magnitudes: zero, the subnormal and the
normal numbers, infinity (`limit`), and above it the patterns that are not a number.

**Value.** A finite number is `significand * 2 ^ power` with its sign.

**Equality.** `equal` compares numbers: the two zeros are equal, and what is not a number equals
nothing. Equality of the structure compares bit patterns.
-/

namespace RuleEditor

/-- A 64-bit binary floating point number. -/
structure Binary64 where
  negative : Bool
  /-- The 63 bits below the sign: 11 of exponent, then 52 of fraction. -/
  magnitude : Fin 0x8000000000000000
  deriving DecidableEq

namespace Binary64

/-- The magnitude of infinity: every exponent bit set, no fraction bit set. -/
def limit : Nat := 0x7FF0000000000000

/-- The lowest exponent bit, and the implicit leading bit of a normal number. -/
def unit : Nat := 0x10000000000000

def zero : Binary64 := ⟨false, ⟨0, by decide⟩⟩

def infinity (negative : Bool) : Binary64 := ⟨negative, ⟨limit, by decide⟩⟩

/-- The pattern with the highest fraction bit. -/
def nan : Binary64 := ⟨false, ⟨0x7FF8000000000000, by decide⟩⟩

def isFinite (x : Binary64) : Bool := x.magnitude.val < limit

def isNaN (x : Binary64) : Bool := limit < x.magnitude.val

def isZero (x : Binary64) : Bool := x.magnitude.val = 0

/-- The bit pattern, with the sign on top. -/
def bits (x : Binary64) : Nat :=
  (if x.negative then 0x8000000000000000 else 0) + x.magnitude.val

/-- Equality of numbers. -/
def equal (x y : Binary64) : Bool := !x.isNaN && (x = y || x.isZero && y.isZero)

/-- A normal number has an implicit leading bit above its fraction. -/
def significand (x : Binary64) : Nat :=
  if x.magnitude.val < unit then x.magnitude.val else unit + x.magnitude.val % unit

def power (x : Binary64) : Int :=
  if x.magnitude.val < unit then -1074 else (x.magnitude.val / unit : Nat) - 1075

end Binary64

end RuleEditor
