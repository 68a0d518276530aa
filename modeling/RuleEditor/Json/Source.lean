import RuleEditor.Json.Basic

/-!
# JSON texts as trees that may end early

`Source.read` turns every text into a tree. Where the text stops being JSON, the tree stops too and
records the fault: a collection is *cut* there, and so are the collections around it. A decoder
that walks the tree from left to right therefore meets the first problem of the text first, be it a
fault of spelling or a value of the wrong kind.

**Lenient leaves.** A number beyond the floating point range and a string with half a surrogate
pair are complete pieces of text that no value corresponds to. They fault when they are used and
not when they are skipped.
-/

namespace RuleEditor.Json

/-- Why a text could not be read: it ended too early, it is not JSON, or it is JSON of the wrong
shape. -/
inductive Fault where
  | unexpectedEnd
  | malformed
  | mismatch
  deriving DecidableEq

/-- Where reading stopped, as seen by a decoder that uses the value, by one that skips it, and by
one that expects a name. A name is a string, or the key of an object's only member. -/
structure Cut where
  used : Fault
  skipped : Fault
  named : Fault
  deriving DecidableEq

namespace Cut

/-- The text ended too early. -/
def ended : Cut := ⟨.unexpectedEnd, .unexpectedEnd, .unexpectedEnd⟩

/-- The text is not JSON here. -/
def malformed : Cut := ⟨.malformed, .malformed, .malformed⟩

/-- The text ended inside a number, which only a decoder that uses the number expects to go on. -/
def endedInNumber : Cut := ⟨.unexpectedEnd, .malformed, .malformed⟩

/-- The text ended inside a word. Its first letter is enough to see that it is no name. -/
def endedInWord : Cut := ⟨.unexpectedEnd, .unexpectedEnd, .malformed⟩

/-- The text stops behind a comma, where a name would not have been followed by one. -/
def behindComma (cut : Cut) : Cut := { cut with named := .malformed }

end Cut

/-- A number as it is spelled: `digits * 10 ^ exponent` with a sign. -/
structure Numeral where
  negative : Bool
  digits : Nat
  exponent : Int
  /-- Spelled without a point and without an exponent. -/
  whole : Bool

/-- A JSON text, as far as it is JSON. -/
inductive Source where
  | null
  | bool (value : Bool)
  | number (numeral : Numeral)
  /-- A string, without content if its surrogate escapes do not pair up. -/
  | string (content : Option String)
  | array (items : List Source) (cut : Option Cut)
  | object (members : List (Option String × Source)) (cut : Option Cut)
  | broken (cut : Cut)

namespace Numeral

/-- A whole number is exact if it fits 64 bits, save `-0`, which is a floating point number as
every other spelling is. There is no value beyond the floating point range. -/
def value? (n : Numeral) : Option Number :=
  let signed : Int := if n.negative then -(n.digits : Int) else n.digits
  if h : (n.whole = true ∧ ¬(n.negative = true ∧ n.digits = 0))
      ∧ -0x8000000000000000 ≤ signed ∧ signed < 0x10000000000000000 then
    some (.integer signed h.2)
  else Number.ofBinary64? (Decimal.nearest n.negative ⟨n.digits, n.exponent⟩)

end Numeral

/-! ## Words and numbers -/

/-- The characters between the pieces of a JSON text. -/
def isBlank (c : Char) : Bool := c = ' ' || c = '\t' || c = '\n' || c = '\r'

def skipBlanks (text : List Char) : List Char := text.dropWhile isBlank

/-- Reads the rest of a word whose value is known from its first letter. -/
def readWord (value : Source) : List Char → List Char → Source × List Char
  | [], text => (value, text)
  | _ :: _, [] => (.broken .endedInWord, [])
  | c :: word, d :: text =>
    if c = d then readWord value word text else (.broken .malformed, text)

/-- The digits at the front of a text, or why there are none. -/
def readDigits (text : List Char) : Except Cut (List Char × List Char) :=
  match text.takeWhile Char.isDigit, text with
  | [], [] => .error .endedInNumber
  | [], _ :: _ => .error .malformed
  | digits, _ => .ok (digits, text.dropWhile Char.isDigit)

/-- The digits after the point, if there is a point. -/
def readFraction (text : List Char) : Except Cut (Option (List Char) × List Char) :=
  match text with
  | '.' :: text => (readDigits text).map fun (digits, text) => (some digits, text)
  | text => .ok (none, text)

/-- The exponent, if there is one. -/
def readExponent (text : List Char) : Except Cut (Option Int × List Char) :=
  let digits (sign : Int) (text : List Char) : Except Cut (Option Int × List Char) :=
    (readDigits text).map fun (digits, text) =>
      (some (sign * Nat.ofDigitChars 10 digits 0), text)
  let signed (text : List Char) : Except Cut (Option Int × List Char) :=
    match text with
    | '-' :: text => digits (-1) text
    | '+' :: text => digits 1 text
    | text => digits 1 text
  match text with
  | 'e' :: text => signed text
  | 'E' :: text => signed text
  | text => .ok (none, text)

/-- The number at the front of a text, after its sign. -/
def readNumeral (negative : Bool) (text : List Char) : Except Cut (Numeral × List Char) := do
  let (whole, text) ← readDigits text
  if whole.length ≠ 1 ∧ whole.head? = some '0' then
    throw .malformed
  let (fraction, text) ← readFraction text
  let (exponent, text) ← readExponent text
  let digits := whole ++ fraction.getD []
  return (⟨negative, Nat.ofDigitChars 10 digits 0,
    exponent.getD 0 - (fraction.getD []).length, fraction.isNone && exponent.isNone⟩, text)

/-! ## Strings -/

/-- A piece of a string: a character, or the 16-bit unit of a hexadecimal escape. -/
inductive Piece where
  | char (c : Char)
  | unit (value : Nat)

def isHighSurrogate (unit : Nat) : Bool := 0xD800 ≤ unit && unit < 0xDC00

def isLowSurrogate (unit : Nat) : Bool := 0xDC00 ≤ unit && unit < 0xE000

/-- The characters that the pieces spell, unless a surrogate lacks its partner. -/
def joinPieces : List Piece → Option (List Char)
  | [] => some []
  | .char c :: rest => (joinPieces rest).map (c :: ·)
  | .unit high :: .unit low :: rest =>
    if isHighSurrogate high then
      if isLowSurrogate low then
        (joinPieces rest).map
          (Char.ofNat (0x10000 + (high - 0xD800) * 0x400 + (low - 0xDC00)) :: ·)
      else none
    else if isLowSurrogate high then none
    else (joinPieces (.unit low :: rest)).map (Char.ofNat high :: ·)
  | .unit unit :: rest =>
    if isHighSurrogate unit || isLowSurrogate unit then none
    else (joinPieces rest).map (Char.ofNat unit :: ·)

/-- The value of a hexadecimal digit. -/
def hexDigit? (c : Char) : Option Nat :=
  if '0' ≤ c && c ≤ '9' then some (c.toNat - '0'.toNat)
  else if 'a' ≤ c && c ≤ 'f' then some (c.toNat - 'a'.toNat + 10)
  else if 'A' ≤ c && c ≤ 'F' then some (c.toNat - 'A'.toNat + 10)
  else none

def hexUnit? (a b c d : Char) : Option Nat := do
  let a ← hexDigit? a
  let b ← hexDigit? b
  let c ← hexDigit? c
  let d ← hexDigit? d
  return ((a * 16 + b) * 16 + c) * 16 + d

/-- The character of an escape by a single letter. -/
def letterEscape? : Char → Option Char
  | '"' => some '"'
  | '\\' => some '\\'
  | '/' => some '/'
  | 'b' => some '\x08'
  | 'f' => some '\x0c'
  | 'n' => some '\n'
  | 'r' => some '\r'
  | 't' => some '\t'
  | _ => none

/-- The pieces of a string up to its closing quote, or up to the point where it is cut. -/
def readPieces : List Char → List Piece × Option Cut × List Char
  | [] => ([], some .ended, [])
  | '"' :: text => ([], none, text)
  | '\\' :: 'u' :: a :: b :: c :: d :: text =>
    match hexUnit? a b c d with
    | some unit =>
      let (pieces, cut, rest) := readPieces text
      (.unit unit :: pieces, cut, rest)
    | none => ([], some .malformed, text)
  | '\\' :: 'u' :: text =>
    -- An escape is four bytes long whatever they are.
    ([], some (if (String.ofList text).utf8ByteSize < 4 then .ended else .malformed), [])
  | '\\' :: letter :: text =>
    match letterEscape? letter with
    | some c =>
      let (pieces, cut, rest) := readPieces text
      (.char c :: pieces, cut, rest)
    | none => ([], some .malformed, text)
  | ['\\'] => ([], some .ended, [])
  | c :: text =>
    if c.toNat < 0x20 then ([], some .malformed, text)
    else
      let (pieces, cut, rest) := readPieces text
      (.char c :: pieces, cut, rest)

/-- Whether a surrogate among the pieces lacks its partner for sure, whatever comes after them. -/
def unpaired (pieces : List Piece) : Bool :=
  match pieces.getLast? with
  | some (.unit unit) =>
    if isHighSurrogate unit then (joinPieces pieces.dropLast).isNone
    else (joinPieces pieces).isNone
  | _ => (joinPieces pieces).isNone

/-- A string after its opening quote: its content, or where it is cut. A surrogate without its
partner is found before what cuts the string. -/
def readString (text : List Char) : Except Cut (Option String) × List Char :=
  match readPieces text with
  | (pieces, none, rest) => (.ok ((joinPieces pieces).map String.ofList), rest)
  | (pieces, some cut, rest) =>
    (.error (if unpaired pieces then ⟨.malformed, cut.skipped, .malformed⟩ else cut), rest)

/-! ## Values -/

namespace Source

/-- Where the text ends inside the value. -/
def cut? : Source → Option Cut
  | .array _ cut => cut
  | .object _ cut => cut
  | .broken cut => some cut
  | _ => none

mutual

/-- The value at the front of a text and what is left of the text. Each step takes a character, so
that twice as much fuel as there are characters is enough. -/
def readValue : Nat → List Char → Source × List Char
  | 0, text => (.broken .malformed, text)
  | fuel + 1, text =>
    match skipBlanks text with
    | [] => (.broken .ended, [])
    | 'n' :: text => readWord .null ['u', 'l', 'l'] text
    | 't' :: text => readWord (.bool true) ['r', 'u', 'e'] text
    | 'f' :: text => readWord (.bool false) ['a', 'l', 's', 'e'] text
    | '"' :: text =>
      match readString text with
      | (.ok content, rest) => (.string content, rest)
      | (.error cut, rest) => (.broken cut, rest)
    | '[' :: text =>
      match skipBlanks text with
      | ']' :: rest => (.array [] none, rest)
      | [] => (.array [] (some .ended), [])
      | text =>
        let (items, cut, rest) := readItems fuel text
        (.array items cut, rest)
    | '\x7b' :: text =>
      match skipBlanks text with
      | '\x7d' :: rest => (.object [] none, rest)
      | text =>
        let (members, cut, rest) := readMembers fuel text
        (.object members cut, rest)
    | c :: text =>
      let numeral :=
        if c = '-' then readNumeral true text
        else if c.isDigit then readNumeral false (c :: text)
        else .error .malformed
      match numeral with
      | .ok (numeral, rest) => (.number numeral, rest)
      | .error cut => (.broken cut, text)

/-- The items of an array, from the front of one of them. -/
def readItems : Nat → List Char → List Source × Option Cut × List Char
  | 0, text => ([], some .malformed, text)
  | fuel + 1, text =>
    match readValue fuel text with
    | (item, text) =>
      match item.cut? with
      | some cut => ([item], some cut, text)
      | none =>
        match skipBlanks text with
        | ',' :: text =>
          let (items, cut, rest) := readItems fuel text
          (item :: items, cut, rest)
        | ']' :: rest => ([item], none, rest)
        | [] => ([item], some .ended, [])
        | text => ([item], some .malformed, text)

/-- The members of an object, from the front of one of them. -/
def readMembers : Nat → List Char → List (Option String × Source) × Option Cut × List Char
  | 0, text => ([], some .malformed, text)
  | fuel + 1, text =>
    match skipBlanks text with
    | [] => ([], some .ended, [])
    | '"' :: text =>
      match readString text with
      | (.error cut, rest) => ([], some cut, rest)
      | (.ok key, text) =>
        match skipBlanks text with
        | [] => ([(key, .broken .ended)], some .ended, [])
        | ':' :: text =>
          match readValue fuel text with
          | (value, text) =>
            match value.cut? with
            | some cut => ([(key, value)], some cut, text)
            | none =>
              match skipBlanks text with
              | ',' :: text =>
                let (members, cut, rest) := readMembers fuel text
                ((key, value) :: members, cut.map Cut.behindComma, rest)
              | '\x7d' :: rest => ([(key, value)], none, rest)
              | [] => ([(key, value)], some .ended, [])
              | text => ([(key, value)], some .malformed, text)
        | text => ([(key, .broken .malformed)], some .malformed, text)
    | text => ([], some .malformed, text)

end

/-- The value that a text starts with, and what is left of the text after it. -/
def read (text : String) : Source × List Char :=
  let characters := text.toList
  readValue (2 * characters.length + 2) characters

end Source

end RuleEditor.Json
