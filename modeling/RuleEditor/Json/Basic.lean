import RuleEditor.Binary64.Text
import RuleEditor.Text.Quoted

/-!
# JSON values and their text

**Numbers.** A whole number is kept exactly while it fits 64 bits, signed or unsigned; every other
number is a finite 64-bit floating point number.

**Objects.** The members of an object stay in the order given. `Json.sorted` sorts them by key.

**Text.** `Json.text` writes a value without any space.
-/

namespace RuleEditor

namespace Json

/-- A JSON number. -/
inductive Number where
  | integer (value : Int)
    (inRange : -0x8000000000000000 ≤ value ∧ value < 0x10000000000000000)
  | real (value : Binary64) (finite : value.isFinite = true)
  deriving DecidableEq

end Json

/-- A JSON value. -/
inductive Json where
  | null
  | bool (value : Bool)
  | number (value : Json.Number)
  | string (value : String)
  | array (items : List Json)
  | object (members : List (String × Json))
  deriving Inhabited

namespace Json

/-! ## Numbers -/

namespace Number

def text : Number → String
  | .integer n _ => toString n
  | .real x _ => x.jsonText

/-- The whole number of a signed 64-bit word. -/
def ofInt64 (n : Int64) : Number :=
  .integer n.toInt ⟨Int64.le_toInt n, Int.lt_trans (Int64.toInt_lt n) (by decide)⟩

/-- The whole number of an unsigned 64-bit word. -/
def ofUInt64 (n : UInt64) : Number :=
  .integer n.toNat ⟨by omega, by have := n.toNat_lt; omega⟩

/-- The number, if JSON can write it. -/
def ofBinary64? (x : Binary64) : Option Number :=
  if h : x.isFinite = true then some (.real x h) else none

end Number

/-! ## Text -/

mutual

def text : Json → String
  | .null => "null"
  | .bool true => "true"
  | .bool false => "false"
  | .number n => n.text
  | .string s => Text.quoteJson s
  | .array items => "[" ++ ",".intercalate (textItems items) ++ "]"
  | .object members => "\x7b" ++ ",".intercalate (textMembers members) ++ "\x7d"

def textItems : List Json → List String
  | [] => []
  | item :: rest => item.text :: textItems rest

def textMembers : List (String × Json) → List String
  | [] => []
  | (key, value) :: rest => (Text.quoteJson key ++ ":" ++ value.text) :: textMembers rest

end

/-! ## Sorted members -/

/-- Stores a member at its place in a list sorted by key. -/
def storeSorted (key : String) (value : Json) : List (String × Json) → List (String × Json)
  | [] => [(key, value)]
  | (k, v) :: rest =>
    if key < k then (key, value) :: (k, v) :: rest
    else if k = key then (key, value) :: rest
    else (k, v) :: storeSorted key value rest

/-- The object of the given members, sorted by key; of members with the same key the last stays. -/
def sorted (members : List (String × Json)) : Json :=
  .object (members.foldl (fun sorted (key, value) => storeSorted key value sorted) [])

end Json

end RuleEditor
