import RuleEditor.Json.Decode

/-!
# Paths

A path leads from the root of a tree to one of its nodes, a segment for each step.

**Text.** The text of a path is `root` and then, for each segment, `.children.` with the position
or `.namedChildren.` with the key. `Path.parse` reads it back. Positions fit 64 bits, may be
written with zeros in front, and keys are not empty and hold no point: a path with another key can
be written and not read. What cannot be read is reported with the length in bytes of the part
that can.

**Order.** Paths are ordered segment by segment, positions before keys.
-/

namespace RuleEditor

/-- A step from a node to one of its operands. -/
inductive Segment where
  | child (index : Nat)
  | named (key : String)
  deriving DecidableEq

abbrev Path := List Segment

/-! ## Text -/

namespace Segment

def text : Segment → String
  | .child index => "children." ++ toString index
  | .named key => "namedChildren." ++ key

/-- Positions come before keys. -/
def compare : Segment → Segment → Ordering
  | .child a, .child b => Ord.compare a b
  | .child _, .named _ => .lt
  | .named _, .child _ => .gt
  | .named a, .named b => Ord.compare a b

end Segment

namespace Path

def root : Path := []

def child (path : Path) (index : Nat) : Path := path ++ [.child index]

def named (path : Path) (key : String) : Path := path ++ [.named key]

def isRoot (path : Path) : Bool := path.isEmpty

def parent? (path : Path) : Option Path := if path.isEmpty then none else some path.dropLast

def last? (path : Path) : Option Segment := path.getLast?

/-- Whether the path leads through the node that `other` leads to. -/
def startsWith (path other : Path) : Bool := other.isPrefixOf path

def compare : Path → Path → Ordering
  | [], [] => .eq
  | [], _ :: _ => .lt
  | _ :: _, [] => .gt
  | a :: as, b :: bs => (Segment.compare a b).then (compare as bs)

/-- The text of some segments, each behind a point. -/
def segmentsText : List Segment → String
  | [] => ""
  | segment :: rest => "." ++ segment.text ++ segmentsText rest

def text (path : Path) : String := "root" ++ segmentsText path

def json (path : Path) : Json := .string path.text

/-! ## Reading -/

/-- What is left of a text after a word at its front. -/
def after? (word text : List Char) : Option (List Char) :=
  if word.isPrefixOf text then some (text.drop word.length) else none

/-- The segment at the front of a text, with its point, and the rest of the text. -/
def readSegment? (text : List Char) : Option (Segment × List Char) :=
  match after? ".children.".toList text with
  | some text =>
    let digits := text.takeWhile Char.isDigit
    let index := Nat.ofDigitChars 10 digits 0
    if digits.isEmpty || UInt64.size ≤ index then none
    else some (.child index, text.dropWhile Char.isDigit)
  | none =>
    match after? ".namedChildren.".toList text with
    | some text =>
      let key := text.takeWhile (· ≠ '.')
      if key.isEmpty then none
      else some (.named (String.ofList key), text.dropWhile (· ≠ '.'))
    | none => none

/-- The longest run of segments at the front of a text, at most `fuel` of them. -/
def readSegments : Nat → List Char → List Segment × List Char
  | 0, text => ([], text)
  | fuel + 1, text =>
    match readSegment? text with
    | some (segment, text) =>
      let (segments, rest) := readSegments fuel text
      (segment :: segments, rest)
    | none => ([], text)

/-- Why a text is not that of a path. -/
inductive ParseError where
  /-- It does not begin with `root`. -/
  | notRooted (input : String)
  /-- From this byte on it holds no segments. -/
  | trailing (input : String) (offset : Nat)
  deriving DecidableEq

namespace ParseError

def input : ParseError → String
  | .notRooted input => input
  | .trailing input _ => input

/-- The number of bytes read before the problem. -/
def offset : ParseError → Nat
  | .notRooted _ => 0
  | .trailing _ offset => offset

/-- What the problem is, apart from its place. -/
def reason : ParseError → String
  | .notRooted _ => "Backtrack(ContextError \x7b context: [], cause: None \x7d)"
  | .trailing _ _ => "unexpected trailing input"

def message (error : ParseError) : String :=
  error.reason ++ " (offset " ++ toString error.offset ++ " in " ++ Text.quoteCited error.input
    ++ ")"

end ParseError

/-- The path that a text spells. -/
def parse (input : String) : Except ParseError Path :=
  match after? "root".toList input.toList with
  | none => .error (.notRooted input)
  | some text =>
    let (segments, rest) := readSegments text.length text
    if rest.isEmpty then .ok segments
    else .error (.trailing input (input.utf8ByteSize - (String.ofList rest).utf8ByteSize))

end Path

end RuleEditor
