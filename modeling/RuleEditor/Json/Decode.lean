import RuleEditor.Json.Source
import RuleEditor.Keyed

/-!
# Decoding JSON texts

A decoder turns a `Source` into a value of some type, or gives the first fault from the left.

**Kinds.** A value of the wrong kind is a mismatch as soon as its kind is known: at the bracket of
a collection, at the end of anything else.

**Nesting.** `room` is the number of brackets that may still be opened. Opening one more makes the
text malformed, but a bracket of the wrong kind is a mismatch before it is opened. Values that are
skipped may nest without limit.

**Records.** A record is an object whose members are told apart by key, or an array of its fields
in order. Unknown members are skipped, a repeated one is a mismatch, and so is, once the closing
bracket is reached, a required one that is missing.
-/

namespace RuleEditor.Json

/-- The number of brackets that may be open at once. -/
def maxDepth : Nat := 127

namespace Source

/-- The fault of a value whose kind is not the expected one. -/
def otherKind : Source → Fault
  | .broken cut => cut.used
  | .number numeral => if numeral.value?.isSome then .mismatch else .malformed
  | .string none => .malformed
  | _ => .mismatch

/-- Fails where a collection is cut. -/
def close (cut : Option Cut) : Except Fault Unit :=
  match cut with
  | none => .ok ()
  | some cut => .error cut.used

/-! ## Scalars -/

def text : Source → Except Fault String
  | .string (some content) => .ok content
  | source => .error source.otherKind

def flag : Source → Except Fault Bool
  | .bool b => .ok b
  | source => .error source.otherKind

/-- An unsigned 64-bit word. -/
def word : Source → Except Fault UInt64
  | .number numeral =>
    match numeral.value? with
    | some (.integer n _) => if 0 ≤ n then .ok (UInt64.ofNat n.toNat) else .error .mismatch
    | some (.real _ _) => .error .mismatch
    | none => .error .malformed
  | source => .error source.otherKind

/-- Nothing, written as null, or a value. -/
def optional {α : Type} (decode : Source → Except Fault α) : Source → Except Fault (Option α)
  | .null => .ok none
  | source => (decode source).map some

/-! ## Skipped values -/

mutual

/-- Passes over a value, which need only be JSON. -/
def skip : Source → Except Fault Unit
  | .array items cut => do
    skipItems items
    skipCut cut
  | .object members cut => do
    skipMembers members
    skipCut cut
  | .broken cut => .error cut.skipped
  | _ => .ok ()

def skipItems : List Source → Except Fault Unit
  | [] => .ok ()
  | item :: rest => do
    skip item
    skipItems rest

def skipMembers : List (Option String × Source) → Except Fault Unit
  | [] => .ok ()
  | (_, value) :: rest => do
    skip value
    skipMembers rest

def skipCut : Option Cut → Except Fault Unit
  | none => .ok ()
  | some cut => .error cut.skipped

end

/-! ## Values of any shape -/

/-- The key of a member, which has to be a well-formed string. -/
def keyText : Option String → Except Fault String
  | some key => .ok key
  | none => .error .malformed

mutual

/-- A value of any shape, its objects sorted by key. -/
def json (room : Nat) : Source → Except Fault Json
  | .null => .ok .null
  | .bool b => .ok (.bool b)
  | .number numeral =>
    match numeral.value? with
    | some n => .ok (.number n)
    | none => .error .malformed
  | .string (some content) => .ok (.string content)
  | .string none => .error .malformed
  | .array items cut =>
    match room with
    | 0 => .error .malformed
    | room + 1 => do
      let items ← jsonItems room items
      close cut
      return .array items
  | .object members cut =>
    match room with
    | 0 => .error .malformed
    | room + 1 => do
      let members ← jsonMembers room members
      close cut
      return sorted members
  | .broken cut => .error cut.used

def jsonItems (room : Nat) : List Source → Except Fault (List Json)
  | [] => .ok []
  | item :: rest => do
    let item ← json room item
    let rest ← jsonItems room rest
    return item :: rest

def jsonMembers (room : Nat) : List (Option String × Source) → Except Fault (List (String × Json))
  | [] => .ok []
  | (key, value) :: rest => do
    let key ← keyText key
    let value ← json room value
    let rest ← jsonMembers room rest
    return (key, value) :: rest

end

/-! ## Collections -/

/-- An array of values of one kind. -/
def list {α : Type} (decode : Source → Except Fault α) : Source → Except Fault (List α)
  | .array items cut => do
    let values ← items.mapM decode
    close cut
    return values
  | source => .error source.otherKind

/-- An object of values of one kind, in the order of its members. A repeated key keeps its first
place and takes the last value. -/
def entries {α : Type} (decode : Source → Except Fault α) :
    Source → Except Fault (List (String × α))
  | .object members cut => do
    let values ← members.mapM fun (key, value) => do
      let key ← keyText key
      let value ← decode value
      return (key, value)
    close cut
    return values.foldl (fun stored (key, value) => Entries.store key value stored) []
  | source => .error source.otherKind

/-- An object of values of one kind as a table. -/
def keyed {α : Type} (decode : Source → Except Fault α) : Source → Except Fault (Keyed String α)
  | source => (entries decode source).map Keyed.ofList

/-! ## Records -/

/-- A field of a record of type `σ`: how its value changes the record read so far. -/
structure Field (σ : Type) where
  key : String
  /-- Without this field there is no record. -/
  required : Bool
  decode : Source → Except Fault (σ → σ)

/-- A field whose value is stored by `set`. -/
def field {σ α : Type} (key : String) (decode : Source → Except Fault α) (set : α → σ → σ) :
    Field σ :=
  ⟨key, false, fun source => (decode source).map set⟩

/-- A field that has to be there. -/
def requiredField {σ α : Type} (key : String) (decode : Source → Except Fault α)
    (set : α → σ → σ) : Field σ :=
  ⟨key, true, fun source => (decode source).map set⟩

/-- Takes in one member of an object. `seen` holds the keys of the fields read before. -/
def recordMember {σ : Type} (fields : List (Field σ)) (state : σ × List String)
    (member : Option String × Source) : Except Fault (σ × List String) := do
  let (record, seen) := state
  let key ← keyText member.1
  match fields.find? (·.key = key) with
  | none =>
    skip member.2
    return (record, seen)
  | some field =>
    if key ∈ seen then
      throw .mismatch
    let set ← field.decode member.2
    return (set record, key :: seen)

/-- Takes in the items of an array as the fields of a record in order. -/
def recordItems {σ : Type} (cut : Option Cut) : List (Field σ) → List Source → σ → Except Fault σ
  | [], [], record => do
    close cut
    return record
  | [], _ :: _, _ => .error .malformed
  | field :: fields, item :: items, record => do
    let set ← field.decode item
    recordItems cut fields items (set record)
  | field :: fields, [], record => do
    close cut
    if field.required then
      throw .mismatch
    recordItems cut fields [] record

/-- A record, starting from the values that its fields have when they are missing. -/
def record {σ : Type} (fields : List (Field σ)) (blank : σ) : Source → Except Fault σ
  | .object members cut => do
    let (record, seen) ← members.foldlM (recordMember fields) (blank, [])
    close cut
    if fields.any fun field => field.required && !(field.key ∈ seen) then
      throw .mismatch
    return record
  | .array items cut => recordItems cut fields items blank
  | source => .error source.otherKind

/-! ## No room left

What `list`, `entries` and `record` are where no bracket may be opened any more. -/

def unopenedList {α : Type} : Source → Except Fault (List α)
  | .array _ _ => .error .malformed
  | source => .error source.otherKind

def unopenedEntries {α : Type} : Source → Except Fault (List (String × α))
  | .object _ _ => .error .malformed
  | source => .error source.otherKind

def unopenedRecord {σ : Type} : Source → Except Fault σ
  | .array _ _ => .error .malformed
  | .object _ _ => .error .malformed
  | source => .error source.otherKind

/-! ## Records within records -/

/-- Splits an object into the value of `key` and the other members. The others are read whole, of
any shape, before anything is made of them. -/
def splitMember {α : Type} (room : Nat) (key : String) (decode : Source → Except Fault α) :
    Source → Except Fault (α × List (Option String × Source))
  | .object members cut => do
    let take (state : Option α × List (Option String × Source))
        (member : Option String × Source) :
        Except Fault (Option α × List (Option String × Source)) := do
      let (found, others) := state
      let name ← keyText member.1
      if name = key then
        if found.isSome then
          throw .mismatch
        let value ← decode member.2
        return (some value, others)
      else
        let _ ← json room member.2
        return (found, others ++ [member])
    let (found, others) ← members.foldlM take (none, [])
    close cut
    match found with
    | some value => return (value, others)
    | none => throw .mismatch
  | source => .error source.otherKind

/-- A record written among the members of another one. Its members have been read before, so
that every fault left is a mismatch. -/
def embedded {σ : Type} (fields : List (Field σ)) (blank : σ)
    (members : List (Option String × Source)) : Except Fault σ :=
  match record fields blank (.object members none) with
  | .ok record => .ok record
  | .error _ => .error .mismatch

/-! ## Names -/

/-- One of the given names, written as a string or as the key of an object around null. -/
def choice {α : Type} (named? : String → Option α) : Source → Except Fault α
  | .string (some name) => named name
  | .string none => .error .malformed
  | .object members cut =>
    match members with
    | [] =>
      match cut with
      | some cut => .error cut.named
      | none => .error .malformed
    | (key, value) :: rest => do
      let name ← keyText key
      let chosen ← named name
      match value with
      | .null =>
        match rest, cut with
        | [], none => return chosen
        | [], some cut => throw cut.named
        | _ :: _, _ => throw .malformed
      | value => throw value.otherKind
  | .broken cut => .error cut.named
  | _ => .error .malformed
where
  named (name : String) : Except Fault α :=
    match named? name with
    | some value => .ok value
    | none => .error .mismatch

end Source

/-! ## Texts -/

/-- Decodes a text that holds one value and nothing else but blanks. -/
def parse {α : Type} (decode : Source → Except Fault α) (text : String) : Except Fault α := do
  let (source, rest) := Source.read text
  let value ← decode source
  if (skipBlanks rest).isEmpty then return value else throw .malformed

end RuleEditor.Json
