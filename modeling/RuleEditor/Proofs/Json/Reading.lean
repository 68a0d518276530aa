import RuleEditor.Json.Decode
import RuleEditor.Proofs.Action
import RuleEditor.Proofs.Json.Number
import RuleEditor.Proofs.Json.Quoted

/-!
# Reading written values

`Json.source` is the tree that the text of a value is read as: the value itself, with its numbers as
they are spelled, and nothing cut. `Json.read_text` says that reading the text gives this tree and
leaves nothing, so that the text is decoded as the tree (`Json.parse_text`).

**What follows.** A value is read in the same way whatever follows it, as long as that ends the
value: nothing, a comma or a closing bracket.

**Fuel.** Every collection opens with a bracket and every item but the last is followed by a comma,
so that fuel for two steps for each character is never used up.
-/

namespace RuleEditor.Json

open Source

mutual

/-- What the text of the value is read as. -/
def source : Json → Source
  | .null => .null
  | .bool b => .bool b
  | .number n => .number n.numeral
  | .string s => .string (some s)
  | .array items => .array (sourceItems items) none
  | .object members => .object (sourceMembers members) none

def sourceItems : List Json → List Source
  | [] => []
  | item :: rest => item.source :: sourceItems rest

def sourceMembers : List (String × Json) → List (Option String × Source)
  | [] => []
  | (key, value) :: rest => (some key, value.source) :: sourceMembers rest

end

theorem cut?_source (json : Json) : json.source.cut? = none := by
  cases json <;> rfl

theorem skipBlanks_cons {c : Char} (solid : isBlank c = false) (text : List Char) :
    skipBlanks (c :: text) = c :: text := by
  rw [skipBlanks, List.dropWhile_cons, solid]
  rfl

/-! ## Scalars -/

variable {fuel : Nat} {rest : List Char}

theorem readValue_string (s : String) :
    readValue (fuel + 1) ((Text.quoteJson s).toList ++ rest) = (.string (some s), rest) := by
  rw [toList_quoteJson, List.cons_append, List.append_assoc, readValue, skipBlanks_cons rfl]
  simp only [List.singleton_append, readString_spelled, String.ofList_toList]

/-- A digit or a minus starts a number. -/
theorem readValue_number {c : Char} {text : List Char} {numeral : Numeral}
    (read : (if c = '-' then readNumeral true text
      else if c.isDigit then readNumeral false (c :: text)
      else .error .malformed) = .ok (numeral, rest)) :
    readValue (fuel + 1) (c :: text) = (.number numeral, rest) := by
  have starts : c = '-' ∨ c.isDigit = true := by
    by_cases minus : c = '-'
    · exact Or.inl minus
    · by_cases digit : c.isDigit = true
      · exact Or.inr digit
      · rw [if_neg minus, if_neg digit] at read
        cases read
  have other {d : Char} (sign : d ≠ '-') (digit : d.isDigit = false) : c ≠ d := by
    rintro rfl
    rcases starts with minus | number
    · exact sign minus
    · rw [digit] at number
      cases number
  have solid : isBlank c = false := by
    simp [isBlank, other (d := ' ') (by decide) rfl, other (d := '\t') (by decide) rfl,
      other (d := '\n') (by decide) rfl, other (d := '\r') (by decide) rfl]
  rw [readValue, skipBlanks_cons solid]
  split
  · next none => cases none
  · next eq => exact absurd (List.cons.inj eq).1 (other (by decide) rfl)
  · next eq => exact absurd (List.cons.inj eq).1 (other (by decide) rfl)
  · next eq => exact absurd (List.cons.inj eq).1 (other (by decide) rfl)
  · next eq => exact absurd (List.cons.inj eq).1 (other (by decide) rfl)
  · next eq => exact absurd (List.cons.inj eq).1 (other (by decide) rfl)
  · next eq => exact absurd (List.cons.inj eq).1 (other (by decide) rfl)
  · next eq =>
    cases eq
    dsimp only
    rw [read]

theorem exists_digit_of_readNumeral {negative : Bool} {text : List Char}
    {result : Numeral × List Char} (read : readNumeral negative text = .ok result) :
    ∃ c more, text = c :: more ∧ c.isDigit = true := by
  obtain ⟨⟨digits, _⟩, whole, -⟩ := Except.bind_eq_ok.1 read
  cases text with
  | nil => cases whole
  | cons c more =>
    refine ⟨c, more, rfl, ?_⟩
    by_cases digit : c.isDigit = true
    · exact digit
    · unfold readDigits at whole
      rw [List.takeWhile_cons_of_neg digit] at whole
      cases whole

theorem readValue_numberText (n : Number) (ends : Ends rest) :
    readValue (fuel + 1) (n.text.toList ++ rest) = (.number n.numeral, rest) := by
  have read := readNumeral_unsigned n ends
  rw [n.toList_text]
  by_cases negative : n.numeral.negative = true
  · rw [if_pos negative, List.append_assoc]
    rw [negative] at read
    exact readValue_number ((if_pos rfl).trans read)
  · rw [if_neg negative, List.nil_append]
    rw [Bool.not_eq_true] at negative
    rw [negative] at read
    obtain ⟨c, more, text, digit⟩ := exists_digit_of_readNumeral read
    rw [text] at read ⊢
    have positive : c ≠ '-' := by
      rintro rfl
      cases digit
    exact readValue_number (((if_neg positive).trans (if_pos digit)).trans read)

/-! ## Texts of collections -/

/-- The characters between the brackets of an array, and those behind the array. -/
def charsItems (items : List Json) (rest : List Char) : List Char :=
  (",".intercalate (textItems items)).toList ++ ']' :: rest

def charsMembers (members : List (String × Json)) (rest : List Char) : List Char :=
  (",".intercalate (textMembers members)).toList ++ '\x7d' :: rest

theorem toList_text_array (items : List Json) (rest : List Char) :
    (Json.array items).text.toList ++ rest = '[' :: charsItems items rest := by
  simp [text, charsItems]

theorem toList_text_object (members : List (String × Json)) (rest : List Char) :
    (Json.object members).text.toList ++ rest = '\x7b' :: charsMembers members rest := by
  simp [text, charsMembers]

theorem charsItems_cons (item : Json) (items : List Json) (rest : List Char) :
    charsItems (item :: items) rest = item.text.toList ++
      (if items.isEmpty then ']' :: rest else ',' :: charsItems items rest) := by
  cases items with
  | nil => simp [charsItems, textItems]
  | cons next items =>
    simp [charsItems, textItems, String.intercalate_cons_cons]

theorem charsMembers_cons (key : String) (value : Json) (members : List (String × Json))
    (rest : List Char) :
    charsMembers ((key, value) :: members) rest =
      (Text.quoteJson key).toList ++ ':' :: (value.text.toList ++
        (if members.isEmpty then '\x7d' :: rest else ',' :: charsMembers members rest)) := by
  cases members with
  | nil => simp [charsMembers, textMembers]
  | cons next members =>
    obtain ⟨key', value'⟩ := next
    simp [charsMembers, textMembers, String.intercalate_cons_cons]

/-- No value starts with a blank or with a closing bracket. -/
theorem exists_first (json : Json) :
    ∃ c more, json.text.toList = c :: more ∧ isBlank c = false ∧ c ≠ ']' := by
  cases json with
  | null => exact ⟨'n', _, rfl, rfl, by decide⟩
  | bool b => cases b <;> exact ⟨_, _, rfl, rfl, by decide⟩
  | number n =>
    have ends : Ends [] := nofun
    obtain ⟨c, more, text, digit⟩ := exists_digit_of_readNumeral (readNumeral_unsigned n ends)
    rw [List.append_nil] at text
    have written : (Json.number n).text.toList = _ := n.toList_text
    rw [written, text]
    by_cases negative : n.numeral.negative = true
    · exact ⟨'-', c :: more, by rw [if_pos negative]; rfl, rfl, by decide⟩
    · refine ⟨c, more, by rw [if_neg negative]; rfl, ?_, ?_⟩
      · have other {d : Char} (letter : d.isDigit = false) : c ≠ d := by
          rintro rfl
          rw [letter] at digit
          cases digit
        simp [isBlank, other (d := ' ') rfl, other (d := '\t') rfl, other (d := '\n') rfl,
          other (d := '\r') rfl]
      · rintro rfl
        cases digit
  | string s => exact ⟨'"', _, toList_quoteJson s, rfl, by decide⟩
  | array items =>
    have written := toList_text_array items []
    rw [List.append_nil] at written
    exact ⟨'[', _, written, rfl, by decide⟩
  | object members =>
    have written := toList_text_object members []
    rw [List.append_nil] at written
    exact ⟨'\x7b', _, written, rfl, by decide⟩

theorem exists_fuel {json : Json} {fuel : Nat} (enough : 2 * json.text.toList.length ≤ fuel) :
    ∃ less, fuel = less + 1 := by
  obtain ⟨c, more, written, -⟩ := exists_first json
  rw [written, List.length_cons] at enough
  exact ⟨fuel - 1, by omega⟩

theorem length_charsItems_cons (item : Json) (items : List Json) :
    (charsItems (item :: items) []).length = item.text.toList.length +
      (if items.isEmpty then 1 else 1 + (charsItems items []).length) := by
  rw [charsItems_cons, List.length_append]
  split <;> simp [Nat.add_comm]

theorem length_charsMembers_cons (key : String) (value : Json) (members : List (String × Json)) :
    (charsMembers ((key, value) :: members) []).length =
      (Text.quoteJson key).toList.length + 1 + value.text.toList.length +
        (if members.isEmpty then 1 else 1 + (charsMembers members []).length) := by
  rw [charsMembers_cons]
  split <;> simp <;> omega

/-! ## Reading -/

theorem ends_cons {c : Char} (closes : c ∈ [',', ']', '\x7d']) (text : List Char) :
    Ends (c :: text) := by
  rintro _ ⟨⟩
  exact closes

/-- After the bracket that opens an array come its items, unless there are none. -/
theorem readValue_array {items : List Json}
    (read : items ≠ [] → readItems fuel (charsItems items rest) = (sourceItems items, none, rest)) :
    readValue (fuel + 1) ('[' :: charsItems items rest) =
      (.array (sourceItems items) none, rest) := by
  rw [readValue, skipBlanks_cons rfl]
  cases items with
  | nil => rfl
  | cons item items =>
    have read := read nofun
    obtain ⟨c, more, written, solid, opens⟩ := exists_first item
    rw [charsItems_cons, written, List.cons_append] at read ⊢
    simp only [skipBlanks_cons solid]
    split
    · next eq => exact absurd (List.cons.inj eq).1 opens
    · next none => cases none
    · rw [read]

theorem readValue_object {members : List (String × Json)}
    (read : members ≠ [] →
      readMembers fuel (charsMembers members rest) = (sourceMembers members, none, rest)) :
    readValue (fuel + 1) ('\x7b' :: charsMembers members rest) =
      (.object (sourceMembers members) none, rest) := by
  rw [readValue, skipBlanks_cons rfl]
  cases members with
  | nil => rfl
  | cons member members =>
    obtain ⟨key, value⟩ := member
    have read := read nofun
    rw [charsMembers_cons, toList_quoteJson, List.cons_append] at read ⊢
    simp only [skipBlanks_cons (c := '"') rfl]
    split
    · next eq => cases eq
    · rw [read]

mutual

theorem readValue_text : ∀ (json : Json) (fuel : Nat) {rest : List Char}, Ends rest →
    2 * json.text.toList.length ≤ fuel →
      readValue fuel (json.text.toList ++ rest) = (json.source, rest)
  | .null, fuel, rest, ends, enough => by
    obtain ⟨fuel, rfl⟩ := exists_fuel enough
    rfl
  | .bool b, fuel, rest, ends, enough => by
    obtain ⟨fuel, rfl⟩ := exists_fuel enough
    cases b <;> rfl
  | .number n, fuel, rest, ends, enough => by
    obtain ⟨fuel, rfl⟩ := exists_fuel enough
    exact readValue_numberText n ends
  | .string s, fuel, rest, ends, enough => by
    obtain ⟨fuel, rfl⟩ := exists_fuel enough
    exact readValue_string s
  | .array items, fuel, rest, ends, enough => by
    obtain ⟨fuel, rfl⟩ := exists_fuel enough
    have length := congrArg List.length (toList_text_array items [])
    rw [List.append_nil, List.length_cons] at length
    rw [toList_text_array]
    exact readValue_array fun some => readItems_text items fuel rest some (by omega)
  | .object members, fuel, rest, ends, enough => by
    obtain ⟨fuel, rfl⟩ := exists_fuel enough
    have length := congrArg List.length (toList_text_object members [])
    rw [List.append_nil, List.length_cons] at length
    rw [toList_text_object]
    exact readValue_object fun some => readMembers_text members fuel rest some (by omega)

theorem readItems_text : ∀ (items : List Json) (fuel : Nat) (rest : List Char), items ≠ [] →
    2 * (charsItems items []).length ≤ fuel + 1 →
      readItems fuel (charsItems items rest) = (sourceItems items, none, rest)
  | item :: items, fuel, rest, _, enough => by
    have length := length_charsItems_cons item items
    obtain ⟨fuel, rfl⟩ : ∃ less, fuel = less + 1 := ⟨fuel - 1, by split at length <;> omega⟩
    rw [charsItems_cons, readItems]
    cases items with
    | nil =>
      rw [List.isEmpty_nil, if_pos rfl] at length
      have item' := readValue_text item fuel (ends_cons (c := ']') (by decide) rest) (by omega)
      simp [item', cut?_source, skipBlanks_cons, sourceItems, isBlank]
    | cons next items =>
      rw [List.isEmpty_cons, if_neg Bool.false_ne_true] at length
      have item' := readValue_text item fuel
        (ends_cons (c := ',') (by decide) (charsItems (next :: items) rest)) (by omega)
      have later := readItems_text (next :: items) fuel rest nofun (by omega)
      simp [item', later, cut?_source, skipBlanks_cons, sourceItems, isBlank]

theorem readMembers_text : ∀ (members : List (String × Json)) (fuel : Nat) (rest : List Char),
    members ≠ [] → 2 * (charsMembers members []).length ≤ fuel + 1 →
      readMembers fuel (charsMembers members rest) = (sourceMembers members, none, rest)
  | (key, value) :: members, fuel, rest, _, enough => by
    have length := length_charsMembers_cons key value members
    obtain ⟨fuel, rfl⟩ : ∃ less, fuel = less + 1 := ⟨fuel - 1, by split at length <;> omega⟩
    rw [charsMembers_cons, toList_quoteJson, readMembers]
    cases members with
    | nil =>
      rw [List.isEmpty_nil, if_pos rfl] at length
      have value' := readValue_text value fuel (ends_cons (c := '\x7d') (by decide) rest) (by omega)
      simp [value', cut?_source, skipBlanks_cons, sourceMembers, isBlank, readString_spelled]
    | cons next members =>
      rw [List.isEmpty_cons, if_neg Bool.false_ne_true] at length
      have value' := readValue_text value fuel
        (ends_cons (c := ',') (by decide) (charsMembers (next :: members) rest)) (by omega)
      have later := readMembers_text (next :: members) fuel rest nofun (by omega)
      simp [value', later, cut?_source, skipBlanks_cons, sourceMembers, isBlank, readString_spelled]

end

/-- **The text of a value is read as the tree of the value.** -/
theorem read_text (json : Json) : Source.read json.text = (json.source, []) := by
  have ends : Ends [] := nofun
  have whole := readValue_text json (2 * json.text.toList.length + 2) ends (by omega)
  rwa [List.append_nil] at whole

theorem parse_text {α : Type} (decode : Source → Except Fault α) (json : Json) :
    parse decode json.text = decode json.source := by
  rw [parse, read_text]
  show (decode json.source >>= fun value => pure value) = _
  exact bind_pure _

end RuleEditor.Json
