import RuleEditor.Json.Source

/-!
# Reading quoted strings

Every character of a quoted string is read back as one piece, whatever follows, and a piece that
comes from a quoted character is never half of a surrogate pair, so that the pieces join to the
string. Hence a quoted string is read up to its closing quote and is the string that was quoted.
-/

namespace RuleEditor.Json

/-- A piece that stands for a character on its own. -/
def Piece.Spells (piece : Piece) (c : Char) : Prop :=
  ∀ pieces, joinPieces (piece :: pieces) = (joinPieces pieces).map (c :: ·)

theorem spells_char (c : Char) : (Piece.char c).Spells c := fun _ => rfl

/-- A control character is no surrogate. -/
theorem spells_unit {c : Char} (control : c.toNat < 0x20) : (Piece.unit c.toNat).Spells c := by
  have high : isHighSurrogate c.toNat = false := by
    rw [isHighSurrogate, Bool.and_eq_false_iff]
    exact Or.inl (decide_eq_false (by omega))
  have low : isLowSurrogate c.toNat = false := by
    rw [isLowSurrogate, Bool.and_eq_false_iff]
    exact Or.inl (decide_eq_false (by omega))
  intro pieces
  cases pieces with
  | nil => simp [joinPieces, high, low]
  | cons piece pieces =>
    cases piece with
    | char d => simp [joinPieces, high, low]
    | unit unit =>
      rw [joinPieces, high, low]
      simp

theorem hexUnit?_control : ∀ n < 0x20,
    hexUnit? '0' '0' (Nat.digitChar (n / 16)) (Nat.digitChar (n % 16)) = some n := by
  decide

theorem toList_hexadecimal_small {n : Nat} (small : n < 16) :
    (Text.hexadecimal n).toList = [Nat.digitChar n] := by
  rw [Text.hexadecimal, String.toList_ofList, Nat.toDigits_of_lt_base small]

theorem toList_hexadecimal_large {n : Nat} (large : 16 ≤ n) (bound : n < 256) :
    (Text.hexadecimal n).toList = [Nat.digitChar (n / 16), Nat.digitChar (n % 16)] := by
  rw [Text.hexadecimal, String.toList_ofList, Nat.toDigits_of_base_le (by decide) large,
    Nat.toDigits_of_lt_base (by omega)]
  rfl

/-- A control character is written as the four digits of its number. -/
theorem readPieces_control {c : Char} (control : c.toNat < 0x20) (text : List Char) :
    readPieces ('\\' :: 'u' :: '0' :: '0' :: Nat.digitChar (c.toNat / 16) ::
      Nat.digitChar (c.toNat % 16) :: text) =
        (.unit c.toNat :: (readPieces text).1, (readPieces text).2) := by
  rw [readPieces, hexUnit?_control c.toNat control]

/-- Any other character is written as it is. -/
theorem readPieces_printable {c : Char} (quote : c ≠ '"') (backslash : c ≠ '\\')
    (printable : ¬c.toNat < 0x20) (text : List Char) :
    readPieces (c :: text) = (.char c :: (readPieces text).1, (readPieces text).2) := by
  generalize result : readPieces text = pieces
  unfold readPieces
  split
  · next none => cases none
  · next eq => exact absurd (List.cons.inj eq).1 quote
  · next eq => exact absurd (List.cons.inj eq).1 backslash
  · next eq => exact absurd (List.cons.inj eq).1 backslash
  · next eq => exact absurd (List.cons.inj eq).1 backslash
  · next eq => exact absurd (List.cons.inj eq).1 backslash
  · next eq =>
    cases eq
    rw [if_neg printable, result]

theorem exists_piece (c : Char) : ∃ piece : Piece, piece.Spells c ∧ ∀ text,
    readPieces ((Text.spellJson c).toList ++ text) =
      (piece :: (readPieces text).1, (readPieces text).2) := by
  unfold Text.spellJson
  split
  · exact ⟨.char '"', spells_char _, fun _ => rfl⟩
  · exact ⟨.char '\\', spells_char _, fun _ => rfl⟩
  · exact ⟨.char '\x08', spells_char _, fun _ => rfl⟩
  · exact ⟨.char '\x0c', spells_char _, fun _ => rfl⟩
  · exact ⟨.char '\n', spells_char _, fun _ => rfl⟩
  · exact ⟨.char '\r', spells_char _, fun _ => rfl⟩
  · exact ⟨.char '\t', spells_char _, fun _ => rfl⟩
  · next quote backslash _ _ _ _ _ =>
    split
    · next small =>
      refine ⟨.unit c.toNat, spells_unit (by omega), fun text => ?_⟩
      have read := readPieces_control (c := c) (by omega) text
      rw [Nat.div_eq_of_lt small, Nat.mod_eq_of_lt small] at read
      rw [String.toList_append, toList_hexadecimal_small small]
      exact read
    · split
      · next large control =>
        refine ⟨.unit c.toNat, spells_unit control, fun text => ?_⟩
        rw [String.toList_append, toList_hexadecimal_large (by omega) (by omega)]
        exact readPieces_control control text
      · next printable =>
        refine ⟨.char c, spells_char c, fun text => ?_⟩
        rw [show c.toString.toList = [c] from String.toList_singleton c]
        exact readPieces_printable quote backslash printable text

/-- **A quoted string is read back**, from behind its opening quote. -/
theorem readString_spelled (characters rest : List Char) :
    readString (characters.flatMap (fun c => (Text.spellJson c).toList) ++ '"' :: rest) =
      (.ok (some (String.ofList characters)), rest) := by
  have pieces : ∃ pieces, joinPieces pieces = some characters ∧
      readPieces (characters.flatMap (fun c => (Text.spellJson c).toList) ++ '"' :: rest) =
        (pieces, none, rest) := by
    induction characters with
    | nil => exact ⟨[], rfl, rfl⟩
    | cons c characters ih =>
      obtain ⟨pieces, joined, read⟩ := ih
      obtain ⟨piece, spells, taken⟩ := exists_piece c
      refine ⟨piece :: pieces, ?_, ?_⟩
      · rw [spells, joined]
        rfl
      · rw [List.flatMap_cons, List.append_assoc, taken, read]
  obtain ⟨pieces, joined, read⟩ := pieces
  rw [readString, read]
  simp [joined]

theorem toList_quoteJson (s : String) : (Text.quoteJson s).toList =
    '"' :: (s.toList.flatMap (fun c => (Text.spellJson c).toList) ++ ['"']) := by
  simp [Text.quoteJson, Text.quoteWith, String.toList_join, List.flatMap_map]

end RuleEditor.Json
