import RuleEditor.Path.Basic
import RuleEditor.Proofs.Json.Number

/-!
# Reading the text of a path

**Grammar.** `Segment.WrittenAs` lists the ways to write a segment, with the point in front of it;
an index may have zeros in front. The text of a path is `root` and then such pieces.

**Where a segment ends.** A piece says where it ends only together with what follows it: a key goes
on up to the next point, and an index as far as there are digits (`Segment.Ends`). So the pieces at
the front of a text are found one by one, each as long as it can be, and no other way to cut the
text goes further (`length_rest_le`). A text whose digits go beyond 64 bits has no index there at
all, not one made of some of its digits (`offset_before_large_index`).

**Reading.** `Path.parse` accepts the texts of the grammar and no others, each cut in one way only;
it gives back every path that can be written so that it can be read; and where it stops is the end
of the longest run of segments whose indices take all digits that stand there.
-/

namespace RuleEditor

/-! ## Grammar -/

namespace Segment

/-- The ways to write a segment. -/
inductive WrittenAs : Segment → List Char → Prop
  | child {digits : List Char} (some : digits ≠ []) (decimal : ∀ c ∈ digits, c.isDigit = true)
      (fits : Nat.ofDigitChars 10 digits 0 < UInt64.size) :
      WrittenAs (.child (Nat.ofDigitChars 10 digits 0)) (".children.".toList ++ digits)
  | named {key : List Char} (some : key ≠ []) (plain : '.' ∉ key) :
      WrittenAs (.named (String.ofList key)) (".namedChildren.".toList ++ key)

/-- A text does not go on with the index or the key of the segment. -/
def Ends (rest : List Char) : Segment → Prop
  | .child _ => Json.NoDigit rest
  | .named _ => ∀ c ∈ rest.head?, c = '.'

/-- A segment that can be read once it is written. Positions fit 64 bits. -/
def Addressable : Segment → Prop
  | .child index => index < UInt64.size
  | .named key => key ≠ "" ∧ '.' ∉ key.toList

end Segment

namespace Path

/-- The ways to write the segments of a path, one piece for each. -/
def WrittenAs (path : Path) (pieces : List (List Char)) : Prop :=
  List.Forall₂ Segment.WrittenAs path pieces

/-- The text that is made of some pieces. -/
def rooted (pieces : List (List Char)) : List Char := "root".toList ++ pieces.flatten

/-- A text begins with the pieces of some segments. If the last one is an index, these are all of
its digits. -/
structure Opens (text : List Char) (path : Path) (pieces : List (List Char)) (rest : List Char) :
    Prop where
  written : path.WrittenAs pieces
  cut : text = pieces.flatten ++ rest
  whole : ∀ index, path.getLast? = some (.child index) → Json.NoDigit rest

def Addressable (path : Path) : Prop := ∀ segment ∈ path, segment.Addressable

/-- Digits without the zeros in front of the number that they spell. -/
def withoutZeros (digits : List Char) : List Char :=
  match digits.dropWhile (· = '0') with
  | [] => ['0']
  | digits => digits

/-- A piece without zeros in front of its index. -/
def trimmed (piece : List Char) : List Char :=
  match after? ".children.".toList piece with
  | some digits => ".children.".toList ++ withoutZeros digits
  | none => piece

end Path

open RuleEditor.Path

variable {segment : Segment} {piece text rest digits : List Char} {path : Path}
  {pieces : List (List Char)}

/-! ## Single segments -/

theorem Path.after?_append (word rest : List Char) : after? word (word ++ rest) = some rest := by
  rw [after?, if_pos (List.isPrefixOf_iff_prefix.2 (List.prefix_append _ _)), List.drop_left]

theorem Path.after?_eq_some_iff {word : List Char} :
    after? word text = some rest ↔ text = word ++ rest := by
  constructor
  · intro found
    rw [after?] at found
    split at found
    · next front =>
      obtain ⟨tail, rfl⟩ := List.isPrefixOf_iff_prefix.1 front
      rw [List.drop_left] at found
      rw [Option.some.inj found]
    · cases found
  · rintro rfl
    exact after?_append word rest

theorem Path.after?_eq_none_iff {word : List Char} : after? word text = none ↔ ¬word <+: text := by
  rw [after?, ← List.isPrefixOf_iff_prefix]
  split <;> simp_all

/-- The words of the two kinds of segments differ. -/
theorem Path.after?_children_named (key : List Char) :
    after? ".children.".toList (".namedChildren.".toList ++ key) = none := by
  rw [after?_eq_none_iff]
  rintro ⟨tail, same⟩
  simp at same

namespace Segment

theorem WrittenAs.head? (written : segment.WrittenAs piece) : piece.head? = some '.' := by
  cases written <;> rfl

theorem WrittenAs.length_pos (written : segment.WrittenAs piece) : 0 < piece.length := by
  cases written <;> simp

/-- The point of the next segment ends every segment. -/
theorem ends_of_point (segment : Segment) (point : rest.head? = some '.') : segment.Ends rest := by
  cases segment with
  | child index =>
    intro c first
    rw [point] at first
    cases first
    rfl
  | named key =>
    intro c first
    rw [point] at first
    exact (Option.some.inj first).symm

end Segment

theorem head?_dropWhile {p : Char → Bool} {c : Char} (first : c ∈ (text.dropWhile p).head?) :
    p c = false := by
  have stop := List.head?_dropWhile_not p text
  rwa [Option.mem_def.1 first] at stop

theorem dropWhile_key {key : List Char} (plain : '.' ∉ key) (rest : List Char) :
    (key ++ rest).dropWhile (· ≠ '.') = rest.dropWhile (· ≠ '.') := by
  refine List.dropWhile_append_of_pos fun c mem => decide_eq_true ?_
  rintro rfl
  exact plain mem

theorem takeWhile_key {key : List Char} (plain : '.' ∉ key) (rest : List Char) :
    (key ++ rest).takeWhile (· ≠ '.') = key ++ rest.takeWhile (· ≠ '.') := by
  refine List.takeWhile_append_of_pos fun c mem => decide_eq_true ?_
  rintro rfl
  exact plain mem

namespace Path

/-- A key is read as far as it goes. -/
theorem readSegment?_key {key : List Char} (some : key ≠ []) (plain : '.' ∉ key)
    (rest : List Char) :
    readSegment? (".namedChildren.".toList ++ key ++ rest) =
      .some (.named (String.ofList (key ++ rest.takeWhile (· ≠ '.'))),
        rest.dropWhile (· ≠ '.')) := by
  have here : ¬(key ++ rest.takeWhile (· ≠ '.')).isEmpty = true := by simp [some]
  rw [readSegment?, List.append_assoc, after?_children_named, after?_append]
  simp only [takeWhile_key plain, dropWhile_key plain, if_neg here]

/-- A segment that a text begins with is read, if the text does not go on with it. -/
theorem readSegment?_append (written : segment.WrittenAs piece) (ends : segment.Ends rest) :
    readSegment? (piece ++ rest) = some (segment, rest) := by
  cases written with
  | @child digits some decimal fits =>
    obtain ⟨taken, dropped⟩ := Json.takeWhile_digits decimal ends
    have here : ¬(digits.isEmpty || UInt64.size ≤ Nat.ofDigitChars 10 digits 0) := by
      simpa using ⟨some, fits⟩
    rw [readSegment?, List.append_assoc, after?_append]
    simp only [taken, dropped, if_neg here]
  | @named key some plain =>
    have stops : rest.takeWhile (· ≠ '.') = [] ∧ rest.dropWhile (· ≠ '.') = rest := by
      cases rest with
      | nil => exact ⟨rfl, rfl⟩
      | cons c tail =>
        obtain rfl : c = '.' := ends c rfl
        exact ⟨rfl, rfl⟩
    rw [readSegment?_key some plain, stops.1, stops.2, List.append_nil]

/-- What is read is a segment that the text begins with, and all of it. -/
theorem written_of_readSegment? (read : readSegment? text = some (segment, rest)) :
    ∃ piece, segment.WrittenAs piece ∧ text = piece ++ rest ∧ segment.Ends rest := by
  rw [readSegment?] at read
  split at read
  · next tail found =>
    obtain rfl := after?_eq_some_iff.1 found
    dsimp only at read
    split at read
    · cases read
    · next here =>
      cases read
      simp only [Bool.or_eq_true, List.isEmpty_iff, decide_eq_true_eq, not_or, not_le] at here
      refine ⟨_, .child here.1 (fun c mem => List.mem_takeWhile_imp mem) here.2, ?_, ?_⟩
      · rw [List.append_assoc, List.takeWhile_append_dropWhile]
      · exact fun c first => head?_dropWhile first
  · split at read
    · next tail found =>
      obtain rfl := after?_eq_some_iff.1 found
      dsimp only at read
      split at read
      · cases read
      · next here =>
        cases read
        rw [List.isEmpty_iff] at here
        have plain : '.' ∉ tail.takeWhile (· ≠ '.') := fun mem => by
          simpa using List.mem_takeWhile_imp mem
        refine ⟨_, .named here plain, ?_, ?_⟩
        · rw [List.append_assoc, List.takeWhile_append_dropWhile]
        · exact fun c first => by simpa using head?_dropWhile first
    · cases read

/-! ## Runs of segments -/

/-- The longest run of segments at the front of a text. -/
def read (text : List Char) : Path × List Char := readSegments text.length text

theorem length_lt_of_readSegment? (found : readSegment? text = some (segment, rest)) :
    rest.length < text.length := by
  obtain ⟨piece, written, rfl, -⟩ := written_of_readSegment? found
  have some := written.length_pos
  rw [List.length_append]
  omega

theorem readSegments_succ (fuel : Nat) (text : List Char) :
    readSegments (fuel + 1) text =
      match readSegment? text with
      | some (segment, rest) =>
        (segment :: (readSegments fuel rest).1, (readSegments fuel rest).2)
      | none => ([], text) := rfl

/-- More fuel than there are characters changes nothing. -/
theorem readSegments_eq_read {fuel : Nat} (enough : text.length ≤ fuel) :
    readSegments fuel text = read text := by
  rw [read]
  generalize available : text.length = less at enough
  have enough' : text.length ≤ less := Nat.le_of_eq available
  clear available
  induction less generalizing fuel text with
  | zero =>
    obtain rfl : text = [] := List.length_eq_zero_iff.1 (Nat.le_zero.1 enough')
    cases fuel <;> rfl
  | succ less ih =>
    obtain ⟨fuel, rfl⟩ := Nat.exists_eq_succ_of_ne_zero (Nat.ne_zero_of_lt enough)
    rw [Nat.succ_eq_add_one, readSegments_succ, readSegments_succ]
    cases found : readSegment? text with
    | none => rfl
    | some result =>
      obtain ⟨segment, rest⟩ := result
      have shorter := length_lt_of_readSegment? found
      have same : readSegments fuel rest = readSegments less rest :=
        ih (Nat.le_of_succ_le_succ enough) (by omega)
      simp only [same]

theorem read_of_none (none : readSegment? text = none) : read text = ([], text) := by
  rw [← readSegments_eq_read (Nat.le_succ _), readSegments_succ, none]

theorem read_of_some (found : readSegment? text = some (segment, rest)) :
    read text = (segment :: (read rest).1, (read rest).2) := by
  have shorter := length_lt_of_readSegment? found
  rw [← readSegments_eq_read (Nat.le_succ _), readSegments_succ, found,
    ← readSegments_eq_read (Nat.le_of_lt shorter)]

/-- What is read is what the text begins with. -/
theorem exists_opens_read (text : List Char) :
    ∃ pieces, Opens text (read text).1 pieces (read text).2 := by
  induction size : text.length using Nat.strongRecOn generalizing text with
  | ind size ih =>
    cases found : readSegment? text with
    | none =>
      rw [read_of_none found]
      exact ⟨[], .nil, rfl, nofun⟩
    | some result =>
      obtain ⟨segment, rest⟩ := result
      obtain ⟨pieces, written, cut, whole⟩ :=
        ih _ (size ▸ length_lt_of_readSegment? found) rest rfl
      obtain ⟨piece, here, rfl, ends⟩ := written_of_readSegment? found
      rw [read_of_some found]
      refine ⟨piece :: pieces, .cons here written, ?_, ?_⟩
      · rw [List.flatten_cons, List.append_assoc, ← cut]
      · intro index last
        cases below : (read rest).1 with
        | nil =>
          rw [below] at last written
          obtain rfl : segment = .child index := Option.some.inj last
          cases written
          rw [List.flatten_nil, List.nil_append] at cut
          exact cut ▸ ends
        | cons next others =>
          rw [below, List.getLast?_cons_cons, ← below] at last
          exact whole index last

theorem length_read_le (text : List Char) : (read text).2.length ≤ text.length := by
  obtain ⟨pieces, opens⟩ := exists_opens_read text
  have length := congrArg List.length opens.cut
  rw [List.length_append] at length
  omega

theorem head?_flatten (written : path.WrittenAs pieces) (more : path ≠ []) (rest : List Char) :
    (pieces.flatten ++ rest).head? = some '.' := by
  cases written with
  | nil => exact absurd rfl more
  | cons here later =>
    rw [List.flatten_cons, List.append_assoc, List.head?_append, here.head?]
    rfl

/-- **Reading goes as far as any way to cut the text.** A key may be cut short, but the text has to
go on with a point where the next segment begins; so only the last one can be. -/
theorem length_rest_le (opens : Opens text path pieces rest) :
    (read text).2.length ≤ rest.length := by
  obtain ⟨written, rfl, whole⟩ := opens
  induction written with
  | nil => exact length_read_le rest
  | @cons segment piece path pieces here later ih =>
    rw [List.flatten_cons, List.append_assoc]
    -- Reading takes the whole piece, or more of it: then it is the key at the end.
    by_cases ends : segment.Ends (pieces.flatten ++ rest)
    · rw [read_of_some (readSegment?_append here ends)]
      refine ih fun index last => whole index ?_
      rw [List.getLast?_cons, last]
      rfl
    · obtain rfl : path = [] := by
        by_contra more
        exact ends (segment.ends_of_point (head?_flatten later more rest))
      cases later
      cases here with
      | child some decimal fits => exact absurd (whole _ rfl) ends
      | named some plain =>
        rw [read_of_some (readSegment?_key some plain _)]
        exact (length_read_le _).trans (List.length_dropWhile_le _ _)

/-! ## Texts of the grammar -/

theorem ends_flatten (segment : Segment) (written : path.WrittenAs pieces) :
    segment.Ends pieces.flatten := by
  cases written with
  | nil => cases segment <;> exact nofun
  | cons here later =>
    refine segment.ends_of_point ?_
    rw [← List.append_nil (List.flatten _)]
    exact head?_flatten (.cons here later) (List.cons_ne_nil _ _) []

/-- A text that is made of the pieces of some segments is read as these. -/
theorem read_flatten (written : path.WrittenAs pieces) : read pieces.flatten = (path, []) := by
  induction written with
  | nil => rfl
  | @cons segment piece path pieces here later ih =>
    rw [List.flatten_cons, read_of_some (readSegment?_append here (ends_flatten segment later)), ih]

/-- **A text is cut into pieces in one way only.** -/
theorem pieces_unique {others : List (List Char)} (written : path.WrittenAs pieces)
    (written' : path.WrittenAs others) (same : pieces.flatten = others.flatten) :
    pieces = others := by
  induction written generalizing others with
  | nil =>
    cases written'
    rfl
  | @cons segment piece path pieces here later ih =>
    cases written' with
    | @cons _ piece' _ others here' later' =>
      have first := readSegment?_append here (ends_flatten segment later)
      have second := readSegment?_append here' (ends_flatten segment later')
      rw [List.flatten_cons, List.flatten_cons] at same
      rw [same, second] at first
      have below : others.flatten = pieces.flatten := congrArg Prod.snd (Option.some.inj first)
      rw [below] at same
      rw [List.append_cancel_right same, ih later' below.symm]

theorem parse_of_rooted {input : String} (spelled : input.toList = "root".toList ++ text) :
    parse input =
      if (read text).2.isEmpty then .ok (read text).1
      else
        .error (.trailing input
          (input.utf8ByteSize - (String.ofList (read text).2).utf8ByteSize)) := by
  rw [parse, spelled, after?_append]
  rfl

theorem parse_of_not_rooted {input : String} (other : ¬"root".toList <+: input.toList) :
    parse input = .error (.notRooted input) := by
  rw [parse, after?_eq_none_iff.2 other]

/-- **The texts of the grammar are accepted, and no others.** -/
theorem parse_eq_ok_iff {input : String} :
    parse input = .ok path ↔ ∃ pieces, path.WrittenAs pieces ∧ input.toList = rooted pieces := by
  constructor
  · intro parsed
    by_cases front : "root".toList <+: input.toList
    · obtain ⟨text, spelled⟩ := front
      rw [parse_of_rooted spelled.symm] at parsed
      split at parsed
      · next done =>
        cases parsed
        obtain ⟨pieces, opens⟩ := exists_opens_read text
        have cut := opens.cut
        rw [List.isEmpty_iff.1 done, List.append_nil] at cut
        exact ⟨pieces, opens.written, by rw [rooted, ← cut, spelled]⟩
      · cases parsed
    · rw [parse_of_not_rooted front] at parsed
      cases parsed
  · rintro ⟨pieces, written, spelled⟩
    rw [parse_of_rooted spelled, read_flatten written]
    rfl

/-- **The offset is the end of the longest run of segments** whose indices take all their digits,
and lies between two characters. -/
theorem offset_spec {input : String} {error : ParseError}
    (spelled : input.toList = "root".toList ++ text) (rejected : parse input = .error error) :
    ∃ path pieces rest, Opens text path pieces rest ∧
      (∀ path' pieces' rest', Opens text path' pieces' rest' →
        pieces'.flatten.length ≤ pieces.flatten.length) ∧
      error.offset = (String.ofList (rooted pieces)).utf8ByteSize ∧
      String.Pos.Raw.IsValid input ⟨error.offset⟩ := by
  obtain ⟨pieces, opens⟩ := exists_opens_read text
  rw [parse_of_rooted spelled] at rejected
  split at rejected
  · cases rejected
  -- What is left over is measured from the end of the text, so its size cancels.
  have whole : input = String.ofList (rooted pieces) ++ String.ofList (read text).2 := by
    rw [← String.ofList_append, rooted, List.append_assoc, ← opens.cut, ← spelled,
      String.ofList_toList]
  have offset : error.offset = (String.ofList (rooted pieces)).utf8ByteSize := by
    cases rejected
    show input.utf8ByteSize - _ = _
    rw [congrArg String.utf8ByteSize whole, String.utf8ByteSize_append, Nat.add_sub_cancel]
  refine ⟨_, pieces, _, opens, fun path' pieces' rest' opens' => ?_, offset, ?_⟩
  · have further := length_rest_le opens'
    have length := congrArg List.length (opens.cut.symm.trans opens'.cut)
    rw [List.length_append, List.length_append] at length
    omega
  · rw [offset, whole]
    exact String.Pos.Raw.isValid_rawEndPos.append_right _

/-! ## Writing -/

theorem toList_text_child (index : Nat) :
    '.' :: (Segment.child index).text.toList =
      ".children.".toList ++ Nat.toDigits 10 index := by
  rw [Segment.text, String.toList_append, Nat.toString_eq_repr, Nat.toList_repr]
  rfl

theorem toList_text_named (key : String) :
    '.' :: (Segment.named key).text.toList = ".namedChildren.".toList ++ key.toList := by
  rw [Segment.text, String.toList_append]
  rfl

theorem toList_text (path : Path) :
    path.text.toList = rooted (path.map fun segment => '.' :: segment.text.toList) := by
  have below : (segmentsText path).toList =
      (path.map fun segment => '.' :: segment.text.toList).flatten := by
    induction path with
    | nil => rfl
    | cons segment path ih =>
      rw [segmentsText, String.toList_append, String.toList_append, ih]
      rfl
  rw [text, String.toList_append, below, rooted]

theorem writtenAs_text (addressable : segment.Addressable) :
    segment.WrittenAs ('.' :: segment.text.toList) := by
  cases segment with
  | child index =>
    have value : Nat.ofDigitChars 10 (Nat.toDigits 10 index) 0 = index :=
      Nat.ofDigitChars_ten_toDigits
    have written := Segment.WrittenAs.child Nat.toDigits_ne_nil (Json.isDigit_toDigits index)
      (value.symm ▸ addressable)
    rwa [value, ← toList_text_child] at written
  | named key =>
    obtain ⟨some, plain⟩ := addressable
    have written : Segment.WrittenAs (.named (String.ofList key.toList)) _ :=
      .named (by simpa using some) plain
    rwa [String.ofList_toList, ← toList_text_named] at written

/-- **What is written can be read.** -/
theorem parse_text {path : Path} (addressable : path.Addressable) :
    parse path.text = .ok path := by
  refine parse_eq_ok_iff.2 ⟨_, ?_, toList_text path⟩
  rw [WrittenAs, List.forall₂_map_right_iff, List.forall₂_same]
  exact fun segment mem => writtenAs_text (addressable segment mem)

/-! ## Zeros in front -/

theorem withoutZeros_concat (digits : List Char) (last : Char) :
    withoutZeros (digits ++ [last]) =
      if digits.dropWhile (· = '0') = [] then [last] else withoutZeros digits ++ [last] := by
  rw [withoutZeros, List.dropWhile_append]
  cases front : digits.dropWhile (· = '0') with
  | nil => by_cases zero : last = '0' <;> simp [zero]
  | cons first others => simp [withoutZeros, front]

/-- Only the digit zero itself begins with a zero once there are none in front. -/
theorem withoutZeros_eq_zero_iff :
    withoutZeros digits = ['0'] ↔ digits.dropWhile (· = '0') = [] := by
  rw [withoutZeros]
  cases front : digits.dropWhile (· = '0') with
  | nil => exact iff_of_true rfl rfl
  | cons first others =>
    refine iff_of_false ?_ (List.cons_ne_nil _ _)
    rintro ⟨⟩
    have other : decide ('0' = '0') = false :=
      head?_dropWhile (p := (· = '0')) <| by
        rw [front]
        rfl
    exact absurd other (by decide)

theorem exists_digitChar {c : Char} (digit : c.isDigit = true) :
    ∃ value < 10, c = Nat.digitChar value := by
  obtain ⟨low, high⟩ := Char.isDigit_iff_toNat.1 digit
  have low : 48 ≤ c.toNat := low
  have high : c.toNat ≤ 57 := high
  have small : c.toNat - 48 < 10 := by omega
  refine ⟨c.toNat - 48, small, Char.toNat_inj.1 ?_⟩
  rw [Nat.toNat_digitChar_of_lt_ten small]
  omega

/-- The digits of a number are those that spell it, without the zeros in front. -/
theorem toDigits_ofDigitChars (decimal : ∀ c ∈ digits, c.isDigit = true) :
    Nat.toDigits 10 (Nat.ofDigitChars 10 digits 0) = withoutZeros digits := by
  induction digits using List.reverseRecOn with
  | nil => rfl
  | append_singleton digits last ih =>
    obtain ⟨front, digit⟩ := List.forall_mem_append.1 decimal
    obtain ⟨value, small, rfl⟩ := exists_digitChar (digit last List.mem_cons_self)
    have ih := ih front
    rw [Nat.ofDigitChars_append, Nat.ofDigitChars_cons_digitChar_of_lt_ten small,
      Nat.ofDigitChars_nil, withoutZeros_concat]
    split
    · next zeros =>
      rw [withoutZeros_eq_zero_iff.2 zeros] at ih
      have zero : Nat.ofDigitChars 10 digits 0 = 0 := by
        rw [← @Nat.ofDigitChars_ten_toDigits (Nat.ofDigitChars 10 digits 0), ih]
        rfl
      rw [zero, Nat.mul_zero, Nat.zero_add, Nat.toDigits_of_lt_base small]
    · next some =>
      have positive : 0 < Nat.ofDigitChars 10 digits 0 := by
        refine Nat.pos_of_ne_zero fun zero => some (withoutZeros_eq_zero_iff.1 ?_)
        rw [← ih, zero, Nat.toDigits_zero]
      rw [← Nat.toDigits_append_toDigits (by decide) positive small, ih,
        Nat.toDigits_of_lt_base small]

theorem trimmed_of_written (written : segment.WrittenAs piece) :
    trimmed piece = '.' :: segment.text.toList := by
  cases written with
  | child some decimal fits =>
    rw [trimmed, after?_append, toList_text_child, toDigits_ofDigitChars decimal]
  | @named key some plain =>
    rw [trimmed, after?_children_named, toList_text_named, @String.toList_ofList key]

/-- A path is written like a text that spells it, without the zeros in front of its indices. -/
theorem toList_text_of_written (written : path.WrittenAs pieces) :
    path.text.toList = rooted (pieces.map trimmed) := by
  have same : path.map (fun segment => '.' :: segment.text.toList) = pieces.map trimmed := by
    induction written with
    | nil => rfl
    | cons here later ih => rw [List.map_cons, List.map_cons, trimmed_of_written here, ih]
  rw [toList_text, same]

/-! ## The text form -/

/-- **Texts of paths.** A text is accepted exactly if it is `root` and then the pieces of the
segments that are read, and it can be cut into such pieces in one way only. A path whose segments
can be read is read from its text, so that no other one has the same text. The text of a path that
was read is the one it was read from, without zeros in front of indices. Of a text that is not
accepted, the offset is the end of the longest run of segments behind `root` whose indices take all
digits that stand there, between two characters, or zero if the text does not begin with `root`. -/
theorem parse_spec (input : String) :
    (∀ path, parse input = .ok path ↔
      ∃! pieces, path.WrittenAs pieces ∧ input.toList = rooted pieces) ∧
    (∀ path : Path, path.Addressable → parse path.text = .ok path ∧
      ∀ other : Path, other.Addressable → other.text = path.text → other = path) ∧
    (∀ path, parse input = .ok path → ∃ pieces, path.WrittenAs pieces ∧
      input.toList = rooted pieces ∧ path.text.toList = rooted (pieces.map trimmed)) ∧
    ∀ error, parse input = .error error →
      (∀ text, input.toList = "root".toList ++ text → ∃ path pieces rest,
        Opens text path pieces rest ∧
        (∀ path' pieces' rest', Opens text path' pieces' rest' →
          pieces'.flatten.length ≤ pieces.flatten.length) ∧
        error.offset = (String.ofList (rooted pieces)).utf8ByteSize ∧
        String.Pos.Raw.IsValid input ⟨error.offset⟩) ∧
      (¬"root".toList <+: input.toList → error.offset = 0) := by
  refine ⟨fun path => ?_, fun path addressable => ⟨parse_text addressable, ?_⟩, ?_, ?_⟩
  · rw [parse_eq_ok_iff]
    refine ⟨?_, fun cut => cut.exists⟩
    rintro ⟨pieces, written, spelled⟩
    refine ⟨pieces, ⟨written, spelled⟩, ?_⟩
    rintro others ⟨written', spelled'⟩
    have same := List.append_cancel_left (spelled'.symm.trans spelled)
    exact pieces_unique written' written same
  · intro other addressable' same
    have read := parse_text addressable'
    rw [same, parse_text addressable] at read
    exact (Except.ok.inj read).symm
  · intro path parsed
    obtain ⟨pieces, written, spelled⟩ := parse_eq_ok_iff.1 parsed
    exact ⟨pieces, written, spelled, toList_text_of_written written⟩
  · intro error rejected
    refine ⟨fun text spelled => offset_spec spelled rejected, fun other => ?_⟩
    rw [parse_of_not_rooted other] at rejected
    cases rejected
    rfl

/-- Of twenty digits nineteen would fit 64 bits, but an index takes all of them, so that reading
stops in front of its segment. The text without the last digit is that of a path. -/
theorem offset_before_large_index :
    let input := "root.children.99999999999999999999"
    let pieces := [".children.9999999999999999999".toList]
    parse input = .error (.trailing input 4) ∧
      WrittenAs [.child 9999999999999999999] pieces ∧ rooted pieces <+: input.toList ∧
        4 < (String.ofList (rooted pieces)).utf8ByteSize := by
  intro input pieces
  have written : Segment.WrittenAs (.child 9999999999999999999)
      ('.' :: (Segment.child 9999999999999999999).text.toList) :=
    writtenAs_text (by decide : 9999999999999999999 < UInt64.size)
  have spelled : '.' :: (Segment.child 9999999999999999999).text.toList =
      ".children.9999999999999999999".toList := by decide +kernel
  rw [spelled] at written
  have front : rooted pieces <+: input.toList := ⟨['9'], by decide +kernel⟩
  exact ⟨by decide +kernel, .cons written .nil, front, by decide +kernel⟩

end Path

end RuleEditor
