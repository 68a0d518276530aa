import RuleEditor.Constant
import RuleEditor.Proofs.Json.Number

/-!
# Telling shown literals apart

**Deciding texts** (`Text.Decides`). The text of a value decides which value it is if no other value
is written the same way, *whatever follows* the two, as long as no digit does. The rest of the text
is then the same too, so that values in a row are told apart one after another
(`Text.Decides.row`).

**Literals.** What kind of literal a text is can be seen from its first character
(`Constant.exists_text_cons`). A string ends at the first quote that is not escaped, a list where no
comma follows an item, and a number where its digits end: for this alone it matters what comes next.
So the text of a literal without floating point numbers decides which literal it is
(`Constant.Exact.decides`). Floating point numbers are left out, since no text tells one that is not
a number from another.
-/

namespace RuleEditor

namespace Text

variable {α : Type} {write : α → List Char} {Same : α → α → Prop} {rest more : List Char}

/-! ## Deciding texts -/

/-- If the texts of the two values are the same, whatever follows them, the values are. -/
def Decides (write : α → List Char) (Same : α → α → Prop) (value other : α) : Prop :=
  ∀ ⦃rest more : List Char⦄, Json.NoDigit rest → Json.NoDigit more →
    write value ++ rest = write other ++ more → Same value other ∧ rest = more

/-- The values, each behind a separator that begins with the given mark. -/
def row (mark : Char) (separator : List Char) (write : α → List Char) (values : List α) :
    List Char :=
  values.flatMap fun value => mark :: (separator ++ write value)

theorem row_cons (mark : Char) (separator : List Char) (value : α) (values : List α) :
    row mark separator write (value :: values) ++ rest =
      mark :: (separator ++ (write value ++ (row mark separator write values ++ rest))) := by
  simp [row]

theorem noDigit_cons {c : Char} (other : c.isDigit = false) (text : List Char) :
    Json.NoDigit (c :: text) := by
  intro first here
  cases here
  exact other

/-- A row does not go on with a digit, if what follows it does not. -/
theorem noDigit_row {mark : Char} (sign : mark.isDigit = false) (separator : List Char)
    (values : List α) (ends : Json.NoDigit rest) :
    Json.NoDigit (row mark separator write values ++ rest) := by
  cases values with
  | nil => exact ends
  | cons value values =>
    rw [row_cons]
    exact noDigit_cons sign _

/-- **Rows of decided values are told apart**, if what follows does not look like a separator. -/
theorem Decides.row {mark : Char} (sign : mark.isDigit = false) (separator : List Char)
    {values others : List α}
    (decides : ∀ value ∈ values, ∀ other ∈ others, Decides write Same value other)
    (ends : Json.NoDigit rest) (ends' : Json.NoDigit more)
    (stop : rest.head? ≠ some mark) (stop' : more.head? ≠ some mark)
    (same : Text.row mark separator write values ++ rest =
      Text.row mark separator write others ++ more) :
    List.Forall₂ Same values others ∧ rest = more := by
  induction values generalizing others with
  | nil =>
    cases others with
    | nil => exact ⟨.nil, same⟩
    | cons other others =>
      rw [row_cons] at same
      exact absurd (congrArg List.head? same) stop
  | cons value values ih =>
    cases others with
    | nil =>
      rw [row_cons] at same
      exact absurd (congrArg List.head? same).symm stop'
    | cons other others =>
      rw [row_cons, row_cons, List.cons.injEq, List.append_cancel_left_eq] at same
      have first := decides value List.mem_cons_self other List.mem_cons_self
      obtain ⟨here, same⟩ := first (noDigit_row sign separator values ends)
        (noDigit_row sign separator others ends') same.2
      obtain ⟨later, same⟩ := ih (fun value mem other mem' =>
        decides value (List.mem_cons_of_mem _ mem) other (List.mem_cons_of_mem _ mem')) same
      exact ⟨.cons here later, same⟩

/-- The separators stand in front of all texts but the first. -/
theorem intercalate_cons (separator text : List Char) (texts : List (List Char)) :
    separator.intercalate (text :: texts) = text ++ texts.flatMap (separator ++ ·) := by
  induction texts generalizing text with
  | nil => simp
  | cons next texts ih =>
    rw [List.intercalate_cons_of_ne_nil (List.cons_ne_nil next texts), ih, List.flatMap_cons,
      List.append_assoc, List.append_assoc]

/-! ## Strings -/

theorem toList_quoteShown (s : String) : (quoteShown s).toList =
    '"' :: (s.toList.flatMap (fun c => (spellShown c).toList) ++ ['"']) := by
  simp [quoteShown, quoteWith, String.toList_join, List.flatMap_map]

/-- A character is written as it is, or as a backslash and a letter that tells which one it is. -/
theorem toList_spellShown (c : Char) :
    (spellShown c).toList = [c] ∧ c ≠ '"' ∧ c ≠ '\\' ∨
      ∃ letter, (spellShown c).toList = ['\\', letter] ∧
        c = if letter = 'n' then '\n' else letter := by
  unfold spellShown
  split
  · exact Or.inr ⟨'"', rfl, rfl⟩
  · exact Or.inr ⟨'\\', rfl, rfl⟩
  · exact Or.inr ⟨'n', rfl, rfl⟩
  · next quote backslash _ => exact Or.inl ⟨String.toList_singleton c, quote, backslash⟩

/-- No spelling begins with a quote, so a quote ends the string. -/
theorem spellShown_append_ne (c : Char) (text : List Char) :
    (spellShown c).toList ++ rest ≠ '"' :: text := by
  rcases toList_spellShown c with ⟨plain, quote, -⟩ | ⟨letter, escaped, -⟩
  · rw [plain]
    exact fun same => quote (List.cons.inj same).1
  · rw [escaped]
    exact fun same => absurd (List.cons.inj same).1 (by decide)

theorem spellShown_append_inj {c d : Char}
    (same : (spellShown c).toList ++ rest = (spellShown d).toList ++ more) :
    c = d ∧ rest = more := by
  rcases toList_spellShown c with ⟨plain, -, backslash⟩ | ⟨letter, escaped, spelled⟩ <;>
    rcases toList_spellShown d with ⟨plain', -, backslash'⟩ | ⟨letter', escaped', spelled'⟩
  · rw [plain, plain'] at same
    exact List.cons.inj same
  · rw [plain, escaped'] at same
    exact absurd (List.cons.inj same).1 backslash
  · rw [escaped, plain'] at same
    exact absurd (List.cons.inj same).1.symm backslash'
  · rw [escaped, escaped'] at same
    obtain ⟨letters, tails⟩ := List.cons.inj (List.cons.inj same).2
    rw [spelled, spelled', letters]
    exact ⟨rfl, tails⟩

/-- **A quoted string decides which string it is**, whatever follows. -/
theorem quoteShown_append_inj {s t : String}
    (same : (quoteShown s).toList ++ rest = (quoteShown t).toList ++ more) :
    s = t ∧ rest = more := by
  rw [toList_quoteShown, toList_quoteShown] at same
  simp only [List.cons_append, List.append_assoc, List.nil_append, List.cons.injEq,
    true_and] at same
  suffices characters : s.toList = t.toList ∧ rest = more from
    characters.imp_left String.toList_inj.1
  generalize s.toList = characters at same ⊢
  generalize t.toList = others at same ⊢
  induction characters generalizing others with
  | nil =>
    cases others with
    | nil => exact ⟨rfl, (List.cons.inj same).2⟩
    | cons d others =>
      rw [List.flatMap_cons, List.append_assoc] at same
      exact absurd same.symm (spellShown_append_ne d _)
  | cons c characters ih =>
    cases others with
    | nil =>
      rw [List.flatMap_cons, List.append_assoc] at same
      exact absurd same (spellShown_append_ne c _)
    | cons d others =>
      rw [List.flatMap_cons, List.flatMap_cons, List.append_assoc, List.append_assoc] at same
      obtain ⟨rfl, later⟩ := spellShown_append_inj same
      exact (ih others later).imp_left (congrArg _)

/-! ## Whole numbers -/

theorem toDigits_append_inj {a b : Nat} (ends : Json.NoDigit rest) (ends' : Json.NoDigit more)
    (same : Nat.toDigits 10 a ++ rest = Nat.toDigits 10 b ++ more) : a = b ∧ rest = more := by
  obtain ⟨taken, dropped⟩ := Json.takeWhile_digits (Json.isDigit_toDigits a) ends
  obtain ⟨taken', dropped'⟩ := Json.takeWhile_digits (Json.isDigit_toDigits b) ends'
  rw [same] at taken dropped
  refine ⟨?_, dropped.symm.trans dropped'⟩
  calc a = Nat.ofDigitChars 10 (Nat.toDigits 10 a) 0 := Nat.ofDigitChars_ten_toDigits.symm
    _ = Nat.ofDigitChars 10 (Nat.toDigits 10 b) 0 := by rw [← taken, taken']
    _ = b := Nat.ofDigitChars_ten_toDigits

theorem exists_toDigits_cons (n : Nat) :
    ∃ first digits, Nat.toDigits 10 n = first :: digits ∧ first.isDigit = true := by
  have nonempty : Nat.toDigits 10 n ≠ [] := Nat.toDigits_ne_nil
  obtain ⟨first, digits, here⟩ := List.exists_cons_of_ne_nil nonempty
  exact ⟨first, digits, here, Json.isDigit_toDigits n first (here ▸ List.mem_cons_self)⟩

/-- The sign is no digit. -/
theorem toDigits_append_ne (n : Nat) : Nat.toDigits 10 n ++ rest ≠ '-' :: more := by
  obtain ⟨first, digits, here, digit⟩ := exists_toDigits_cons n
  rw [here]
  intro same
  rw [(List.cons.inj same).1] at digit
  exact absurd digit (by decide)

/-- **A whole number decides which number it is**, if no digit follows. -/
theorem int_append_inj {n m : Int} (ends : Json.NoDigit rest) (ends' : Json.NoDigit more)
    (same : (toString n).toList ++ rest = (toString m).toList ++ more) : n = m ∧ rest = more := by
  rw [Json.toList_int, Json.toList_int] at same
  by_cases negative : n < 0 <;> by_cases negative' : m < 0
  · rw [if_pos negative, if_pos negative'] at same
    obtain ⟨size, same⟩ := toDigits_append_inj ends ends' (List.cons.inj same).2
    exact ⟨by omega, same⟩
  · rw [if_pos negative, if_neg negative'] at same
    exact absurd same.symm (toDigits_append_ne _)
  · rw [if_neg negative, if_pos negative'] at same
    exact absurd same (toDigits_append_ne _)
  · rw [if_neg negative, if_neg negative'] at same
    obtain ⟨size, same⟩ := toDigits_append_inj ends ends' same
    exact ⟨by omega, same⟩

end Text

namespace Constant

variable {constant other : Constant} {rest more : List Char}

/-! ## Literals -/

/-- A literal without floating point numbers. -/
inductive Exact : Constant → Prop
  | null : Exact .null
  | bool (value : Bool) : Exact (.bool value)
  | int (value : Int64) : Exact (.int value)
  | string (value : String) : Exact (.string value)
  | list {items : List Constant} (all : ∀ item ∈ items, Exact item) : Exact (.list items)

theorem equalAll_self {items : List Constant} (equal : ∀ item ∈ items, item.equal item = true) :
    equalAll items items = true := by
  induction items with
  | nil => rfl
  | cons item items ih =>
    obtain ⟨here, later⟩ := List.forall_mem_cons.1 equal
    rw [equalAll, here, ih later]
    rfl

theorem Exact.equal_self (exact : constant.Exact) : constant.equal constant = true := by
  induction exact with
  | null => rfl
  | bool value => exact beq_self_eq_true value
  | int value => exact beq_self_eq_true value
  | string value => exact beq_self_eq_true value
  | list _ ih => exact equalAll_self ih

/-- The kinds of literals that begin differently. -/
inductive Kind where
  | null
  | bool (value : Bool)
  | number
  | string
  | list

def kind : Constant → Kind
  | .null => .null
  | .bool value => .bool value
  | .int _ => .number
  | .float _ => .number
  | .string _ => .string
  | .list _ => .list

/-- The kind of the literals that begin with a character. -/
def kindOf? (first : Char) : Option Kind :=
  if first.isDigit || first = '-' then some .number
  else match first with
    | 'n' => some .null
    | 't' => some (.bool true)
    | 'f' => some (.bool false)
    | '"' => some .string
    | '[' => some .list
    | _ => none

theorem toList_text_list (items : List Constant) : (text (.list items)).toList =
    '[' :: ([',', ' '].intercalate (items.map fun item => item.text.toList) ++ [']']) := by
  have texts : textAll items = items.map text := by
    induction items with
    | nil => rfl
    | cons item items ih => rw [textAll, ih, List.map_cons]
  simp [text, texts, String.toList_intercalate, Function.comp_def]

/-- The items of a list behind its first one, and what follows. -/
def further (items : List Constant) (rest : List Char) : List Char :=
  Text.row ',' [' '] (fun item => item.text.toList) items ++ ']' :: rest

theorem toList_text_nil : (text (.list [])).toList ++ rest = '[' :: ']' :: rest := rfl

theorem toList_text_cons (item : Constant) (items : List Constant) :
    (text (.list (item :: items))).toList ++ rest =
      '[' :: (item.text.toList ++ further items rest) := by
  rw [toList_text_list, List.map_cons, Text.intercalate_cons]
  simp [further, Text.row, List.flatMap_map]

theorem noDigit_further (items : List Constant) (rest : List Char) :
    Json.NoDigit (further items rest) :=
  Text.noDigit_row rfl _ items (Text.noDigit_cons rfl rest)

theorem further_inj {items others : List Constant}
    (decides : ∀ item ∈ items, ∀ other ∈ others,
      Text.Decides (fun item => item.text.toList) Eq item other)
    (same : further items rest = further others more) : items = others ∧ rest = more := by
  have closes (text : List Char) : (']' :: text).head? ≠ some ',' :=
    fun comma => absurd (Option.some.inj comma) (by decide)
  obtain ⟨here, same⟩ := Text.Decides.row rfl [' '] decides (Text.noDigit_cons rfl rest)
    (Text.noDigit_cons rfl more) (closes rest) (closes more) same
  rw [List.forall₂_eq_eq_eq] at here
  exact ⟨here, (List.cons.inj same).2⟩

/-- The first character of a literal tells its kind. -/
theorem exists_text_cons (exact : constant.Exact) :
    ∃ first tail, constant.text.toList = first :: tail ∧ kindOf? first = some constant.kind := by
  cases exact with
  | null => exact ⟨_, _, rfl, rfl⟩
  | bool value => cases value <;> exact ⟨_, _, rfl, rfl⟩
  | int value =>
    rw [text, Json.toList_int]
    by_cases negative : value.toInt < 0
    · rw [if_pos negative]
      exact ⟨_, _, rfl, rfl⟩
    · obtain ⟨first, digits, here, digit⟩ := Text.exists_toDigits_cons value.toInt.natAbs
      rw [if_neg negative, here]
      exact ⟨first, digits, rfl, by simp [kindOf?, digit, kind]⟩
  | string value =>
    rw [text, Text.toList_quoteShown]
    exact ⟨_, _, rfl, rfl⟩
  | list all =>
    rw [toList_text_list]
    exact ⟨_, _, rfl, rfl⟩

theorem text_append_ne {first : Char} (other : kindOf? first = none) (exact : constant.Exact) :
    constant.text.toList ++ more ≠ first :: rest := by
  obtain ⟨first', tail, here, kind⟩ := exists_text_cons exact
  rw [here]
  intro same
  rw [(List.cons.inj same).1, other] at kind
  cases kind

/-- Literals that begin the same are of one kind. -/
theorem kind_eq (exact : constant.Exact) (exact' : other.Exact)
    (same : constant.text.toList ++ rest = other.text.toList ++ more) :
    constant.kind = other.kind := by
  obtain ⟨first, tail, here, kind⟩ := exists_text_cons exact
  obtain ⟨first', tail', here', kind'⟩ := exists_text_cons exact'
  rw [here, here'] at same
  rw [(List.cons.inj same).1] at kind
  exact Option.some.inj (kind.symm.trans kind')

/-- A list decides which list it is, if each item decides which one it is: an empty list closes
where another one has its first item. -/
theorem list_append_inj {items others : List Constant} (all : ∀ item ∈ items, Exact item)
    (all' : ∀ other ∈ others, Exact other)
    (decides : ∀ item ∈ items, ∀ other ∈ others,
      Text.Decides (fun item => item.text.toList) Eq item other)
    (same : (text (.list items)).toList ++ rest = (text (.list others)).toList ++ more) :
    items = others ∧ rest = more := by
  cases items with
  | nil =>
    cases others with
    | nil => exact ⟨rfl, by simpa [toList_text_nil] using same⟩
    | cons other others =>
      rw [toList_text_nil, toList_text_cons] at same
      exact absurd (List.cons.inj same).2.symm
        (text_append_ne rfl (all' other List.mem_cons_self))
  | cons item items =>
    cases others with
    | nil =>
      rw [toList_text_nil, toList_text_cons] at same
      exact absurd (List.cons.inj same).2 (text_append_ne rfl (all item List.mem_cons_self))
    | cons other others =>
      rw [toList_text_cons, toList_text_cons] at same
      obtain ⟨here, same⟩ := decides item List.mem_cons_self other List.mem_cons_self
        (noDigit_further items rest) (noDigit_further others more) (List.cons.inj same).2
      obtain ⟨later, same⟩ := further_inj (fun value mem value' mem' =>
        decides value (List.mem_cons_of_mem _ mem) value' (List.mem_cons_of_mem _ mem')) same
      exact ⟨congrArg₂ List.cons here later, same⟩

/-- **The text of a literal without floating point numbers decides which literal it is.** -/
theorem Exact.decides (exact : constant.Exact) (exact' : other.Exact) :
    Text.Decides (fun constant => constant.text.toList) Eq constant other := by
  intro rest more ends ends' same
  have kinds := kind_eq exact exact' same
  induction exact generalizing other rest more with
  | null =>
    cases exact' with
    | null => exact ⟨rfl, List.append_cancel_left same⟩
    | _ => cases kinds
  | bool value =>
    cases exact' with
    | bool value' =>
      cases kinds
      exact ⟨rfl, List.append_cancel_left same⟩
    | _ => cases kinds
  | int value =>
    cases exact' with
    | int value' =>
      obtain ⟨number, same⟩ := Text.int_append_inj ends ends' same
      exact ⟨congrArg _ (Int64.toInt_inj.1 number), same⟩
    | _ => cases kinds
  | string value =>
    cases exact' with
    | string value' => exact (Text.quoteShown_append_inj same).imp_left (congrArg _)
    | _ => cases kinds
  | @list items all ih =>
    cases exact' with
    | @list others all' =>
      have decides : ∀ item ∈ items, ∀ other ∈ others,
          Text.Decides (fun item => item.text.toList) Eq item other := by
        intro item mem other mem' rest more ends ends' same
        exact ih item mem (all' other mem') ends ends' same
          (kind_eq (all item mem) (all' other mem') same)
      exact (list_append_inj all all' decides same).imp_left (congrArg _)
    | _ => cases kinds

end Constant

end RuleEditor
