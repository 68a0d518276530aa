import RuleEditor.Json.Source
import RuleEditor.Proofs.Binary64.Shortest

/-!
# Reading written numbers

**Spelling.** `Number.numeral` is the number as it is spelled: a whole number with all its digits,
a floating point number with its shortest ones, and with zeros behind them where the point comes
after the digits.

**Reading.** What is read of the text of a number is this numeral, whatever follows as long as the
number ends there (`Ends`), and its value is the number again: the shortest digits read back, and
zeros behind them do not change what they are read as.
-/

namespace RuleEditor.Json

/-- What may follow a value: nothing, a comma, or a closing bracket. -/
def Ends (rest : List Char) : Prop := ∀ c ∈ rest.head?, c ∈ [',', ']', '\x7d']

/-- The text does not go on with a digit, so a number ends there or goes on with something else. -/
def NoDigit (rest : List Char) : Prop := ∀ c ∈ rest.head?, c.isDigit = false

theorem Ends.noDigit {rest : List Char} (ends : Ends rest) : NoDigit rest := by
  intro c first
  have mem := ends c first
  simp only [List.mem_cons, List.not_mem_nil, or_false] at mem
  rcases mem with rfl | rfl | rfl <;> rfl

/-! ## Digits -/

variable {digits rest : List Char}

theorem takeWhile_digits (all : ∀ c ∈ digits, c.isDigit = true) (stop : NoDigit rest) :
    (digits ++ rest).takeWhile Char.isDigit = digits ∧
      (digits ++ rest).dropWhile Char.isDigit = rest := by
  induction digits with
  | nil =>
    cases rest with
    | nil => exact ⟨rfl, rfl⟩
    | cons c rest =>
      have other : c.isDigit = false := stop c rfl
      simp [other]
  | cons c digits ih =>
    obtain ⟨digit, all⟩ := List.forall_mem_cons.1 all
    obtain ⟨taken, dropped⟩ := ih all
    simp [digit, taken, dropped]

theorem readDigits_append (some : digits ≠ []) (all : ∀ c ∈ digits, c.isDigit = true)
    (stop : NoDigit rest) : readDigits (digits ++ rest) = .ok (digits, rest) := by
  obtain ⟨taken, dropped⟩ := takeWhile_digits all stop
  unfold readDigits
  rw [taken, dropped]
  split
  · exact absurd rfl some
  · exact absurd rfl some
  · rfl

theorem readFraction_none (other : rest.head? ≠ some '.') :
    readFraction rest = .ok (none, rest) := by
  unfold readFraction
  split
  · exact absurd rfl other
  · rfl

theorem readFraction_some (some : digits ≠ []) (all : ∀ c ∈ digits, c.isDigit = true)
    (stop : NoDigit rest) :
    readFraction ('.' :: (digits ++ rest)) = .ok (.some digits, rest) := by
  rw [readFraction, readDigits_append some all stop]
  rfl

theorem readExponent_none (ends : Ends rest) : readExponent rest = .ok (none, rest) := by
  unfold readExponent
  split
  · exact absurd (ends 'e' rfl) (by decide)
  · exact absurd (ends 'E' rfl) (by decide)
  · rfl

theorem readExponent_some (negative : Bool) (some : digits ≠ [])
    (all : ∀ c ∈ digits, c.isDigit = true) (stop : NoDigit rest) :
    readExponent ('e' :: (if negative then '-' else '+') :: (digits ++ rest)) =
      .ok (.some ((if negative then -1 else 1) * Nat.ofDigitChars 10 digits 0), rest) := by
  cases negative <;> simp [readExponent, readDigits_append some all stop, Except.map]

/-! ## Unsigned numbers -/

/-- A number with a fraction or an exponent, or without, and without zeros in front. -/
theorem readNumeral_append (negative : Bool) (whole fraction : List Char) {exponent : List Char}
    {digits' : Option (List Char)} {power : Option Int}
    (some : whole ≠ []) (all : ∀ c ∈ whole, c.isDigit = true)
    (plain : whole.length = 1 ∨ whole.head? ≠ '0')
    (stop : NoDigit (fraction ++ exponent))
    (readsFraction : readFraction (fraction ++ exponent) = .ok (digits', exponent))
    (readsExponent : readExponent exponent = .ok (power, rest)) :
    readNumeral negative (whole ++ (fraction ++ exponent)) =
      .ok (⟨negative, Nat.ofDigitChars 10 (whole ++ digits'.getD []) 0,
        power.getD 0 - (digits'.getD []).length, digits'.isNone && power.isNone⟩, rest) := by
  have legal : ¬(whole.length ≠ 1 ∧ whole.head? = '0') := fun both =>
    plain.elim both.1 fun other => other both.2
  simp only [readNumeral, readDigits_append some all stop, bind, Except.bind, if_neg legal,
    readsFraction, readsExponent, pure, Except.pure]

/-! ## Spelling -/

/-- The zeros that are written between the digits of a number and its point, and one behind it. -/
def paddingOf (d : Decimal) : Nat :=
  if Binary64.positionalInJson d.leading ∧ 0 ≤ d.exponent then d.exponent.toNat + 1 else 0

/-- The number as it is spelled. -/
def Number.numeral : Number → Numeral
  | .integer n _ => ⟨n < 0, n.natAbs, 0, true⟩
  | .real x _ =>
    let d := x.shortest .toEven
    ⟨x.negative, d.digits * 10 ^ paddingOf d, d.exponent - paddingOf d, false⟩

theorem Numeral.value?_eq_integer {numeral : Numeral} {n : Int}
    (whole : numeral.whole = true ∧ ¬(numeral.negative = true ∧ numeral.digits = 0))
    (signed : (if numeral.negative then -(numeral.digits : Int) else numeral.digits) = n)
    (inRange : -0x8000000000000000 ≤ n ∧ n < 0x10000000000000000) :
    numeral.value? = some (.integer n inRange) := by
  subst signed
  exact dif_pos ⟨whole, inRange⟩

theorem Numeral.value?_eq_real {numeral : Numeral} {x : Binary64} (finite : x.isFinite = true)
    (whole : numeral.whole = false)
    (nearest : Decimal.nearest numeral.negative ⟨numeral.digits, numeral.exponent⟩ = x) :
    numeral.value? = some (.real x finite) := by
  have other : ¬numeral.whole = true := by rw [whole]; exact Bool.false_ne_true
  subst nearest
  exact (dif_neg fun exact => other exact.1.1).trans (dif_pos finite)

/-- The spelling of a number has this number as its value. -/
theorem Number.value?_numeral (n : Number) : n.numeral.value? = some n := by
  cases n with
  | integer n inRange =>
    refine Numeral.value?_eq_integer ⟨rfl, ?_⟩ ?_ inRange
    · rintro ⟨negative, zero⟩
      have negative : n < 0 := of_decide_eq_true negative
      have zero : n.natAbs = 0 := zero
      omega
    · show (if decide (n < 0) = true then -(n.natAbs : Int) else n.natAbs) = n
      split
      · next negative =>
        have negative := of_decide_eq_true negative
        omega
      · next positive =>
        have positive : ¬n < 0 := fun negative => positive (decide_eq_true negative)
        omega
  | real x finite =>
    refine Numeral.value?_eq_real finite rfl ?_
    generalize shortest : x.shortest .toEven = d
    have value :
        Decimal.value ⟨d.digits * 10 ^ paddingOf d, d.exponent - paddingOf d⟩ = d.value := by
      have ten : (10 : ℚ) ≠ 0 := by norm_num
      rw [Decimal.value, Decimal.value, zpow_sub₀ ten, zpow_natCast, Nat.cast_mul, Nat.cast_pow]
      field_simp
      norm_num
    have magnitude := Decimal.magnitude_congr value
    rw [← shortest, Binary64.magnitude_shortest .toEven finite] at magnitude
    simp only [numeral, Decimal.nearest, magnitude]

/-! ## Written digits -/

theorem isDigit_toDigits (n : Nat) : ∀ c ∈ Nat.toDigits 10 n, c.isDigit = true := fun _ mem =>
  Nat.isDigit_of_mem_toDigits (by decide) (by decide) mem

/-- A whole number is written as its digits, behind its sign. -/
theorem toList_int (n : Int) :
    (toString n).toList = (if n < 0 then ['-'] else []) ++ Nat.toDigits 10 n.natAbs := by
  rw [Int.toString_eq_repr, Int.repr_eq_if]
  by_cases negative : n < 0
  · have size : (-n).toNat = n.natAbs := by omega
    rw [if_neg (Int.not_le.2 negative), if_pos negative, String.toList_append, Nat.toList_repr,
      size]
    rfl
  · have size : n.toNat = n.natAbs := by omega
    rw [if_pos (Int.not_lt.1 negative), if_neg negative, Nat.toList_repr, size, List.nil_append]

theorem isDigit_replicate_zero (count : Nat) :
    ∀ c ∈ List.replicate count '0', c.isDigit = true := by
  intro c mem
  rw [List.eq_of_mem_replicate mem]
  rfl

theorem isDigit_append {more : List Char} (first : ∀ c ∈ digits, c.isDigit = true)
    (second : ∀ c ∈ more, c.isDigit = true) : ∀ c ∈ digits ++ more, c.isDigit = true :=
  List.forall_mem_append.2 ⟨first, second⟩

/-- Only zero is written with a zero in front. -/
theorem head?_toDigits {n : Nat} (positive : 0 < n) : (Nat.toDigits 10 n).head? ≠ some '0' := by
  induction n using Nat.strongRecOn with
  | _ n ih =>
    rcases Nat.lt_or_ge n 10 with small | large
    · rw [Nat.toDigits_of_lt_base small]
      intro zero
      exact positive.ne' (Nat.digitChar_eq_zero.1 (Option.some.inj zero))
    · rw [Nat.toDigits_of_base_le (by decide) large,
        List.head?_append_of_ne_nil _ Nat.toDigits_ne_nil]
      exact ih (n / 10) (by omega) (by omega)

theorem plain_toDigits (n : Nat) :
    (Nat.toDigits 10 n).length = 1 ∨ (Nat.toDigits 10 n).head? ≠ some '0' := by
  rcases Nat.eq_zero_or_pos n with rfl | positive
  · exact Or.inl rfl
  · exact Or.inr (head?_toDigits positive)

/-! ## Whole numbers -/

theorem readNumeral_toDigits (negative : Bool) (n : Nat) (ends : Ends rest) :
    readNumeral negative (Nat.toDigits 10 n ++ rest) = .ok (⟨negative, n, 0, true⟩, rest) := by
  have noPoint : rest.head? ≠ some '.' := fun point => absurd (ends '.' point) (by decide)
  have read := readNumeral_append negative (Nat.toDigits 10 n) [] Nat.toDigits_ne_nil
    (isDigit_toDigits n) (plain_toDigits n) ends.noDigit (readFraction_none noPoint)
    (readExponent_none ends)
  simpa [Nat.ofDigitChars_ten_toDigits] using read

/-! ## Floating point numbers -/

section Decimal

variable {d : Decimal} {negative : Bool}

theorem length_toDigits (d : Decimal) :
    ((Nat.toDigits 10 d.digits).length : Int) = d.leading - d.exponent + 1 := by
  rw [Decimal.leading, digitCount]
  omega

/-- Zeros between the point and the digits. -/
theorem readNumeral_below_one (d : Decimal) (small : d.leading < 0) (ends : Ends rest) :
    readNumeral negative (d.positional.toList ++ rest) =
      .ok (⟨negative, d.digits, d.exponent, false⟩, rest) := by
  have length := length_toDigits d
  generalize gap : (-d.leading - 1).toNat = zeros
  have text : d.positional.toList ++ rest =
      ['0'] ++ ('.' :: ((List.replicate zeros '0' ++ Nat.toDigits 10 d.digits) ++ rest)) := by
    simp [Decimal.positional, if_pos small, RuleEditor.zeros, gap]
  have filled : List.replicate zeros '0' ++ Nat.toDigits 10 d.digits ≠ [] :=
    List.append_ne_nil_of_right_ne_nil _ Nat.toDigits_ne_nil
  have read := readNumeral_append negative ['0']
    ('.' :: (List.replicate zeros '0' ++ Nat.toDigits 10 d.digits)) (by simp) (by simp)
    (Or.inl rfl) (fun c first => by cases first; rfl)
    (readFraction_some filled (isDigit_append (isDigit_replicate_zero _) (isDigit_toDigits _))
      ends.noDigit) (readExponent_none ends)
  have exponent : (0 : Int) - (zeros + (Nat.toDigits 10 d.digits).length : Nat) = d.exponent := by
    omega
  rw [text]
  refine Eq.trans read ?_
  simp [Nat.ofDigitChars_cons, Nat.ofDigitChars_append, Nat.ofDigitChars_replicate_zero,
    Nat.ofDigitChars_ten_toDigits, ← exponent]

/-- Zeros between the digits and the point. -/
theorem readNumeral_whole (d : Decimal) (large : 0 ≤ d.leading) (whole : 0 ≤ d.exponent)
    (zero : d.digits = 0 → d.exponent = 0) (ends : Ends rest) :
    readNumeral negative (d.positional.toList ++ rest) =
      .ok (⟨negative, d.digits * 10 ^ (d.exponent.toNat + 1), -1, false⟩, rest) := by
  have length := length_toDigits d
  have fits : (Nat.toDigits 10 d.digits).length ≤ (d.leading + 1).toNat := by omega
  have gap : (d.leading + 1).toNat - (Nat.toDigits 10 d.digits).length = d.exponent.toNat := by
    omega
  have text : d.positional.toList ++ rest =
      (Nat.toDigits 10 d.digits ++ List.replicate d.exponent.toNat '0') ++
        ('.' :: (['0'] ++ rest)) := by
    simp [Decimal.positional, if_neg (Int.not_lt.2 large), if_pos fits, gap, RuleEditor.zeros]
  have plain : (Nat.toDigits 10 d.digits ++ List.replicate d.exponent.toNat '0').length = 1 ∨
      (Nat.toDigits 10 d.digits ++ List.replicate d.exponent.toNat '0').head? ≠ some '0' := by
    rcases Nat.eq_zero_or_pos d.digits with none | positive
    · left
      simp [none, zero none]
    · right
      rw [List.head?_append_of_ne_nil _ Nat.toDigits_ne_nil]
      exact head?_toDigits positive
  have point : readFraction ('.' :: (['0'] ++ rest)) = .ok (some ['0'], rest) :=
    readFraction_some (by simp) (by simp) ends.noDigit
  have read := readNumeral_append negative
    (Nat.toDigits 10 d.digits ++ List.replicate d.exponent.toNat '0') ['.', '0']
    (List.append_ne_nil_of_left_ne_nil Nat.toDigits_ne_nil _)
    (isDigit_append (isDigit_toDigits d.digits) (isDigit_replicate_zero _)) plain
    (fun c first => by cases first; rfl) point (readExponent_none ends)
  rw [text]
  refine Eq.trans read ?_
  simp [Nat.ofDigitChars_append, Nat.ofDigitChars_replicate_zero, Nat.ofDigitChars_ten_toDigits,
    Nat.ofDigitChars_cons, Nat.pow_succ]
  ring

/-- The point between the digits. -/
theorem readNumeral_between (d : Decimal) (large : 0 ≤ d.leading) (broken : d.exponent < 0)
    (ends : Ends rest) :
    readNumeral negative (d.positional.toList ++ rest) =
      .ok (⟨negative, d.digits, d.exponent, false⟩, rest) := by
  have length := length_toDigits d
  generalize written : Nat.toDigits 10 d.digits = digits at length
  generalize places : (d.leading + 1).toNat = whole
  have long : ¬digits.length ≤ whole := by omega
  have text : d.positional.toList ++ rest =
      digits.take whole ++ ('.' :: (digits.drop whole ++ rest)) := by
    simp [Decimal.positional, if_neg (Int.not_lt.2 large), written, places, if_neg long]
  have allDigits : ∀ c ∈ digits, c.isDigit = true := written ▸ isDigit_toDigits d.digits
  have plain : (digits.take whole).length = 1 ∨ (digits.take whole).head? ≠ some '0' := by
    rw [List.head?_take, if_neg (by omega), List.length_take]
    rcases written ▸ plain_toDigits d.digits with one | other
    · left
      omega
    · exact Or.inr other
  have read := readNumeral_append negative (digits.take whole) ('.' :: digits.drop whole)
    (List.ne_nil_of_length_pos (by rw [List.length_take]; omega))
    (fun c mem => allDigits c (List.mem_of_mem_take mem)) plain (fun c first => by cases first; rfl)
    (readFraction_some (List.ne_nil_of_length_pos (by rw [List.length_drop]; omega))
      (fun c mem => allDigits c (List.mem_of_mem_drop mem)) ends.noDigit) (readExponent_none ends)
  have exponent : (0 : Int) - (digits.drop whole).length = d.exponent := by
    rw [List.length_drop]
    omega
  rw [text]
  refine Eq.trans read ?_
  simp only [Option.getD_some, Option.getD_none, List.take_append_drop, exponent]
  rw [← written, Nat.ofDigitChars_ten_toDigits]
  rfl

/-- The exponent of the leading digit, with its sign. -/
theorem readExponent_leading (d : Decimal) (ends : Ends rest) :
    readExponent ('e' :: (if decide (d.leading < 0) then '-' else '+') ::
      (Nat.toDigits 10 d.leading.natAbs ++ rest)) = .ok (some d.leading, rest) := by
  rw [readExponent_some _ Nat.toDigits_ne_nil (isDigit_toDigits _) ends.noDigit,
    Nat.ofDigitChars_ten_toDigits]
  have signed : (if decide (d.leading < 0) then -1 else 1) * (d.leading.natAbs : Int) =
      d.leading := by
    by_cases negative : d.leading < 0
    · rw [if_pos (decide_eq_true negative)]
      omega
    · rw [if_neg (by rw [decide_eq_true_iff]; exact negative)]
      omega
  rw [signed]

/-- One digit before the point. -/
theorem readNumeral_scientific (d : Decimal) (ends : Ends rest) :
    readNumeral negative (d.scientific.toList ++ rest) =
      .ok (⟨negative, d.digits, d.exponent, false⟩, rest) := by
  have length := length_toDigits d
  have some : Nat.toDigits 10 d.digits ≠ [] := Nat.toDigits_ne_nil
  have value := Nat.ofDigitChars_ten_toDigits (n := d.digits)
  have all := isDigit_toDigits d.digits
  have readsExponent := readExponent_leading d ends
  generalize shown : 'e' :: (if decide (d.leading < 0) then '-' else '+') ::
    (Nat.toDigits 10 d.leading.natAbs ++ rest) = exponent at readsExponent
  have noDigit : NoDigit exponent := by
    rw [← shown]
    exact fun c first => by cases first; rfl
  have noPoint : exponent.head? ≠ '.' := by
    rw [← shown]
    exact fun point => by cases point
  have text : d.scientific.toList ++ rest = (Nat.toDigits 10 d.digits).take 1 ++
      ((if ((Nat.toDigits 10 d.digits).drop 1).isEmpty then []
        else '.' :: (Nat.toDigits 10 d.digits).drop 1) ++ exponent) := by
    rw [← shown, Decimal.scientific]
    by_cases negative : d.leading < 0 <;> split <;> simp [negative]
  rw [text]
  generalize Nat.toDigits 10 d.digits = digits at *
  obtain ⟨first, fraction, rfl⟩ := List.exists_cons_of_ne_nil some
  obtain ⟨digit, allFraction⟩ := List.forall_mem_cons.1 all
  cases fraction with
  | nil =>
    have read := readNumeral_append negative [first] [] (by simp) (by simpa using digit)
      (Or.inl rfl) noDigit (readFraction_none noPoint) readsExponent
    have power : d.leading = d.exponent := by
      rw [List.length_singleton] at length
      omega
    refine Eq.trans read ?_
    simp [value, power]
  | cons second fraction =>
    have read := readNumeral_append negative [first] ('.' :: second :: fraction) (by simp)
      (by simpa using digit) (Or.inl rfl) (fun c first => by cases first; rfl)
      (readFraction_some (by simp) allFraction noDigit) readsExponent
    have power : d.leading - (second :: fraction).length = d.exponent := by
      rw [List.length_cons] at length
      omega
    refine Eq.trans read ?_
    simp only [Option.getD_some, List.singleton_append, value, power]
    rfl

end Decimal

/-! ## Texts of numbers -/

/-- The text of a number after its sign. -/
def Number.unsigned : Number → List Char
  | .integer n _ => Nat.toDigits 10 n.natAbs
  | .real x _ =>
    let d := x.shortest .toEven
    (if Binary64.positionalInJson d.leading then d.positional else d.scientific).toList

theorem Number.toList_text (n : Number) :
    n.text.toList = (if n.numeral.negative then ['-'] else []) ++ n.unsigned := by
  cases n with
  | integer n inRange =>
    simpa [text, numeral, unsigned] using toList_int n
  | real x finite =>
    show (x.sign ++ _).toList = (if x.negative = true then ['-'] else []) ++ _
    rw [String.toList_append, Binary64.sign]
    by_cases negative : x.negative = true <;> simp [negative, unsigned]

/-- What is read of the text of a number is its spelling. -/
theorem readNumeral_unsigned (n : Number) (ends : Ends rest) :
    readNumeral n.numeral.negative (n.unsigned ++ rest) = .ok (n.numeral, rest) := by
  cases n with
  | integer n inRange => exact readNumeral_toDigits _ _ ends
  | real x finite =>
    have zero : (x.shortest .toEven).digits = 0 → (x.shortest .toEven).exponent = 0 :=
      Decimal.exponent_trim
    simp only [Number.numeral, Number.unsigned, paddingOf]
    generalize x.shortest .toEven = d at zero
    by_cases positional : Binary64.positionalInJson d.leading = true
    · simp only [if_pos positional]
      by_cases whole : 0 ≤ d.exponent
      · have large : 0 ≤ d.leading := by
          have length := length_toDigits d
          have some : 0 < (Nat.toDigits 10 d.digits).length := Nat.length_toDigits_pos
          omega
        have power : d.exponent - (d.exponent.toNat + 1 : Nat) = -1 := by omega
        rw [readNumeral_whole d large whole zero ends]
        simp only [if_pos (And.intro positional whole), power]
      · simp only [if_neg fun both : _ ∧ _ => whole both.2]
        rcases Int.lt_or_le d.leading 0 with small | large
        · rw [readNumeral_below_one d small ends]
          simp
        · rw [readNumeral_between d large (Int.not_le.1 whole) ends]
          simp
    · have broken : ¬(Binary64.positionalInJson d.leading = true ∧ 0 ≤ d.exponent) :=
        fun both => positional both.1
      simp only [if_neg positional, if_neg broken]
      rw [readNumeral_scientific d ends]
      simp

end RuleEditor.Json
