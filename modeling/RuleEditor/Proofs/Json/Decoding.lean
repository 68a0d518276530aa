import RuleEditor.Json.Decode
import RuleEditor.Proofs.Action
import RuleEditor.Proofs.Json.Reading
import RuleEditor.Proofs.Keyed

/-!
# What decoders accept

What a decoded list, table or record is made of.

**Lists and tables.** Every value of a decoded collection has been decoded from some part of the
text (`list_eq_ok`, `entries_eq_ok`). A table has no key twice.

**Records.** A record holds whatever held before any field was read and is kept by every field
(`record_keeps`). The order of the fields does not matter for this, nor which of them are missing.

**Written values.** A written array is decoded item by item, a written object without a repeated key
member by member, and a record of fields that may be missing from its members in turn
(`record_of_parts`).
-/

namespace RuleEditor.Json.Source

variable {α σ : Type}

theorem optional_of_ne_null {source : Source} (other : source ≠ .null)
    (decode : Source → Except Fault α) : optional decode source = (decode source).map some := by
  unfold optional
  split
  · exact absurd rfl other
  · rfl

theorem optional_eq_some {decode : Source → Except Fault α} {source : Source} {value : α}
    (read : optional decode source = .ok (some value)) : decode source = .ok value := by
  unfold optional at read
  split at read
  · cases read
  · cases decoded : decode source with
    | error fault =>
      rw [decoded] at read
      cases read
    | ok other =>
      rw [decoded] at read
      cases read
      rfl

theorem parse_eq_ok {decode : Source → Except Fault α} {text : String} {value : α}
    (read : parse decode text = .ok value) : ∃ source, decode source = .ok value := by
  rw [parse] at read
  generalize Source.read text = parts at read
  obtain ⟨source, rest⟩ := parts
  obtain ⟨other, decoded, read⟩ := Except.bind_eq_ok.1 read
  split at read
  · cases read
    exact ⟨source, decoded⟩
  · cases read

/-! ## Lists and tables -/

theorem exists_of_mem_mapM {β : Type} {decode : β → Except Fault α} {items : List β} :
    ∀ {values : List α}, items.mapM decode = .ok values →
      ∀ value ∈ values, ∃ item ∈ items, decode item = .ok value := by
  induction items with
  | nil =>
    rintro _ ⟨⟩
    exact nofun
  | cons item items ih =>
    intro values read
    rw [List.mapM_cons] at read
    obtain ⟨first, decoded, read⟩ := Except.bind_eq_ok.1 read
    obtain ⟨later, others, eq⟩ := Except.bind_eq_ok.1 read
    cases eq
    refine List.forall_mem_cons.2 ⟨⟨item, List.mem_cons_self, decoded⟩, fun value mem => ?_⟩
    obtain ⟨item', mem', decoded'⟩ := ih others value mem
    exact ⟨item', List.mem_cons_of_mem _ mem', decoded'⟩

theorem list_eq_ok {decode : Source → Except Fault α} {source : Source} {values : List α}
    (read : list decode source = .ok values) :
    ∀ value ∈ values, ∃ item, decode item = .ok value := by
  unfold list at read
  split at read
  · obtain ⟨decoded, all, read⟩ := Except.bind_eq_ok.1 read
    obtain ⟨_, -, eq⟩ := Except.bind_eq_ok.1 read
    cases eq
    intro value mem
    obtain ⟨item, -, decoded⟩ := exists_of_mem_mapM all value mem
    exact ⟨item, decoded⟩
  · cases read

theorem entries_eq_ok {decode : Source → Except Fault α} {source : Source}
    {stored : List (String × α)} (read : entries decode source = .ok stored) :
    (stored.map Prod.fst).Nodup ∧ ∀ entry ∈ stored, ∃ item, decode item = .ok entry.2 := by
  unfold entries at read
  split at read
  · obtain ⟨decoded, all, read⟩ := Except.bind_eq_ok.1 read
    obtain ⟨_, -, eq⟩ := Except.bind_eq_ok.1 read
    cases eq
    refine ⟨Entries.nodup_storeAll decoded .nil, ?_⟩
    refine Entries.forall_storeAll (P := fun value => ∃ item, decode item = .ok value) ?_ nofun
    intro entry mem
    obtain ⟨member, -, taken⟩ := exists_of_mem_mapM all entry mem
    obtain ⟨key, -, taken⟩ := Except.bind_eq_ok.1 taken
    obtain ⟨value, decoded, eq⟩ := Except.bind_eq_ok.1 taken
    cases eq
    exact ⟨member.2, decoded⟩
  · cases read

/-! ## Records -/

/-- Every value of the field leaves a record with the property as one with the property. -/
def Field.Keeps (field : Field σ) (P : σ → Prop) : Prop :=
  ∀ source set, field.decode source = .ok set → ∀ record, P record → P (set record)

theorem field_keeps {P : σ → Prop} {decode : Source → Except Fault α} {set : α → σ → σ}
    (key : String)
    (keeps : ∀ source value, decode source = .ok value →
      ∀ record, P record → P (set value record)) :
    (field key decode set).Keeps P := by
  intro source change read
  replace read : (decode source).map set = .ok change := read
  cases decoded : decode source with
  | error fault =>
    rw [decoded] at read
    cases read
  | ok value =>
    rw [decoded] at read
    cases read
    exact keeps source value decoded

variable {fields : List (Field σ)} {blank result : σ} {P : σ → Prop}

theorem recordMember_keeps (keeps : ∀ field ∈ fields, field.Keeps P)
    {record : σ} {seen : List String} {member : Option String × Source} {next : σ × List String}
    (own : P record) (read : recordMember fields (record, seen) member = .ok next) : P next.1 := by
  unfold recordMember at read
  obtain ⟨key, -, read⟩ := Except.bind_eq_ok.1 read
  split at read
  · obtain ⟨_, -, eq⟩ := Except.bind_eq_ok.1 read
    cases eq
    exact own
  · next field known =>
    split at read
    · cases read
    · obtain ⟨set, decoded, eq⟩ := Except.bind_eq_ok.1 read
      cases eq
      exact keeps field (List.mem_of_find?_eq_some known) _ set decoded _ own

theorem recordMembers_keep (keeps : ∀ field ∈ fields, field.Keeps P)
    (members : List (Option String × Source)) :
    ∀ {record : σ} {seen : List String} {next : σ × List String}, P record →
      members.foldlM (recordMember fields) (record, seen) = .ok next → P next.1 := by
  induction members with
  | nil =>
    rintro record seen next own ⟨⟩
    exact own
  | cons member rest ih =>
    intro record seen next own read
    rw [List.foldlM_cons] at read
    obtain ⟨mid, taken, read⟩ := Except.bind_eq_ok.1 read
    exact ih (recordMember_keeps keeps own taken) read

theorem recordItems_keep {cut : Option Cut} (keeps : ∀ field ∈ fields, field.Keeps P)
    {items : List Source} :
    ∀ {record : σ}, P record → recordItems cut fields items record = .ok result → P result := by
  induction fields generalizing items with
  | nil =>
    intro record own read
    cases items with
    | nil =>
      obtain ⟨_, -, eq⟩ := Except.bind_eq_ok.1 read
      cases eq
      exact own
    | cons => cases read
  | cons field fields ih =>
    obtain ⟨first, later⟩ := List.forall_mem_cons.1 keeps
    intro record own read
    cases items with
    | nil =>
      obtain ⟨_, -, read⟩ := Except.bind_eq_ok.1 read
      split at read
      · cases read
      · exact ih later own read
    | cons item items =>
      obtain ⟨set, decoded, read⟩ := Except.bind_eq_ok.1 read
      exact ih later (first item set decoded record own) read

/-- **What every field keeps holds of every record**, written as an object or as an array. -/
theorem record_keeps (own : P blank) (keeps : ∀ field ∈ fields, field.Keeps P) {source : Source}
    (read : record fields blank source = .ok result) : P result := by
  unfold record at read
  split at read
  · obtain ⟨state, taken, read⟩ := Except.bind_eq_ok.1 read
    obtain ⟨_, -, read⟩ := Except.bind_eq_ok.1 read
    split at read
    · cases read
    · cases read
      exact recordMembers_keep keeps _ own taken
  · exact recordItems_keep keeps own read
  · cases read

/-! ## Written collections -/

theorem list_sourceItems (decode : Source → Except Fault α) (items : List Json) :
    list decode (.array (sourceItems items) none) = items.mapM fun item => decode item.source := by
  have each : (sourceItems items).mapM decode = items.mapM fun item => decode item.source := by
    induction items with
    | nil => rfl
    | cons item rest ih => rw [sourceItems, List.mapM_cons, List.mapM_cons, ih]
  rw [list, each]
  cases items.mapM fun item => decode item.source <;> rfl

/-- Decodes the value of a member. -/
def member (decode : Source → Except Fault α) (member : String × Json) :
    Except Fault (String × α) := do
  let value ← decode member.2.source
  return (member.1, value)

theorem keys_of_mapM_member {decode : Source → Except Fault α} {members : List (String × Json)} :
    ∀ {values : List (String × α)}, members.mapM (member decode) = .ok values →
      values.map Prod.fst = members.map Prod.fst := by
  induction members with
  | nil =>
    rintro _ ⟨⟩
    rfl
  | cons first rest ih =>
    intro values read
    rw [List.mapM_cons] at read
    obtain ⟨value, taken, read⟩ := Except.bind_eq_ok.1 read
    obtain ⟨later, others, eq⟩ := Except.bind_eq_ok.1 read
    cases eq
    obtain ⟨content, -, eq⟩ := Except.bind_eq_ok.1 taken
    cases eq
    exact congrArg (first.1 :: ·) (ih others)

theorem entries_sourceMembers (decode : Source → Except Fault α) {members : List (String × Json)}
    (distinct : (members.map Prod.fst).Nodup) :
    entries decode (.object (sourceMembers members) none) = members.mapM (member decode) := by
  have each : ((sourceMembers members).mapM fun entry => do
      let key ← keyText entry.1
      let value ← decode entry.2
      return (key, value)) = members.mapM (member decode) := by
    clear distinct
    induction members with
    | nil => rfl
    | cons first rest ih =>
      obtain ⟨key, value⟩ := first
      rw [sourceMembers, List.mapM_cons, List.mapM_cons, ih]
      rfl
  have read : entries decode (.object (sourceMembers members) none) =
      (members.mapM (member decode) >>= fun values =>
        .ok (values.foldl (fun stored entry => Entries.store entry.1 entry.2 stored) [])) := by
    rw [← each]
    rfl
  rw [read]
  cases read : members.mapM (member decode) with
  | error fault => rfl
  | ok values =>
    rw [← keys_of_mapM_member read] at distinct
    exact congrArg Except.ok (Entries.storeAll_of_nodup distinct)

/-! ## Written records -/

/-- Reads the fields of a record one after another, each from its part of the text. -/
def readParts : List (Field σ × Source) → σ → Except Fault σ
  | [], record => .ok record
  | (field, source) :: rest, record => do
    let set ← field.decode source
    readParts rest (set record)

theorem readParts_field (key : String) (decode : Source → Except Fault α) (set : α → σ → σ)
    (source : Source) (rest : List (Field σ × Source)) (record : σ) :
    readParts ((field key decode set, source) :: rest) record =
      (do
        let value ← decode source
        readParts rest (set value record)) := by
  show ((decode source).map set >>= fun change => readParts rest (change record)) = _
  cases decode source <;> rfl

theorem recordMember_of_find {field : Field σ}
    (known : fields.find? (·.key = field.key) = some field) {seen : List String}
    (new : field.key ∉ seen) (record : σ) (source : Source) :
    recordMember fields (record, seen) (some field.key, source) =
      (do
        let set ← field.decode source
        return (set record, field.key :: seen)) := by
  simp only [recordMember, keyText, bind, Except.bind, known, if_neg new]

/-- Members that have fields of their own are read in the order in which they stand. -/
theorem foldlM_parts (parts : List (Field σ × Source)) :
    ∀ {record : σ} {seen : List String},
      (∀ part ∈ parts, fields.find? (·.key = part.1.key) = some part.1) →
      (parts.map (·.1.key)).Nodup → (∀ part ∈ parts, part.1.key ∉ seen) →
      (do
        let state ← (parts.map fun part => (some part.1.key, part.2)).foldlM (recordMember fields)
          (record, seen)
        return state.1) = readParts parts record := by
  induction parts with
  | nil => exact fun _ _ _ => rfl
  | cons part rest ih =>
    obtain ⟨field, source⟩ := part
    intro record seen known distinct new
    obtain ⟨here, later⟩ := List.forall_mem_cons.1 known
    obtain ⟨newHere, newLater⟩ := List.forall_mem_cons.1 new
    rw [List.map_cons, List.nodup_cons] at distinct
    rw [List.map_cons, List.foldlM_cons, recordMember_of_find here newHere, readParts]
    cases field.decode source with
    | error fault => rfl
    | ok set =>
      refine ih later distinct.2 fun part mem read => ?_
      rcases List.mem_cons.1 read with same | before
      · exact distinct.1 (List.mem_map.2 ⟨part, mem, same⟩)
      · exact newLater part mem before

/-- A record without required fields is read from its members one after another. -/
theorem record_of_parts {parts : List (Field σ × Source)} (blank : σ)
    (free : ∀ field ∈ fields, field.required = false)
    (known : ∀ part ∈ parts, fields.find? (·.key = part.1.key) = some part.1)
    (distinct : (parts.map (·.1.key)).Nodup) :
    record fields blank (.object (parts.map fun part => (some part.1.key, part.2)) none) =
      readParts parts blank := by
  rw [← foldlM_parts parts known distinct fun _ _ => List.not_mem_nil, record]
  cases (parts.map fun part => (some part.1.key, part.2)).foldlM (recordMember fields)
      (blank, []) with
  | error fault => rfl
  | ok state =>
    have nothing : (fields.any fun field => field.required && !decide (field.key ∈ state.2)) =
        false := by
      rw [List.any_eq_false]
      intro field mem
      rw [free field mem]
      exact Bool.false_ne_true
    show (if _ then _ else _) = _
    rw [nothing]
    rfl

end RuleEditor.Json.Source
