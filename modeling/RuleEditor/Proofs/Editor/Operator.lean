import RuleEditor.Proofs.Editor.Distinct
import RuleEditor.Proofs.Editor.Offers
import RuleEditor.Proofs.Path.Replacement
import RuleEditor.Proofs.Path.Walk
import RuleEditor.Proofs.Validation.Complete

/-!
# Changing the operator of a node

**Operands** (`Node.Renames`). A node that becomes another operator keeps its operands as far as the
new name has room for them; placeholders stand for those that are missing. If the name fixes no
number of operands, all of them stay.

**Validation.** The check of the number of operands and the editor read the same catalogue of names,
so the number is right afterwards. At an operand by position only the node above it can find that it
is not chosen, which makes the new placeholders and the old ones the only ones that are missing.

**Back again** (`Node.setOperator_conforms`). Nothing is cut off and nothing is added if both names
fix the same number of operands and the node had it, or if neither of them fixes any. Setting the
old name again then gives the tree that was there before.
-/

namespace RuleEditor

namespace Node

variable {root node changed updated : Node} {path : Path} {name old : String} {next rest : Nat}
  {kind : RootKind} {context : Option Context}

/-! ## The changed node -/

/-- The placeholders that take the identities from `next` on. -/
def placeholders (next count : Nat) : List Node :=
  (List.range count).map fun index => ⟨next + index, .undefined, none, [], []⟩

theorem blanks_eq (count next : Nat) :
    blanks count next = (placeholders next count, next + count) := by
  induction count generalizing next with
  | zero => rfl
  | succ count ih =>
    have shifted : placeholders next (count + 1) =
        ⟨next, .undefined, none, [], []⟩ :: placeholders (next + 1) count := by
      simp [placeholders, List.range_succ_eq_map, Function.comp_def, Nat.add_assoc, Nat.add_comm 1]
    have rest := ih (next + 1)
    show ((_ :: (blanks count (next + 1)).1, (blanks count (next + 1)).2) : List Node × Nat) = _
    rw [rest, shifted, Nat.add_assoc, Nat.add_comm 1]

/-- The node under another name, with as many operands as the name fixes, and where the supply of
identities is afterwards. -/
structure Renames (node : Node) (name : String) (next : Nat) (changed : Node) (rest : Nat) :
    Prop where
  id : changed.id = node.id
  function : changed.name = .function name
  constant : changed.constant = node.constant
  named : changed.named = node.named
  fixed : ∀ count, Name.arity name = .fixed count →
    changed.children =
      node.children.take count ++ placeholders next (count - node.children.length) ∧
    rest = next + (count - node.children.length)
  free : (∀ count, Name.arity name ≠ .fixed count) →
    changed.children = node.children ∧ rest = next

theorem withOperator_of_fixed {count : Nat} (fixed : Name.arity name = .fixed count)
    (node : Node) (next : Nat) : node.withOperator name next =
      ({ node.renamed name with
        children := node.children.take count ++ placeholders next (count - node.children.length) },
        next + (count - node.children.length)) := by
  have missing := blanks_eq (count - node.children.length) next
  simp only [withOperator, fixed, bind, StateT.bind, missing]
  rfl

theorem withOperator_of_free (free : ∀ count, Name.arity name ≠ .fixed count)
    (node : Node) (next : Nat) : node.withOperator name next = (node.renamed name, next) := by
  rw [withOperator]
  cases known : Name.arity name with
  | fixed count => exact absurd known (free count)
  | variadic => rfl
  | unchecked => rfl

theorem renames_withOperator (node : Node) (name : String) (next : Nat) :
    node.Renames name next (node.withOperator name next).1 (node.withOperator name next).2 := by
  by_cases fixed : ∃ count, Name.arity name = .fixed count
  · obtain ⟨count, fixed⟩ := fixed
    rw [withOperator_of_fixed fixed]
    refine ⟨rfl, rfl, rfl, rfl, fun other same => ?_, fun free => absurd fixed (free count)⟩
    cases fixed.symm.trans same
    exact ⟨rfl, rfl⟩
  · have free (count : Nat) : Name.arity name ≠ .fixed count := fun same => fixed ⟨count, same⟩
    rw [withOperator_of_free free]
    exact ⟨rfl, rfl, rfl, rfl, fun count same => absurd same (free count), fun _ => ⟨rfl, rfl⟩⟩

theorem reduce_setOperator (found : root.at? path = some node)
    (function : node.function? = some old)
    (renamed : node.withOperator name next = (changed, rest))
    (put : root.put? changed path = some updated) :
    root.reduce (.setOperator path name) next = .ok (updated, rest) := by
  refine StateT.bind_eq_ok.2 ⟨node, next, Edit.located_eq_ok.2 ⟨get_eq_ok.2 found, rfl⟩, ?_⟩
  refine StateT.bind_eq_ok.2 ⟨old, next, Edit.applicable_eq_ok.2 ⟨function, rfl⟩, ?_⟩
  refine StateT.bind_eq_ok.2 ⟨changed, rest, Edit.fresh_eq_ok.2 renamed, ?_⟩
  exact Edit.located_eq_ok.2 ⟨put_eq_ok.2 put, rfl⟩

namespace Renames

variable (renames : node.Renames name next changed rest)

include renames

theorem hasArity : changed.HasArity := by
  intro other count function fixed
  cases (function?_eq_some_iff.2 renames.function).symm.trans function
  rw [(renames.fixed count fixed).1, List.length_append, List.length_take, placeholders,
    List.length_map, List.length_range]
  omega

/-- An operand of the changed node is not chosen if it is new or was not chosen before. -/
theorem undefined_iff {index : Nat} (bound : index < changed.children.length) :
    (∃ operand, changed.children[index]? = some operand ∧ operand.name = .undefined) ↔
      node.children.length ≤ index ∨
        ∃ operand, node.children[index]? = some operand ∧ operand.name = .undefined := by
  by_cases fixed : ∃ count, Name.arity name = .fixed count
  · obtain ⟨count, fixed⟩ := fixed
    have children := (renames.fixed count fixed).1
    have length := renames.hasArity name count (function?_eq_some_iff.2 renames.function) fixed
    rw [length] at bound
    by_cases old : index < node.children.length
    · have kept : changed.children[index]? = node.children[index]? := by
        rw [children, List.getElem?_append_left (by simp; omega), List.getElem?_take_of_lt bound]
      rw [kept, or_iff_right (Nat.not_le.2 old)]
    · let blank : Node := ⟨next + (index - node.children.length), .undefined, none, [], []⟩
      refine iff_of_true ⟨blank, ?_, rfl⟩ (Or.inl (Nat.not_lt.1 old))
      have padded : index - node.children.length < count - node.children.length := by omega
      have short : node.children.take count = node.children := List.take_of_length_le (by omega)
      rw [children, short, List.getElem?_append_right (Nat.not_lt.1 old), placeholders,
        List.getElem?_map, List.getElem?_range padded]
      rfl
  · have same := (renames.free fun count known => fixed ⟨count, known⟩).1
    rw [same] at bound ⊢
    exact (or_iff_right (Nat.not_le.2 bound)).symm

/-- A node that has as many operands as its old name fixed, and as many as the new one fixes, is
the same one under another name. -/
theorem eq_renamed (function : node.function? = some old) (legal : node.HasArity)
    (same : ∀ count, Name.arity old = .fixed count ↔ Name.arity name = .fixed count) :
    changed = node.renamed name ∧ rest = next := by
  have unchanged : changed.children = node.children ∧ rest = next := by
    by_cases fixed : ∃ count, Name.arity name = .fixed count
    · obtain ⟨count, fixed⟩ := fixed
      have length := legal old count function ((same count).2 fixed)
      obtain ⟨children, supply⟩ := renames.fixed count fixed
      rw [children, supply, ← length, List.take_length, Nat.sub_self]
      exact ⟨List.append_nil _, rfl⟩
    · exact renames.free fun count known => fixed ⟨count, known⟩
  refine ⟨?_, unchanged.2⟩
  obtain ⟨id, label, constant, children, named⟩ := changed
  cases renames.id
  cases renames.function
  cases renames.constant
  cases renames.named
  cases unchanged.1
  rfl

/-- The old name gives the old node back. -/
theorem withOperator_back (function : node.name = .function old) (legal : node.HasArity)
    (same : ∀ count, Name.arity old = .fixed count ↔ Name.arity name = .fixed count)
    (supply : Nat) : changed.withOperator old supply = (node, supply) := by
  obtain ⟨again, kept⟩ := (changed.renames_withOperator old supply).eq_renamed
    (function?_eq_some_iff.2 renames.function) renames.hasArity fun count => (same count).symm
  obtain ⟨rfl, -⟩ := renames.eq_renamed (function?_eq_some_iff.2 function) legal same
  have restored : (node.renamed name).renamed old = node := by
    obtain ⟨id, label, constant, children, named⟩ := node
    cases function
    rfl
  exact Prod.ext (again.trans restored) kept

end Renames

/-! ## Findings -/

theorem mem_operandFindings (path : Path) (index : Nat) {position : Nat} {operands : List Node}
    {operand : Node} (there : operands[position]? = some operand)
    (undefined : operand.name = .undefined) :
    ∃ error : EvaluationError, error.code = .argumentRequired ∧
      (path.child (index + position), error) ∈ operandFindings path index operands := by
  induction operands generalizing index position with
  | nil => cases there
  | cons first others ih =>
    rw [operandFindings]
    cases position with
    | zero =>
      cases there
      rw [if_pos (isUndefined_iff.2 undefined)]
      exact ⟨_, rfl, List.mem_append_left _ List.mem_cons_self⟩
    | succ position =>
      obtain ⟨error, code, mem⟩ := ih (index + 1) there
      refine ⟨error, code, List.mem_append_right _ ?_⟩
      rwa [Nat.add_right_comm, Nat.add_assoc] at mem

/-- What is found in a tree about a path comes from the check of the root or from a node that a path
leads to. -/
theorem exists_node_of_mem_findings (distinct : root.DistinctKeys) {finding : Finding}
    (found : finding ∈ root.findings kind context) :
    finding ∈ root.rootFindings kind ∨ ∃ place node, root.at? place = some node ∧
      finding ∈ node.nodeFindings context place := by
  rw [findings, List.mem_append, List.mem_flatMap] at found
  refine found.imp_right ?_
  rintro ⟨⟨place, node⟩, listed, own⟩
  exact ⟨place, node, (mem_walk_iff ((distinctKeys_iff root).1 distinct)).1 listed, own⟩

theorem code_ne_wrongNumber (distinct : root.DistinctKeys) (found : root.at? path = some node)
    (legal : node.HasArity) :
    ∀ error ∈ (root.validateLocal kind context).errorsAt path,
      error.code ≠ .wrongNumberOfArguments := by
  intro error mem code
  rcases exists_node_of_mem_findings distinct (mem_errorsAt_validateLocal.1 mem) with
    shape | ⟨place, other, there, own⟩
  · rcases (of_mem_rootFindings shape).2 with differs | differs <;> cases code.symm.trans differs
  · obtain ⟨name, function, arity⟩ := (mem_nodeFindings_wrongNumber_iff code).1 own
    have here : path = place := (of_mem_arityFindings arity).1
    subst here
    cases found.symm.trans there
    rw [arityFindings_eq_nil_iff.2 fun count => legal name count function] at arity
    cases arity

/-- Only the check of the operands of a node finds an operand by position that is not chosen. -/
theorem of_argumentRequired_child {index : Nat} {place : Path} {error : EvaluationError}
    (code : error.code = .argumentRequired)
    (found : (Path.child path index, error) ∈ node.nodeFindings context place) :
    place = path ∧ ∃ operand, node.children[index]? = some operand ∧ operand.name = .undefined := by
  obtain ⟨name, -, complaint⟩ := exists_complaint found
  cases complaint with
  | operand there undefined same =>
    obtain ⟨rfl, last⟩ := List.append_inj' same rfl
    cases last
    exact ⟨rfl, _, there, isUndefined_iff.1 undefined⟩
  | slot _ _ same => cases (List.append_inj' same rfl).2
  | _ => simp_all

/-- **An operand by position is missing exactly if it is not chosen.** -/
theorem argumentRequired_child_iff (distinct : root.DistinctKeys)
    (found : root.at? path = some node) (function : node.name = .function name) {index : Nat} :
    (∃ error ∈ (root.validateLocal kind context).errorsAt (path.child index),
      error.code = .argumentRequired) ↔
        ∃ operand, node.children[index]? = some operand ∧ operand.name = .undefined := by
  constructor
  · rintro ⟨error, mem, code⟩
    rcases exists_node_of_mem_findings distinct (mem_errorsAt_validateLocal.1 mem) with
      shape | ⟨place, other, there, own⟩
    · have root := (of_mem_rootFindings shape).1
      simp [Path.child, Path.root] at root
    · obtain ⟨rfl, missing⟩ := of_argumentRequired_child code own
      cases found.symm.trans there
      exact missing
  · rintro ⟨operand, there, undefined⟩
    obtain ⟨error, code, own⟩ := mem_operandFindings path 0 there undefined
    rw [Nat.zero_add] at own
    have applied := function?_eq_some_iff.2 function
    have listed := (mem_walk_iff ((distinctKeys_iff root).1 distinct)).2 found
    refine ⟨error, mem_errorsAt_validateLocal.2 ?_, code⟩
    refine List.mem_append_right _ (List.mem_flatMap.2 ⟨(path, node), listed, ?_⟩)
    exact mem_nodeFindings_iff.2 ⟨name, applied, Or.inr (Or.inl own)⟩

/-! ## Setting the operator -/

/-- **Every operator can be set on a node that has one, and the number of operands fits it.** The
node is the same one under another name: its first operands stay, as many as the name fixes, and
placeholders stand for those that are missing. Validation finds no wrong number of operands, and
among the operands those missing that are new or were not chosen before. If the names agree on the
number of operands and the node had that many, setting the old one again gives the old tree. -/
theorem setOperator_conforms (distinct : root.DistinctKeys) (found : root.at? path = some node)
    (function : node.name = .function old) (name : String) (next : Nat) :
    ∃ updated changed rest,
      root.reduce (.setOperator path name) next = .ok (updated, rest) ∧
      (∀ editor : Editor, editor.root = root → editor.config.mode = .edit →
        editor.apply (.setOperator path name) next = .ok (editor.advance updated, rest)) ∧
      root.put path changed = .ok updated ∧ updated.at? path = some changed ∧
      node.Renames name next changed rest ∧
      (∀ kind context,
        (∀ error ∈ (updated.validateLocal kind context).errorsAt path,
          error.code ≠ .wrongNumberOfArguments) ∧
        ∀ index < changed.children.length,
          (∃ error ∈ (updated.validateLocal kind context).errorsAt (path.child index),
            error.code = .argumentRequired) ↔
              node.children.length ≤ index ∨
                ∃ operand, node.children[index]? = some operand ∧ operand.name = .undefined) ∧
      (node.HasArity →
        (∀ count, Name.arity old = .fixed count ↔ Name.arity name = .fixed count) →
        ∀ supply, updated.reduce (.setOperator path old) supply = .ok (root, supply)) := by
  have everywhere := (distinctKeys_iff root).1 distinct
  have renames := node.renames_withOperator name next
  have own := yields_withOperator_distinct (everywhere.at? found) name next
  obtain ⟨⟨changed, rest⟩, rename⟩ : ∃ result, node.withOperator name next = result := ⟨_, rfl⟩
  rw [rename] at renames own
  have applied := function?_eq_some_iff.2 function
  obtain ⟨updated, put⟩ : ∃ updated, root.put? changed path = some updated :=
    exists_put?_iff.2 ⟨node, found⟩
  have there := at?_put? put
  have reduced := reduce_setOperator found applied rename put
  have distinctUpdated : updated.DistinctKeys :=
    (distinctKeys_iff updated).2 (distinct_put? everywhere own put)
  refine ⟨updated, changed, rest, reduced, ?_, put_eq_ok.2 put, there, renames, ?_, ?_⟩
  · rintro editor rfl editing
    exact Editor.apply_of_reduce editing reduced
  · intro kind context
    refine ⟨code_ne_wrongNumber distinctUpdated there renames.hasArity, fun index bound => ?_⟩
    rw [argumentRequired_child_iff distinctUpdated there renames.function,
      renames.undefined_iff bound]
  · intro legal same supply
    have reverse := renames.withOperator_back function legal same supply
    have putBack : updated.put? node path = some root :=
      (put?_put? put node).trans (put?_self found)
    exact reduce_setOperator there (function?_eq_some_iff.2 renames.function) reverse putBack

/-- A test of one operand becomes a comparison, which lacks the second one. -/
theorem setOperator_conforms_to_comparison :
    let operand : Node := ⟨2, .constant, some (.string "FR"), [], []⟩
    let test : Node := ⟨1, .function Name.isEmpty, none, [operand], []⟩
    let root : Node := ⟨0, .function Name.and, none, [test], []⟩
    root.DistinctKeys ∧ root.at? [.child 0] = some test ∧ test.name = .function Name.isEmpty ∧
      ∃ updated changed,
        root.reduce (.setOperator [.child 0] Name.equal) 3 = .ok (updated, 4) ∧
        updated.at? [.child 0] = some changed ∧
        changed.children = [operand, ⟨3, .undefined, none, [], []⟩] ∧
        ∃ error ∈ (updated.validateLocal .trigger none).errorsAt [.child 0, .child 1],
          error.code = .argumentRequired := by
  intro operand test root
  have distinct : root.DistinctKeys := by
    simp [root, test, operand, DistinctKeys, DistinctKeysAll, DistinctKeysNamed]
  have found : root.at? [.child 0] = some test := rfl
  refine ⟨distinct, found, rfl, ?_⟩
  obtain ⟨updated, changed, rest, reduced, -, -, there, renames, findings, -⟩ :=
    setOperator_conforms distinct found rfl Name.equal 3
  obtain ⟨children, supply⟩ := renames.fixed 2 (by decide +kernel)
  subst supply
  refine ⟨updated, changed, reduced, there, children, ?_⟩
  exact ((findings .trigger none).2 1 (by rw [children]; decide)).2 (Or.inl (by decide))

end Node

end RuleEditor
