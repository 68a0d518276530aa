import RuleEditor.Proofs.Path.Order
import RuleEditor.Proofs.Validation.Places

/-!
# The order of local errors

**Tables.** The paths of a table are in the order in which the first error of each was added.

**Found first.** An error is found by the node at its path or by the node above. What the walk has
found when it comes to a check stands before what this check adds (`Node.sublist_keys_of_found`),
and nothing else does (`Node.found_of_sublist_keys`).

**Tree order** (`Node.keys_sublist_places_iff`). A node blames its operands before the walk reaches
them, and it may blame them before itself. So the paths are in tree order exactly if a node that
blames an operand never skips a path with errors that comes before the operand.
-/

namespace RuleEditor

/-! ## Tables -/

namespace PathErrors

variable {path other : Path}

theorem keys_prefix_addAll (errors : PathErrors) (findings : List (Path × EvaluationError)) :
    errors.keys <+: (errors.addAll findings).keys := by
  induction findings generalizing errors with
  | nil => exact List.prefix_rfl
  | cons finding rest ih =>
    refine List.IsPrefix.trans ?_ (ih (errors.append finding.1 [finding.2]))
    rw [append, Keyed.keys_insert]
    split
    · exact List.prefix_rfl
    · exact List.prefix_append ..

theorem mem_keys_addAll (errors : PathErrors) (findings : List (Path × EvaluationError)) :
    path ∈ (errors.addAll findings).keys ↔ path ∈ errors.keys ∨ path ∈ findings.map Prod.fst := by
  induction findings generalizing errors with
  | nil => simp [addAll]
  | cons finding rest ih =>
    have here : path ∈ (errors.append finding.1 [finding.2]).keys ↔
        path ∈ errors.keys ∨ path = finding.1 := Keyed.mem_keys_insert
    refine (ih (errors.append finding.1 [finding.2])).trans ?_
    rw [here, List.map_cons, List.mem_cons, or_assoc]

/-- A path that is found earlier stands earlier. -/
theorem sublist_keys_addAll {findings more : List (Path × EvaluationError)}
    (found : path ∈ findings.map Prod.fst) (unseen : other ∉ findings.map Prod.fst)
    (later : other ∈ (addAll ∅ (findings ++ more)).keys) :
    [path, other].Sublist (addAll ∅ (findings ++ more)).keys := by
  have split : addAll ∅ (findings ++ more) = (addAll ∅ findings).addAll more := List.foldl_append
  obtain ⟨rest, keys⟩ := keys_prefix_addAll (addAll ∅ findings) more
  have known : path ∈ (addAll ∅ findings).keys := (mem_keys_addAll ∅ findings).2 (Or.inr found)
  have new : other ∉ (addAll ∅ findings).keys := fun mem =>
    ((mem_keys_addAll ∅ findings).1 mem).elim nofun unseen
  rw [split, ← keys] at later ⊢
  have behind := (List.mem_append.1 later).resolve_left new
  exact (List.singleton_sublist.2 known).append (List.singleton_sublist.2 behind)

end PathErrors

/-! ## Finding first -/

namespace Node

variable {root node operand : Node} {kind : RootKind} {context : Option Context}
  {first later path place : Path} {segment : Segment}

/-- The paths at which the checks of the node at `path` find errors, in the order of the checks. -/
def blamed (context : Option Context) (path : Path) (node : Node) : List Path :=
  (node.nodeFindings context path).map Prod.fst

theorem Blames.eq_or (blames : node.Blames path place) :
    place = path ∨ ∃ segment operand, node.step? segment = some operand ∧
      place = path ++ [segment] := by
  cases blames with
  | self => exact Or.inl rfl
  | operand step => exact Or.inr ⟨_, _, step, rfl⟩

/-- A path is blamed by the node at it or by the node above it. -/
theorem eq_or_of_mem_blamed (mem : place ∈ node.blamed context path) :
    place = path ∨ ∃ segment operand, node.step? segment = some operand ∧
      place = path ++ [segment] := by
  obtain ⟨finding, found, rfl⟩ := List.mem_map.1 mem
  exact (blames_of_mem_nodeFindings found).eq_or

/-- Where a node blames an operand, there is one. -/
theorem step?_of_mem_blamed (mem : path ++ [segment] ∈ node.blamed context path) :
    ∃ operand, node.step? segment = some operand := by
  rcases eq_or_of_mem_blamed mem with same | ⟨segment', operand, step, same⟩
  · simp at same
  · cases (List.append_cancel_left same : [segment] = [segment'])
    exact ⟨operand, step⟩

/-- An error at the place is found before the walk reaches the node at `finder`. -/
def FoundAhead (root : Node) (kind : RootKind) (context : Option Context) (finder place : Path) :
    Prop :=
  place ∈ (root.rootFindings kind).map Prod.fst ∨
    ∃ path node, root.at? path = some node ∧ [path, finder].Sublist root.places ∧
      place ∈ node.blamed context path

theorem mem_keys_validateLocal (distinct : root.Everywhere OwnDistinctKeys) :
    place ∈ (root.validateLocal kind context).keys ↔
      place ∈ (root.rootFindings kind).map Prod.fst ∨
        ∃ path node, root.at? path = some node ∧ place ∈ node.blamed context path := by
  refine (PathErrors.mem_keys_addAll ∅ _).trans ((or_iff_right nofun).trans ?_)
  rw [findings, List.map_append, List.mem_append, List.map_flatMap, List.mem_flatMap]
  refine or_congr_right ⟨?_, ?_⟩
  · rintro ⟨⟨path, node⟩, listed, blamed⟩
    exact ⟨path, node, (mem_walk_iff distinct).1 listed, blamed⟩
  · rintro ⟨path, node, here, blamed⟩
    exact ⟨(path, node), (mem_walk_iff distinct).2 here, blamed⟩

theorem keys_subset_places (distinct : root.Everywhere OwnDistinctKeys) :
    (root.validateLocal kind context).keys ⊆ root.places := by
  intro place mem
  rw [mem_places_iff distinct]
  rw [validateLocal, PathErrors.mem_keys_addAll] at mem
  obtain ⟨finding, found, rfl⟩ := List.mem_map.1 (mem.resolve_left List.not_mem_nil)
  exact exists_at?_of_mem_findings distinct found

/-- What is found ahead of a node is found by the part of the walk before it. -/
theorem foundAhead_iff {finder : Path} {before after : List (Path × Node)}
    (distinct : root.Everywhere OwnDistinctKeys)
    (split : root.walk = before ++ (finder, node) :: after) :
    root.FoundAhead kind context finder place ↔
      place ∈ (root.rootFindings kind ++
        before.flatMap fun entry => entry.2.nodeFindings context entry.1).map Prod.fst := by
  have nodup := nodup_places distinct
  have places : root.places = before.map Prod.fst ++ finder :: after.map Prod.fst := by
    rw [places, split, List.map_append, List.map_cons]
  rw [places] at nodup
  have at?_of_mem {entry : Path × Node} (listed : entry ∈ before) :
      root.at? entry.1 = some entry.2 :=
    (mem_walk_iff distinct).1 (split ▸ List.mem_append_left _ listed)
  rw [FoundAhead, places, List.map_append, List.mem_append, List.map_flatMap, List.mem_flatMap]
  refine or_congr_right ⟨?_, ?_⟩
  · rintro ⟨path, found, here, earlier, blamed⟩
    rw [sublist_pair_iff nodup] at earlier
    obtain ⟨entry, listed, rfl⟩ := List.mem_map.1 earlier
    cases here.symm.trans (at?_of_mem listed)
    exact ⟨entry, listed, blamed⟩
  · rintro ⟨entry, listed, blamed⟩
    refine ⟨entry.1, entry.2, at?_of_mem listed, ?_, blamed⟩
    rw [sublist_pair_iff nodup]
    exact List.mem_map_of_mem listed

/-- **What a node or the walk before it has found stands before what they have not.** The checks of
the node may be cut anywhere. -/
theorem sublist_keys_of_found {finder : Path} {earlier rest : List Path}
    (distinct : root.Everywhere OwnDistinctKeys) (here : root.at? finder = some node)
    (cut : node.blamed context finder = earlier ++ rest)
    (found : first ∈ earlier ∨ root.FoundAhead kind context finder first)
    (unseen : later ∉ earlier) (unseen' : ¬ root.FoundAhead kind context finder later)
    (mem : later ∈ (root.validateLocal kind context).keys) :
    [first, later].Sublist (root.validateLocal kind context).keys := by
  obtain ⟨before, after, split⟩ := List.append_of_mem ((mem_walk_iff distinct).2 here)
  obtain ⟨own, others, checks, rfl, -⟩ := List.map_eq_append_iff.1 cut
  have all : root.findings kind context =
      ((root.rootFindings kind ++
        before.flatMap fun entry => entry.2.nodeFindings context entry.1) ++ own) ++
        (others ++ after.flatMap fun entry => entry.2.nodeFindings context entry.1) := by
    have findings : root.findings kind context = root.rootFindings kind ++
      root.walk.flatMap fun entry => entry.2.nodeFindings context entry.1 := rfl
    rw [findings, split, List.flatMap_append, List.flatMap_cons, checks]
    simp only [List.append_assoc]
  rw [foundAhead_iff distinct split] at found unseen'
  rw [validateLocal, all] at mem ⊢
  refine PathErrors.sublist_keys_addAll ?_ ?_ mem
  · rw [List.map_append, List.mem_append]
    exact found.symm
  · rw [List.map_append, List.mem_append]
    exact not_or.2 ⟨unseen', unseen⟩

theorem nodup_keys : (root.validateLocal kind context).keys.Nodup :=
  (root.validateLocal kind context).distinct

/-- What stands before a path has been found when a node comes to blame this path. -/
theorem found_of_sublist_keys {finder : Path} {earlier rest : List Path}
    (distinct : root.Everywhere OwnDistinctKeys) (here : root.at? finder = some node)
    (cut : node.blamed context finder = earlier ++ later :: rest)
    (pair : [first, later].Sublist (root.validateLocal kind context).keys) :
    first ∈ earlier ∨ root.FoundAhead kind context finder first := by
  by_contra unseen
  rw [not_or] at unseen
  have next : node.blamed context finder = (earlier ++ [later]) ++ rest := by
    rw [cut, List.append_assoc]
    rfl
  have new : first ∉ earlier ++ [later] := by
    rw [List.mem_append, List.mem_singleton, not_or]
    exact ⟨unseen.1, fun same => not_sublist_self nodup_keys (same ▸ pair)⟩
  have swapped := sublist_keys_of_found distinct here next
    (Or.inl (List.mem_append_right earlier List.mem_cons_self)) new unseen.2
    (pair.subset List.mem_cons_self)
  exact not_sublist_swap nodup_keys pair swapped

/-! ## Tree order -/

/-- What is found by itself or by the node above it is found before the walk passes it. -/
theorem foundAhead_of_mem_keys {finder : Path} (distinct : root.Everywhere OwnDistinctKeys)
    (passed : [place, finder].Sublist root.places)
    (mem : place ∈ (root.validateLocal kind context).keys) :
    root.FoundAhead kind context finder place := by
  refine ((mem_keys_validateLocal distinct).1 mem).imp_right ?_
  rintro ⟨path, node, here, blamed⟩
  refine ⟨path, node, here, ?_, blamed⟩
  rcases eq_or_of_mem_blamed blamed with rfl | ⟨segment, operand, step, rfl⟩
  · exact passed
  · exact sublist_pair_trans (nodup_places distinct) (sublist_places_step distinct here step) passed

/-- An operand is not found before the walk reaches the node that it belongs to, and not before it
reaches the operand if that node does not blame it. -/
theorem not_foundAhead {finder : Path} (kind : RootKind)
    (distinct : root.Everywhere OwnDistinctKeys) (here : root.at? path = some node)
    (step : node.step? segment = some operand)
    (first : finder = path ∨
      finder = path ++ [segment] ∧ path ++ [segment] ∉ node.blamed context path) :
    ¬ root.FoundAhead kind context finder (path ++ [segment]) := by
  have nodup := nodup_places distinct
  rintro (shape | ⟨above, found, there, ahead, blamed⟩)
  · obtain ⟨finding, found, same⟩ := List.mem_map.1 shape
    rw [(of_mem_rootFindings found).1] at same
    exact List.append_ne_nil_of_right_ne_nil path (List.cons_ne_nil segment []) same.symm
  · rcases eq_or_of_mem_blamed blamed with rfl | ⟨_, _, -, same⟩
    · rcases first with rfl | ⟨rfl, -⟩
      · exact not_sublist_swap nodup ahead (sublist_places_step distinct here step)
      · exact not_sublist_self nodup ahead
    · cases List.append_inj_left' same rfl
      rcases first with rfl | ⟨rfl, free⟩
      · exact not_sublist_self nodup ahead
      · cases here.symm.trans there
        exact free blamed

/-- **When the paths of local errors are in tree order.** A node blames its operands before the walk
reaches them. They are in order exactly if, whenever it does, all that the walk passes on the way
from the node to the operand has been found. -/
theorem keys_sublist_places_iff (root : Node) (kind : RootKind) (context : Option Context)
    (distinct : root.DistinctKeys) :
    (root.validateLocal kind context).keys.Sublist root.places ↔
      ∀ path node segment earlier rest, root.at? path = some node →
        node.blamed context path = earlier ++ (path ++ [segment]) :: rest →
          ∀ place ∈ (root.validateLocal kind context).keys, node.Passed path segment place →
            place ∈ earlier ∨ root.FoundAhead kind context path place := by
  rw [distinctKeys_iff] at distinct
  have subset : (root.validateLocal kind context).keys ⊆ root.places := keys_subset_places distinct
  rw [sublist_iff_pairs nodup_keys (nodup_places distinct) subset]
  constructor
  · intro ordered path node segment earlier rest here cut place mem passed
    have blamed : path ++ [segment] ∈ node.blamed context path := by simp [cut]
    obtain ⟨operand, step⟩ := step?_of_mem_blamed blamed
    have before : [place, path ++ [segment]].Sublist root.places :=
      (sublist_places_iff distinct here step).2 (Or.inr ⟨subset mem, passed⟩)
    have mem' : path ++ [segment] ∈ (root.validateLocal kind context).keys :=
      (mem_keys_validateLocal distinct).2 (Or.inr ⟨path, node, here, blamed⟩)
    exact found_of_sublist_keys distinct here cut (ordered place mem _ mem' before)
  · intro found first mem later mem' pair
    rcases List.eq_nil_or_concat' later with rfl | ⟨path, segment, rfl⟩
    · exact absurd pair (not_sublist_places_root distinct)
    · obtain ⟨operand, there⟩ := (mem_places_iff distinct).1 (subset mem')
      obtain ⟨node, here, step⟩ := Option.bind_eq_some_iff.1 (at?_concat root path segment ▸ there)
      by_cases blamed : path ++ [segment] ∈ node.blamed context path
      -- The operand is found by the node above it, at its first place among what this node blames.
      · obtain ⟨earlier, rest, cut, new⟩ := List.eq_append_cons_of_mem blamed
        have unseen : ¬ root.FoundAhead kind context path (path ++ [segment]) :=
          not_foundAhead kind distinct here step (Or.inl rfl)
        refine sublist_keys_of_found distinct here cut ?_ new unseen mem'
        rcases (sublist_places_iff distinct here step).1 pair with above | ⟨-, passed⟩
        · exact Or.inr (foundAhead_of_mem_keys distinct above mem)
        · exact found path node segment earlier rest here cut first mem passed
      -- The operand is found when the walk reaches it, and has passed the first path.
      · have unseen := not_foundAhead kind distinct here step (Or.inr ⟨rfl, blamed⟩)
        exact sublist_keys_of_found distinct there (List.nil_append _).symm
          (Or.inr (foundAhead_of_mem_keys distinct pair mem)) (List.not_mem_nil) unseen mem'

/-- In the conditions of a trigger, two comparisons that lack their left sides. -/
theorem keys_sublist_places_of_comparisons :
    let compared (id : Nat) : Node :=
      ⟨id, .function Name.equal, none,
        [⟨id + 1, .undefined, none, [], []⟩, ⟨id + 2, .constant, some (.int 1), [], []⟩], []⟩
    let root : Node := ⟨0, .function Name.and, none, [compared 1, compared 4], []⟩
    root.DistinctKeys ∧
      (root.validateLocal .trigger none).keys = [[.child 0, .child 0], [.child 1, .child 0]] ∧
      (root.validateLocal .trigger none).keys.Sublist root.places ∧
      ∀ path node segment earlier rest, root.at? path = some node →
        node.blamed none path = earlier ++ (path ++ [segment]) :: rest →
          ∀ place ∈ (root.validateLocal .trigger none).keys, node.Passed path segment place →
            place ∈ earlier ∨ root.FoundAhead .trigger none path place := by
  intro compared root
  have distinct : root.DistinctKeys := by
    simp [root, compared, DistinctKeys, DistinctKeysAll, DistinctKeysNamed]
  have ordered : (root.validateLocal .trigger none).keys.Sublist root.places := by decide +kernel
  exact ⟨distinct, by decide +kernel, ordered,
    (keys_sublist_places_iff root .trigger none distinct).1 ordered⟩

/-- Behind a comparison that lacks its left side, a condition that is not chosen yet: the AND blames
the second condition before the walk reaches the first one. -/
theorem keys_not_in_tree_order :
    let blank (id : Nat) : Node := ⟨id, .undefined, none, [], []⟩
    let compared : Node := ⟨1, .function Name.equal, none,
      [blank 2, ⟨3, .constant, some (.int 1), [], []⟩], []⟩
    let root : Node := ⟨0, .function Name.and, none, [compared, blank 4], []⟩
    root.DistinctKeys ∧
      root.places = [[], [.child 0], [.child 0, .child 0], [.child 0, .child 1], [.child 1]] ∧
      (root.validateLocal .trigger none).keys = [[.child 1], [.child 0, .child 0]] ∧
      ¬ (root.validateLocal .trigger none).keys.Sublist root.places := by
  intro blank compared root
  have distinct : root.DistinctKeys := by
    simp [root, compared, blank, DistinctKeys, DistinctKeysAll, DistinctKeysNamed]
  exact ⟨distinct, by decide +kernel, by decide +kernel, by decide +kernel⟩

end Node

end RuleEditor
