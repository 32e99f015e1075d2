import AmbientFs.Proofs.TreeOrder
import AmbientFs.TreeState

/-!
# Renames as moves

A rename removes the source with all below it and then adds one node at the target. So it is a
move, or leaves the tree as it was, exactly if a source that is there has nothing below it and is
of the kind the caller says, and nothing is at the target once the source is gone
(`rename_atomic_iff`).
-/

namespace AmbientFs

open TreeNode

namespace TreeNode

/-- The kind of the node at each path. -/
def kinds (t : TreeNode) : PathMap String Bool := t.entries.mapValues Prod.fst

end TreeNode

/-- In `t'` the nodes at and below `o` stand at `n`, directories stand where none did above `n`,
and everything else is as in `t`. -/
def Moved (t t' : TreeNode) (o n : List String) : Prop :=
  t'.kinds = t.kinds.relocate o n true ∧
    ∀ q, t.entries q ≠ none → ¬ o <+: q → ¬ n <+: q → t'.entries q = t.entries q

/-- A success is a move, and a failure changes nothing. -/
def Atomic (t t' : TreeNode) (success : Bool) (o n : List String) : Prop :=
  (success = true → Moved t t' o n) ∧ (success = false → t' = t)

/-- If the source is there, it has nothing below it and is of the kind given, and the target is
free or goes with the source. -/
def Movable (t : TreeNode) (oldPath newPath : String) (isDir : Bool) : Prop :=
  splitPath oldPath ≠ [] → ∀ source, findNode t oldPath = some source →
    source.children = [] ∧ source.isDir = isDir ∧
      (findNode t newPath = none ∨ splitPath oldPath <+: splitPath newPath)

section Rename

variable [Lowercase] {t : TreeNode} {o n : String} {d : Bool}

theorem renameNode_of_missing (h : (removeNode t o).2 = false) :
    renameNode t o n d = (t, false) := by
  unfold renameNode
  simp only [h, removeNode_false t o h]
  rfl

theorem renameNode_of_found (h : (removeNode t o).2 = true) :
    renameNode t o n d = addNode (removeNode t o).1 n d := by
  unfold renameNode
  simp only [h, if_true]

omit [Lowercase] in
theorem removeNode_snd_iff : (removeNode t o).2 = true ↔
    splitPath o ≠ [] ∧ ∃ source, findNode t o = some source := by
  rw [removeNode_snd, Bool.and_eq_true, decide_eq_true_eq, ← findNode_isSome,
    Option.isSome_iff_exists]

/-- Removing the source and adding the target is a move exactly if nothing is below the source
and its kind is given. -/
theorem moved_iff (ho : splitPath o ≠ []) {source : TreeNode} (hs : findNode t o = some source)
    (hfree : t.entries.erase (splitPath o) (splitPath n) = none) :
    Moved t (addNode (removeNode t o).1 n d).1 (splitPath o) (splitPath n) ↔
      source.children = [] ∧ source.isDir = d := by
  have hent : (addNode (removeNode t o).1 n d).1.entries =
      (t.entries.erase (splitPath o)).add (splitPath n) (fillIn n d (splitPath n)) := by
    rw [entries_addNode, entries_removeNode t o ho]
  have hrest : ∀ q, t.entries q ≠ none → ¬ splitPath o <+: q → ¬ splitPath n <+: q →
      (addNode (removeNode t o).1 n d).1.entries q = t.entries q := by
    intro q hq hoq _
    rw [hent]
    unfold PathMap.add PathMap.erase
    rw [if_neg hoq, if_neg fun hc => hq hc.2]
  have hkinds : (addNode (removeNode t o).1 n d).1.kinds = (t.kinds.erase (splitPath o)).add
      (splitPath n) (Prod.fst ∘ fillIn n d (splitPath n)) := by
    unfold kinds
    rw [hent, PathMap.mapValues_add, PathMap.mapValues_erase]
  have hfree' : t.kinds.erase (splitPath o) (splitPath n) = none := by
    unfold kinds
    rw [← PathMap.mapValues_erase, PathMap.mapValues, hfree]
    rfl
  have hsource : t.kinds (splitPath o) = some source.isDir := by
    have hn : findNodeRecursive (splitPath o) t = some source := hs
    simp [kinds, PathMap.mapValues, entries, hn, data]
  have hbelow : source.children = [] ↔ ∀ k, t.kinds (splitPath o ++ [k]) = none := by
    rw [← not_iff_not, ← ne_eq, children_ne_nil_iff, not_forall]
    simp only [kinds, PathMap.mapValues, Option.map_eq_none_iff, entries_append hs, ne_eq]
  have hkind : some source.isDir = some (fillIn n d (splitPath n) (splitPath n)).1 ↔
      source.isDir = d := by
    simp [fillIn]
  have hclosed : t.kinds.Closed := (closed_entries t).mapValues _
  unfold Moved
  rw [and_iff_left hrest, hkinds, PathMap.erase_add_eq_relocate_iff hclosed hfree'
    fun q _ hne => by simp [fillIn, hne], hsource, ← hbelow]
  simp only [Function.comp_apply, hkind]
  exact and_comm

omit [Lowercase] in
theorem free_iff : t.entries.erase (splitPath o) (splitPath n) = none ↔
    findNode t n = none ∨ splitPath o <+: splitPath n := by
  have hn := findNode_isSome t n
  unfold PathMap.erase
  split_ifs with hp
  · simp [hp]
  · rw [or_iff_left hp, ← Option.isNone_iff_eq_none, ← Option.isNone_iff_eq_none,
      ← Option.not_isSome, ← Option.not_isSome, hn]

omit [Lowercase] in
/-- Removing what is there changes the tree. -/
theorem removeNode_ne {source : TreeNode} (ho : splitPath o ≠ [])
    (hs : findNode t o = some source) : (removeNode t o).1 ≠ t := by
  intro h
  have he := congrFun (entries_removeNode t o ho) (splitPath o)
  have hfound := findNode_isSome t o
  rw [h, PathMap.erase, if_pos List.prefix_rfl] at he
  rw [hs, he] at hfound
  cases hfound

theorem atomic_renameNode_iff : Atomic t (renameNode t o n d).1 (renameNode t o n d).2
    (splitPath o) (splitPath n) ↔ Movable t o n d := by
  rcases hr : (removeNode t o).2
  · rw [renameNode_of_missing hr]
    refine iff_of_true ⟨fun h => absurd h (by simp), fun _ => rfl⟩ fun ho source hs => ?_
    rw [removeNode_snd_iff.2 ⟨ho, source, hs⟩] at hr
    cases hr
  obtain ⟨ho, source, hs⟩ := removeNode_snd_iff.1 hr
  rw [renameNode_of_found hr]
  have hsnd : (addNode (removeNode t o).1 n d).2 =
      (t.entries.erase (splitPath o) (splitPath n)).isNone := by
    rw [addNode_snd, entries_removeNode t o ho]
  unfold Atomic Movable
  simp only [hs, Option.some.injEq, forall_eq', ho, ne_eq, not_false_eq_true, forall_const]
  rw [← free_iff]
  by_cases hfree : t.entries.erase (splitPath o) (splitPath n) = none
  · rw [hsnd, hfree]
    simp only [Option.isNone_none, forall_const, Bool.true_eq_false, false_imp_iff, and_true]
    exact moved_iff ho hs hfree
  · refine iff_of_false (fun h => ?_) fun h => hfree h.2.2
    have hfalse : (addNode (removeNode t o).1 n d).2 = false := by
      rw [hsnd]
      exact Option.isNone_eq_false_iff.2 (Option.isSome_iff_ne_none.2 hfree)
    exact removeNode_ne ho hs ((addNode_false _ n d hfalse).symm.trans (h.2 hfalse))

end Rename

namespace ProjectTree

section Rename

variable [Lowercase]

/-- `rename_node` and `apply_rename` move, or leave the tree as it was, exactly where the source
is movable. -/
theorem rename_atomic_iff (t : ProjectTree) (o n : String) (d : Bool) :
    (Atomic t.root (renameNode t.root o n d).1 (renameNode t.root o n d).2 (splitPath o)
        (splitPath n) ↔ Movable t.root o n d) ∧
      (Atomic t.root (t.applyRename o n d).1.root (t.applyRename o n d).2.isSome (splitPath o)
        (splitPath n) ↔ Movable t.root o n d) := by
  have hsome : (t.applyRename o n d).2.isSome = (renameNode t.root o n d).2 := by
    unfold applyRename
    simp only []
    cases (renameNode t.root o n d).2 <;> rfl
  rw [hsome]
  exact ⟨atomic_renameNode_iff, atomic_renameNode_iff⟩

end Rename

attribute [local instance] asciiLowercase

/-- Renaming a directory loses what is in it. -/
theorem not_atomic_directory :
    (addNode (.dir "" "") "d/f" false).1.Reachable ∧
      ¬ Atomic (addNode (.dir "" "") "d/f" false).1
        (renameNode (addNode (.dir "" "") "d/f" false).1 "d" "e" true).1
        (renameNode (addNode (.dir "" "") "d/f" false).1 "d" "e" true).2 ["d"] ["e"] := by
  refine ⟨.add _ _ .new, fun h => ?_⟩
  have hmoved := (h.1 (by decide)).1
  have hat := congrFun hmoved ["e", "f"]
  revert hat
  decide

end ProjectTree

end AmbientFs
