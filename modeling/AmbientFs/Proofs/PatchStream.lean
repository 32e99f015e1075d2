import AmbientFs.TreeState
import AmbientFs.Proofs.TreeOrder

/-!
# The patch stream

A client that applies the patches to a copy of the tree follows the server until a rename whose
old and new path are both in the tree: that one removes the old path and announces nothing.
Without such renames every patch is a path-map operation that does something, so a snapshot
taken later can have the same patches applied to it again, unless a rename's new path was
removed by a patch before it.
-/

namespace AmbientFs

open TreeNode

section Replica

variable [Lowercase]

/-- The patch an event calls for, whether or not there is anything to change. -/
def FileEvent.treePatch (e : FileEvent) : Option TreePatch :=
  match e.eventType with
  | .created => some (.add e.filePath false)
  | .deleted => some (.remove e.filePath)
  | .renamed => e.oldPath.map fun o => .rename o e.filePath false
  | .modified => none

/-- A rename that finds its old path, and its new path as well, elsewhere than below the old
one. -/
def SilentRename (root : TreeNode) (e : FileEvent) : Prop :=
  e.eventType = .renamed ∧ ∃ o ∈ e.oldPath, splitPath o ≠ [] ∧
    (findNode root o).isSome ∧ (findNode root e.filePath).isSome ∧
    ¬ splitPath o <+: splitPath e.filePath

namespace ProjectTree

/-- No event of the run is a silent rename when its turn comes. -/
def NoSilentRename (t : ProjectTree) (es : List FileEvent) : Prop :=
  ∀ pre e, pre ++ [e] <+: es → ¬ SilentRename (t.applyEvents pre).1.root e

@[simp] theorem applyEvents_nil (t : ProjectTree) : t.applyEvents [] = (t, []) := rfl

theorem applyEvents_cons (t : ProjectTree) (e : FileEvent) (es : List FileEvent) :
    t.applyEvents (e :: es) = (((t.applyEvent e).1.applyEvents es).1,
      (t.applyEvent e).2.toList ++ ((t.applyEvent e).1.applyEvents es).2) := rfl

theorem applyEvents_append (es es' : List FileEvent) : ∀ t : ProjectTree,
    t.applyEvents (es ++ es') = (((t.applyEvents es).1.applyEvents es').1,
      (t.applyEvents es).2 ++ ((t.applyEvents es).1.applyEvents es').2) := by
  induction es with
  | nil => intro t; rfl
  | cons e es ih =>
    intro t
    rw [List.cons_append, applyEvents_cons, ih, applyEvents_cons]
    simp only [List.append_assoc]

theorem applyEvents_snoc (t : ProjectTree) (es : List FileEvent) (e : FileEvent) :
    t.applyEvents (es ++ [e]) = (((t.applyEvents es).1.applyEvent e).1,
      (t.applyEvents es).2 ++ ((t.applyEvents es).1.applyEvent e).2.toList) := by
  rw [applyEvents_append, applyEvents_cons, applyEvents_nil, List.append_nil]

theorem applyEvent_of_none (t : ProjectTree) {e : FileEvent} (h : e.treePatch = none) :
    t.applyEvent e = (t, none) := by
  unfold FileEvent.treePatch at h
  unfold applyEvent
  cases ht : e.eventType <;> rw [ht] at h
  case created => cases h
  case deleted => cases h
  case renamed =>
    rw [Option.map_eq_none_iff] at h
    rw [h]

theorem applyEvent_of_some (t : ProjectTree) {e : FileEvent} {p : TreePatch}
    (h : e.treePatch = some p) : t.applyEvent e = ({ t with root := p.applyTo t.root },
      if (p.operation t.root).2 then some p else none) := by
  unfold FileEvent.treePatch at h
  unfold applyEvent
  cases ht : e.eventType <;> rw [ht] at h
  case created =>
    cases h
    rfl
  case modified => cases h
  case deleted =>
    cases h
    rfl
  case renamed =>
    obtain ⟨o, ho, rfl⟩ := Option.map_eq_some_iff.1 h
    rw [ho]
    rfl

end ProjectTree

namespace TreePatch

/-- The path a patch takes away. -/
def removed : TreePatch → Option String
  | add _ _ => none
  | remove path => some path
  | rename oldPath _ _ => some oldPath

/-- The path a rename moves to. -/
def target : TreePatch → Option String
  | rename _ newPath _ => some newPath
  | _ => none

/-- What a patch does to the tree's entries. -/
def op : TreePatch → PathMap.Op String (Bool × String)
  | add p isDir => .add (splitPath p) (fillIn p isDir (splitPath p))
  | remove p => .remove (splitPath p)
  | rename o n isDir => .move (splitPath o) (splitPath n) (fillIn n isDir (splitPath n))

/-- The patch does not take away the root. -/
def Proper (p : TreePatch) : Prop := ∀ o ∈ p.removed, splitPath o ≠ []

/-- No rename's new path is at or below a path taken away by a patch before it. -/
def NoStaleRename (ps : List TreePatch) : Prop :=
  ps.Pairwise fun a b => ∀ o ∈ a.removed, ∀ n ∈ b.target, ¬ splitPath o <+: splitPath n

theorem entries_applyTo {p : TreePatch} (h : p.Proper) (t : TreeNode) :
    (p.applyTo t).entries = p.op.act t.entries := by
  rcases p with ⟨p, d⟩ | p | ⟨o, n, d⟩
  · exact entries_addNode t p d
  · exact entries_removeNode t p (h p rfl)
  · have ho : splitPath o ≠ [] := h o rfl
    unfold applyTo operation renameNode op PathMap.Op.act
    simp only [removeNode_snd, ne_eq, ho, not_false_eq_true, decide_true, Bool.true_and]
    by_cases hs : t.entries (splitPath o) = none
    · rw [if_pos hs, hs, if_neg (by simp)]
      rw [removeNode_false t o (by rw [removeNode_snd, hs, Option.isSome_none, Bool.and_false])]
    · rw [if_neg hs, if_pos (Option.isSome_iff_ne_none.2 hs), entries_addNode,
        entries_removeNode t o ho]

/-- The operation succeeds exactly if it does something to the entries. -/
theorem operation_snd (p : TreePatch) (t : TreeNode) :
    (p.operation t).2 = true ↔ p.Proper ∧ p.op.Takes t.entries := by
  rcases p with ⟨p, d⟩ | p | ⟨o, n, d⟩
  · unfold operation
    rw [addNode_snd, Option.isNone_iff_eq_none]
    exact ⟨fun h => ⟨fun _ ho => (nomatch ho), h⟩, fun h => h.2⟩
  · unfold operation
    rw [removeNode_snd, Bool.and_eq_true, decide_eq_true_eq, Option.isSome_iff_ne_none]
    exact ⟨fun h => ⟨fun _ ho => Option.some.inj ho ▸ h.1, h.2⟩, fun h => ⟨h.1 p rfl, h.2⟩⟩
  · have hr := removeNode_snd t o
    unfold operation renameNode
    simp only []
    split_ifs with h
    · rw [hr, Bool.and_eq_true, decide_eq_true_eq, Option.isSome_iff_ne_none] at h
      rw [addNode_snd, entries_removeNode t o h.1, Option.isNone_iff_eq_none]
      constructor
      · intro hn
        exact ⟨fun _ ho => Option.some.inj ho ▸ h.1, h.2, hn⟩
      · exact fun hp => hp.2.2
    · rw [hr, Bool.and_eq_true, decide_eq_true_eq, Option.isSome_iff_ne_none] at h
      constructor
      · exact False.elim
      · exact fun hp => absurd ⟨hp.1 o rfl, hp.2.1⟩ h

/-- A failed operation leaves the tree, or is a rename onto a path that is there. -/
theorem operation_false {p : TreePatch} {t : TreeNode} (h : (p.operation t).2 = false) :
    p.applyTo t = t ∨ ∃ o n d, p = rename o n d ∧ splitPath o ≠ [] ∧
      t.entries (splitPath o) ≠ none ∧ t.entries (splitPath n) ≠ none ∧
      ¬ splitPath o <+: splitPath n := by
  rcases p with ⟨p, d⟩ | p | ⟨o, n, d⟩
  · exact .inl (addNode_false t p d h)
  · exact .inl (removeNode_false t p h)
  · unfold applyTo
    unfold operation renameNode at h ⊢
    simp only [] at h ⊢
    split_ifs at h ⊢ with hr
    · rw [removeNode_snd, Bool.and_eq_true, decide_eq_true_eq, Option.isSome_iff_ne_none] at hr
      rw [addNode_snd, entries_removeNode t o hr.1, Option.isNone_eq_false_iff,
        Option.isSome_iff_ne_none] at h
      right
      refine ⟨o, n, d, rfl, hr.1, hr.2, ?_⟩
      unfold PathMap.erase at h
      split_ifs at h with hp
      · exact absurd rfl h
      · exact ⟨h, hp⟩
    · exact .inl (removeNode_false t o (by simpa using hr))

/-- A rename that finds its old path changes the tree. -/
theorem applyTo_rename_ne {t : TreeNode} {o n : String} {d : Bool} (h : splitPath o ≠ [])
    (ho : t.entries (splitPath o) ≠ none) (hn : ¬ splitPath o <+: splitPath n) :
    (rename o n d).applyTo t ≠ t := by
  intro heq
  have he := entries_applyTo (p := rename o n d) (fun _ hr => Option.some.inj hr ▸ h) t
  have hz : (rename o n d).op.act t.entries (splitPath o) = none :=
    PathMap.Op.act_of_erases (closed_entries t) List.prefix_rfl hn
  rw [heq] at he
  exact ho (he ▸ hz)

end TreePatch

omit [Lowercase] in
theorem silentRename_iff {root : TreeNode} {e : FileEvent} : SilentRename root e ↔
    ∃ o n d, e.treePatch = some (.rename o n d) ∧ splitPath o ≠ [] ∧
      root.entries (splitPath o) ≠ none ∧ root.entries (splitPath n) ≠ none ∧
      ¬ splitPath o <+: splitPath n := by
  unfold SilentRename FileEvent.treePatch
  simp only [findNode_isSome, Option.isSome_iff_ne_none]
  constructor
  · rintro ⟨ht, o, ho, h⟩
    exact ⟨o, e.filePath, false, by simp [ht, Option.mem_def.1 ho], h⟩
  · rintro ⟨o, n, d, hp, h⟩
    cases ht : e.eventType <;> rw [ht] at hp
    case created => cases hp
    case deleted => cases hp
    case modified => cases hp
    case renamed =>
      obtain ⟨o', ho, heq⟩ := Option.map_eq_some_iff.1 hp
      cases heq
      exact ⟨rfl, o, ho, h⟩

/-- What an event does: nothing, or what its patch says, or a removal without a patch. -/
theorem applyEvent_cases (t : ProjectTree) (e : FileEvent) :
    (¬ SilentRename t.root e ∧ t.applyEvent e = (t, none)) ∨
    (¬ SilentRename t.root e ∧ ∃ p : TreePatch, p.Proper ∧ p.op.Takes t.root.entries ∧
      t.applyEvent e = ({ t with root := p.applyTo t.root }, some p)) ∨
    (SilentRename t.root e ∧ (t.applyEvent e).2 = none ∧ (t.applyEvent e).1.root ≠ t.root) := by
  rw [silentRename_iff]
  rcases hp : e.treePatch with _ | p
  · rw [ProjectTree.applyEvent_of_none t hp]
    refine .inl ⟨?_, rfl⟩
    rintro ⟨o, n, d, hr, -⟩
    cases hr
  rw [ProjectTree.applyEvent_of_some t hp]
  rcases ho : (p.operation t.root).2
  · rcases p.operation_false ho with heq | ⟨o, n, d, rfl, h1, h2, h3, h4⟩
    · refine .inl ⟨?_, by rw [heq]; rfl⟩
      rintro ⟨o, n, d, hr, h1, h2, -, h4⟩
      cases hr
      exact TreePatch.applyTo_rename_ne h1 h2 h4 heq
    · exact .inr (.inr ⟨⟨o, n, d, rfl, h1, h2, h3, h4⟩, rfl, TreePatch.applyTo_rename_ne h1 h2 h4⟩)
  · have hop := (p.operation_snd t.root).1 ho
    refine .inr (.inl ⟨?_, p, hop.1, hop.2, rfl⟩)
    rintro ⟨o, n, d, hr, -, -, h3, h4⟩
    cases hr
    have := hop.2.2
    rw [PathMap.erase, if_neg h4] at this
    exact h3 this

/-! ## The replica -/

namespace ProjectTree

/-- A copy of the tree that applies the patches equals it after every event, and an event that
returns no patch leaves it as it is. -/
def Mirrored (t : ProjectTree) (es : List FileEvent) : Prop :=
  (∀ pre, pre <+: es →
    (t.applyEvents pre).2.foldl TreePatch.applyTo t.root = (t.applyEvents pre).1.root) ∧
  ∀ pre e, pre ++ [e] <+: es → ((t.applyEvents pre).1.applyEvent e).2 = none →
    ((t.applyEvents pre).1.applyEvent e).1 = (t.applyEvents pre).1

theorem mirrored_iff (t : ProjectTree) (es : List FileEvent) :
    t.Mirrored es ↔ t.NoSilentRename es := by
  constructor
  · rintro ⟨-, h⟩ pre e hpre hs
    rcases applyEvent_cases (t.applyEvents pre).1 e with ⟨hn, -⟩ | ⟨hn, -⟩ | ⟨-, hn, hne⟩
    · exact hn hs
    · exact hn hs
    · exact hne (congrArg root (h pre e hpre hn))
  · intro h
    refine ⟨fun pre hpre => ?_, fun pre e hpre hn => ?_⟩
    · induction pre using List.reverseRecOn with
      | nil => rfl
      | append_singleton pre e ih =>
        have ih := ih ((List.prefix_append pre [e]).trans hpre)
        rw [applyEvents_snoc, List.foldl_append, ih]
        rcases applyEvent_cases (t.applyEvents pre).1 e with ⟨-, he⟩ | ⟨-, p, -, -, he⟩ | ⟨hs, -⟩
        · rw [he]
          rfl
        · rw [he]
          rfl
        · exact absurd hs (h pre e hpre)
    · rcases applyEvent_cases (t.applyEvents pre).1 e with ⟨-, he⟩ | ⟨-, p, -, -, he⟩ | ⟨hs, -⟩
      · rw [he]
      · rw [he] at hn
        cases hn
      · exact absurd hs (h pre e hpre)

end ProjectTree

end Replica

section Samples

attribute [local instance] asciiLowercase

/-- A tree of some files. -/
def treeOf (paths : List String) : ProjectTree :=
  ⟨paths.foldl (fun t p => (addNode t p false).1) (TreeNode.dir "" ""), "p"⟩

def created (path : String) : FileEvent := .new .epoch .created path "p" "m"

def deleted (path : String) : FileEvent := .new .epoch .deleted path "p" "m"

def renamed (oldPath newPath : String) : FileEvent :=
  (FileEvent.new .epoch .renamed newPath "p" "m").withOldPath oldPath

/-- Renaming `a` to `b`, which is there, removes `a` from the server's tree only. -/
theorem not_mirrored_renamed : ¬ (treeOf ["a", "b"]).Mirrored [renamed "a" "b"] := by
  rintro ⟨h, -⟩
  have := congrArg (fun r => (findNode r "a").isSome) (h [renamed "a" "b"] List.prefix_rfl)
  revert this
  decide

end Samples

/-! ## The snapshot -/

section Snapshot

variable [Lowercase]

namespace ProjectTree

theorem noSilentRename_cons {t : ProjectTree} {e : FileEvent} {es : List FileEvent} :
    t.NoSilentRename (e :: es) ↔
      ¬ SilentRename t.root e ∧ (t.applyEvent e).1.NoSilentRename es := by
  constructor
  · intro h
    refine ⟨h [] e (by simp), fun pre e' hpre => ?_⟩
    have := h (e :: pre) e' (List.cons_prefix_cons.2 ⟨rfl, hpre⟩)
    rwa [applyEvents_cons] at this
  · rintro ⟨h, hs⟩ pre e' hpre
    rcases pre with _ | ⟨a, pre⟩
    · obtain ⟨rfl, -⟩ := List.cons_prefix_cons.1 hpre
      exact h
    · obtain ⟨rfl, hpre'⟩ := List.cons_prefix_cons.1 hpre
      rw [applyEvents_cons]
      exact hs pre e' hpre'

theorem noSilentRename_append {es es' : List FileEvent} : ∀ {t : ProjectTree},
    t.NoSilentRename (es ++ es') ↔
      t.NoSilentRename es ∧ (t.applyEvents es).1.NoSilentRename es' := by
  induction es with
  | nil =>
    intro t
    refine ⟨fun h => ⟨fun pre e hpre => ?_, h⟩, fun h => h.2⟩
    simp at hpre
  | cons e es ih =>
    intro t
    rw [List.cons_append, noSilentRename_cons, noSilentRename_cons, ih, applyEvents_cons, and_assoc]

/-- Without silent renames, the patches are operations that each do something, and together they
make the final entries of the first. -/
theorem NoSilentRename.run : ∀ {es : List FileEvent} {t : ProjectTree}, t.NoSilentRename es →
    (∀ p ∈ (t.applyEvents es).2, p.Proper) ∧
      PathMap.TakesAll ((t.applyEvents es).2.map TreePatch.op) t.root.entries ∧
      (t.applyEvents es).1.root.entries =
        PathMap.run ((t.applyEvents es).2.map TreePatch.op) t.root.entries
  | [], t, _ => ⟨by simp, trivial, rfl⟩
  | e :: es, t, h => by
    obtain ⟨hn, hs⟩ := noSilentRename_cons.1 h
    have ih := hs.run
    rw [applyEvents_cons]
    rcases applyEvent_cases t e with ⟨-, he⟩ | ⟨-, p, hp, ht, he⟩ | ⟨hs, -⟩
    · rw [he] at ih ⊢
      exact ih
    · rw [he] at ih ⊢
      simp only [TreePatch.entries_applyTo hp] at ih
      obtain ⟨h1, h2, h3⟩ := ih
      exact ⟨List.forall_mem_cons.2 ⟨hp, h1⟩, ⟨ht, h2⟩, h3⟩
    · exact absurd hs hn

end ProjectTree

theorem entries_foldl_applyTo : ∀ {ps : List TreePatch} (r : TreeNode), (∀ p ∈ ps, p.Proper) →
    (ps.foldl TreePatch.applyTo r).entries = PathMap.run (ps.map TreePatch.op) r.entries
  | [], _, _ => rfl
  | p :: ps, r, h => by
    obtain ⟨hp, hps⟩ := List.forall_mem_cons.1 h
    rw [List.foldl_cons, entries_foldl_applyTo _ hps, TreePatch.entries_applyTo hp]
    rfl

omit [Lowercase] in
theorem TreePatch.NoStaleRename.noStaleMove {ps : List TreePatch} (h : NoStaleRename ps) :
    PathMap.NoStaleMove (ps.map TreePatch.op) := by
  refine List.pairwise_map.2 (h.imp fun {a b} hab o n f hb => ?_)
  rcases b with ⟨p, d⟩ | p | ⟨o', n', d⟩ <;> cases hb
  rcases a with ⟨p, d⟩ | p | ⟨p, n, d⟩
  · exact id
  · exact hab p rfl n' rfl
  · exact hab p rfl n' rfl

theorem TreeNode.Reachable.applyTo {t : TreeNode} (h : t.Reachable) :
    ∀ p : TreePatch, (p.applyTo t).Reachable
  | .add p d => .add p d h
  | .remove p => .remove p h
  | .rename o n d => .rename o n d h

theorem TreeNode.Reachable.foldl_applyTo : ∀ (ps : List TreePatch) {t : TreeNode}, t.Reachable →
    (ps.foldl TreePatch.applyTo t).Reachable
  | [], _, h => h
  | p :: ps, _, h => foldl_applyTo ps (h.applyTo p)

theorem TreePatch.applyTo_name (t : TreeNode) : ∀ p : TreePatch, (p.applyTo t).name = t.name
  | add p d => (addNodeRecursive_same p d _ t).1
  | remove p => (removeNodeRecursive_same _ t).1
  | rename o n d => by
    unfold applyTo operation renameNode
    simp only []
    split_ifs
    · exact (addNodeRecursive_same n d _ _).1.trans (removeNodeRecursive_same _ t).1
    · exact (removeNodeRecursive_same _ t).1

theorem TreeNode.Reachable.name : ∀ {t : TreeNode}, t.Reachable → t.name = ""
  | _, .new => rfl
  | _, .add p d h => (TreePatch.applyTo_name _ (.add p d)).trans h.name
  | _, .remove p h => (TreePatch.applyTo_name _ (.remove p)).trans h.name
  | _, .rename o n d h => (TreePatch.applyTo_name _ (.rename o n d)).trans h.name

theorem ProjectTree.reachable_applyEvents : ∀ (es : List FileEvent) {t : ProjectTree},
    t.root.Reachable → (t.applyEvents es).1.root.Reachable
  | [], _, h => h
  | e :: es, t, h => by
    rw [applyEvents_cons]
    refine reachable_applyEvents es ?_
    rcases hp : e.treePatch with _ | p
    · rw [applyEvent_of_none t hp]
      exact h
    · rw [applyEvent_of_some t hp]
      exact h.applyTo p

variable {t : ProjectTree} {es₁ es₂ : List FileEvent}

/-- The tree a client ends with that is subscribed from the start, takes its snapshot after the
first events, and applies all patches to it. -/
def ProjectTree.replica (t : ProjectTree) (es₁ es₂ : List FileEvent) : TreeNode :=
  (t.applyEvents (es₁ ++ es₂)).2.foldl TreePatch.applyTo (t.applyEvents es₁).1.root

/-- The replica has the server's nodes at the same places, unless a rename is silent or moves to
a path that the patches before the snapshot had taken away. -/
theorem ProjectTree.entries_replica (hs : t.NoSilentRename (es₁ ++ es₂))
    (hst : TreePatch.NoStaleRename (t.applyEvents es₁).2) :
    (t.replica es₁ es₂).entries = (t.applyEvents (es₁ ++ es₂)).1.root.entries := by
  obtain ⟨hs₁, hs₂⟩ := noSilentRename_append.1 hs
  obtain ⟨hp₁, ht₁, he₁⟩ := hs₁.run
  obtain ⟨hp₂, -, he₂⟩ := hs₂.run
  have hrun := PathMap.run_run (closed_entries t.root) ht₁ hst.noStaleMove
  unfold replica
  rw [applyEvents_append, List.foldl_append, entries_foldl_applyTo _ hp₂,
    entries_foldl_applyTo _ hp₁, he₂, he₁, hrun]

/-- The replica is the server's tree if also no two siblings of that have the same key. -/
theorem ProjectTree.replica_eq (ht : t.root.Reachable) (hs : t.NoSilentRename (es₁ ++ es₂))
    (hst : TreePatch.NoStaleRename (t.applyEvents es₁).2) :
    (t.replica es₁ es₂).entries = (t.applyEvents (es₁ ++ es₂)).1.root.entries ∧
      ((t.applyEvents (es₁ ++ es₂)).1.root.KeysDistinct →
        t.replica es₁ es₂ = (t.applyEvents (es₁ ++ es₂)).1.root) := by
  have he := entries_replica hs hst
  have hserver := reachable_applyEvents (es₁ ++ es₂) ht
  have hreplica : (t.replica es₁ es₂).Reachable :=
    (reachable_applyEvents es₁ ht).foldl_applyTo _
  refine ⟨he, fun hk => ?_⟩
  exact (hserver.ordered.eq_of_entries hk hreplica.ordered
    (hserver.name.trans hreplica.name.symm) he.symm).symm

end Snapshot

section Samples

attribute [local instance] asciiLowercase

theorem replica_eq_renamed :
    (treeOf ["a", "p"]).replica [deleted "p"] [renamed "a" "p"] =
      ((treeOf ["a", "p"]).applyEvents ([deleted "p"] ++ [renamed "a" "p"])).1.root := by
  have ht : (treeOf ["a", "p"]).root.Reachable := .add "p" false (.add "a" false .new)
  have hs : (treeOf ["a", "p"]).NoSilentRename ([deleted "p"] ++ [renamed "a" "p"]) := by
    rw [List.singleton_append, ProjectTree.noSilentRename_cons, ProjectTree.noSilentRename_cons]
    refine ⟨by unfold SilentRename; decide, by unfold SilentRename; decide, fun pre e hpre => ?_⟩
    simp at hpre
  have hst : TreePatch.NoStaleRename ((treeOf ["a", "p"]).applyEvents [deleted "p"]).2 := by
    unfold TreePatch.NoStaleRename
    decide
  refine (ProjectTree.replica_eq ht hs hst).2 (.mk (by decide) fun c hc => ?_)
  have hleaf : ∀ c ∈ ((treeOf ["a", "p"]).applyEvents
      ([deleted "p"] ++ [renamed "a" "p"])).1.root.children, c.children.isEmpty := by decide
  have hnil : c.children = [] := List.isEmpty_iff.1 (hleaf c hc)
  exact .mk (by simp [hnil]) (by simp [hnil])

/-- The replica loses the renamed file, keeps the silently removed one, and has siblings whose
names differ in case the other way round. -/
theorem replica_ne :
    (treeOf ["a", "p"]).replica [deleted "p", renamed "a" "p"] [] ≠
      ((treeOf ["a", "p"]).applyEvents [deleted "p", renamed "a" "p"]).1.root ∧
    (treeOf ["a", "b"]).replica [] [renamed "a" "b"] ≠
      ((treeOf ["a", "b"]).applyEvents [renamed "a" "b"]).1.root ∧
    (treeOf ["a"]).replica [deleted "a", created "a", created "A"] [] ≠
      ((treeOf ["a"]).applyEvents [deleted "a", created "a", created "A"]).1.root := by
  refine ⟨fun h => ?_, fun h => ?_, fun h => ?_⟩
  · have := congrArg (fun r => (findNode r "p").isSome) h
    revert this
    decide
  · have := congrArg (fun r => (findNode r "a").isSome) h
    revert this
    decide
  · have := congrArg (fun r => r.children.map TreeNode.name) h
    revert this
    decide

end Samples

end AmbientFs
