import AmbientFs.Lib.Run
import AmbientFs.Proofs.Path
import AmbientFs.Proofs.PatchStream

/-!
# What adding searches and what it puts together

`addNodeTraced` adds as `addNodeRecursive` does and notes each list it searches for a position
and each call of `build_path`. In every tree that the operations make of an empty root the lists
searched are sorted, the calls stay within the path's components, sorting finds nothing to do,
and a lookup of a node's own path finds that node.
-/

namespace AmbientFs

open ListSearch TreeNode

/-- What adding calls: a binary search of a node's children, or `build_path`. -/
inductive AddCall
  | search (children : List TreeNode)
  | build (fullPath : String) (remainingParts : ℕ)

section Traced

variable [Lowercase] (fullPath : String) (isDir : Bool)

/-- `addNodeRecursive`, with its calls in order. -/
def addNodeTraced : List String → TreeNode → TreeNode × Bool × List AddCall
  | [], parent => (parent, false, [])
  | name :: rest, parent =>
    match updateFirst (fun c => c.name == name)
        (fun c => if rest.isEmpty then (c, false, []) else addNodeTraced rest c)
        parent.children with
    | some (children, added) => (parent.withChildren children, added)
    | none =>
      if rest.isEmpty then
        let node := if isDir then TreeNode.dir name fullPath else TreeNode.file name fullPath
        (parent.withChildren (insertSorted parent.children node), true,
          [.search parent.children])
      else
        let dirNode := TreeNode.dir name (buildPath fullPath (rest.length + 1))
        let r := addNodeTraced rest dirNode
        (parent.withChildren (insertSorted parent.children r.1), r.2.1,
          .build fullPath (rest.length + 1) :: r.2.2 ++ [.search parent.children])

/-- The calls in adding `parts`. -/
def addCalls (parts : List String) (t : TreeNode) : List AddCall :=
  (addNodeTraced fullPath isDir parts t).2.2

theorem addNodeTraced_cons (name : String) (rest : List String) (t : TreeNode) :
    addNodeTraced fullPath isDir (name :: rest) t =
      match updateFirst (fun c => c.name == name)
          (fun c => if rest.isEmpty then (c, false, []) else addNodeTraced fullPath isDir rest c)
          t.children with
      | some (children, added) => (t.withChildren children, added)
      | none =>
        if rest.isEmpty then
          (t.withChildren (insertSorted t.children
            (if isDir then TreeNode.dir name fullPath else TreeNode.file name fullPath)), true,
            [.search t.children])
        else
          (t.withChildren (insertSorted t.children (addNodeTraced fullPath isDir rest
            (TreeNode.dir name (buildPath fullPath (rest.length + 1)))).1),
            (addNodeTraced fullPath isDir rest
              (TreeNode.dir name (buildPath fullPath (rest.length + 1)))).2.1,
            .build fullPath (rest.length + 1) :: (addNodeTraced fullPath isDir rest
              (TreeNode.dir name (buildPath fullPath (rest.length + 1)))).2.2 ++
              [.search t.children]) :=
  rfl

/-- The notes aside, it is `addNodeRecursive`. -/
theorem addNodeTraced_eq : ∀ (parts : List String) (t : TreeNode),
    ((addNodeTraced fullPath isDir parts t).1, (addNodeTraced fullPath isDir parts t).2.1) =
      addNodeRecursive fullPath isDir parts t
  | [], t => rfl
  | name :: rest, t => by
    have ih := addNodeTraced_eq rest
    have hchild : ∀ c : TreeNode,
        (if rest.isEmpty then (c, false) else addNodeRecursive fullPath isDir rest c) =
          ((if rest.isEmpty then (c, false, []) else addNodeTraced fullPath isDir rest c).1,
            (if rest.isEmpty then (c, false, [])
              else addNodeTraced fullPath isDir rest c).2.1) := by
      intro c
      split_ifs <;> simp [← ih]
    have hu := updateFirst_map (p := fun c => c.name == name) (g := Prod.fst) hchild t.children
    rw [addNodeTraced_cons, addNodeRecursive_cons, hu]
    generalize updateFirst (β := Bool × List AddCall) _ _ t.children = r
    rcases r with _ | r
    · rcases rest with _ | ⟨n, rest⟩
      · rfl
      · simp [← ih]
    · rfl

variable {fullPath isDir}

theorem addCalls_of_some {t c : TreeNode} {name : String} (rest : List String)
    (h : t.children.find? (fun c => c.name == name) = some c) :
    addCalls fullPath isDir (name :: rest) t = addCalls fullPath isDir rest c := by
  obtain ⟨l₁, l₂, -, hu, -, -⟩ := updateFirst_of_some (f := fun c =>
    if rest.isEmpty then (c, false, []) else addNodeTraced fullPath isDir rest c) h
  unfold addCalls
  rw [addNodeTraced_cons, hu]
  rcases rest with _ | ⟨n, rest⟩ <;> rfl

theorem addCalls_of_none {t : TreeNode} {name : String} (rest : List String)
    (h : t.children.find? (fun c => c.name == name) = none) :
    addCalls fullPath isDir (name :: rest) t =
      if rest.isEmpty then [.search t.children]
      else .build fullPath (rest.length + 1) :: addCalls fullPath isDir rest
        (TreeNode.dir name (buildPath fullPath (rest.length + 1))) ++ [.search t.children] := by
  unfold addCalls
  rw [addNodeTraced_cons, updateFirst_of_none h]
  split_ifs <;> rfl

/-- The lists searched are in order if the tree is. -/
theorem TreeNode.Ordered.sorted_of_search {l : List TreeNode} : ∀ (parts : List String)
    {t : TreeNode}, t.Ordered → .search l ∈ addCalls fullPath isDir parts t →
      (l.map sortKey).Pairwise (· ≤ ·)
  | [], _, _, hl => absurd hl List.not_mem_nil
  | name :: rest, t, h, hl => by
    rcases hf : t.children.find? fun c => c.name == name with _ | c
    · rw [addCalls_of_none rest hf] at hl
      split_ifs at hl
      · simp only [List.mem_singleton, AddCall.search.injEq] at hl
        exact hl ▸ h.sorted
      · simp only [List.mem_append, List.mem_cons, reduceCtorEq, false_or, AddCall.search.injEq,
          List.not_mem_nil, or_false] at hl
        rcases hl with hl | rfl
        · exact sorted_of_search rest (ordered_of_no_children rfl) hl
        · exact h.sorted
    · rw [addCalls_of_some rest hf] at hl
      exact sorted_of_search rest (h.child c (List.mem_of_find?_eq_some hf)) hl

/-- `build_path` is called for the components there are. -/
theorem remaining_of_build {path : String} {n : ℕ} : ∀ (parts : List String) {t : TreeNode},
    .build path n ∈ addCalls fullPath isDir parts t →
      path = fullPath ∧ 0 < n ∧ n ≤ parts.length
  | [], _, hn => absurd hn List.not_mem_nil
  | name :: rest, t, hn => by
    rw [List.length_cons]
    rcases hf : t.children.find? fun c => c.name == name with _ | c
    · rw [addCalls_of_none rest hf] at hn
      split_ifs at hn
      · simp at hn
      · simp only [List.mem_append, List.mem_cons, reduceCtorEq, AddCall.build.injEq,
          List.not_mem_nil, or_false] at hn
        rcases hn with ⟨rfl, rfl⟩ | hn
        · exact ⟨rfl, by omega, by omega⟩
        · obtain ⟨hp, hpos, hle⟩ := remaining_of_build rest hn
          exact ⟨hp, hpos, by omega⟩
    · rw [addCalls_of_some rest hf] at hn
      obtain ⟨hp, hpos, hle⟩ := remaining_of_build rest hn
      exact ⟨hp, hpos, by omega⟩

end Traced

section Edits

variable [Lowercase]

/-- What an operation calls in its addition, if it comes to one. -/
def TreePatch.calls (root : TreeNode) : TreePatch → List AddCall
  | add path isDir => addCalls path isDir (splitPath path) root
  | remove _ => []
  | rename oldPath newPath isDir =>
    if (removeNode root oldPath).2 then
      addCalls newPath isDir (splitPath newPath) (removeNode root oldPath).1
    else []

namespace TreeNode

variable {t : TreeNode}

theorem Ordered.applyTo (h : t.Ordered) : ∀ p : TreePatch, (p.applyTo t).Ordered
  | .add p d => h.addNodeRecursive p d _
  | .remove _ => h.removeNodeRecursive _
  | .rename o n d => h.renameNode o n d

theorem Ordered.after (h : t.Ordered) (ps : List TreePatch) :
    (Run.after TreePatch.applyTo t ps).Ordered := by
  induction ps generalizing t with
  | nil => exact h
  | cons p ps ih => exact ih (h.applyTo p)

theorem Ordered.sorted_of_calls (h : t.Ordered) {l : List TreeNode} : ∀ {p : TreePatch},
    .search l ∈ p.calls t → (l.map sortKey).Pairwise (· ≤ ·)
  | .add _ _, hl => h.sorted_of_search _ hl
  | .remove _, hl => absurd hl List.not_mem_nil
  | .rename o n d, hl => by
    simp only [TreePatch.calls] at hl
    split_ifs at hl
    · exact (h.removeNodeRecursive _).sorted_of_search _ hl
    · exact absurd hl List.not_mem_nil

/-- Sorting leaves a tree in order as it is. -/
theorem Ordered.sortRecursive_eq (h : t.Ordered) : t.sortRecursive = t := by
  induction h with
  | @mk t _ hs _ ih =>
    have hsort : (t.children.mergeSort fun a b => (compare a.sortKey b.sortKey).isLE) =
        t.children := by
      refine List.mergeSort_of_pairwise ((List.pairwise_map.1 hs).imp fun hab => ?_)
      exact Ordering.isLE_iff_ne_gt.2 (compare_le_iff_le.2 hab)
    rw [sortRecursive, List.attach_map_val (f := sortRecursive), hsort, List.map_congr_left ih,
      List.map_id', withChildren_self]

/-- In every tree made of an empty root the siblings have distinct names and are in order. So
whatever is done next searches sorted lists only, and sorting changes nothing. -/
theorem siblings_sorted (name path : String) (isDir : Bool) (ps : List TreePatch) :
    (Run.after TreePatch.applyTo ⟨name, path, isDir, []⟩ ps).Ordered ∧
      (∀ (p : TreePatch) (l : List TreeNode),
        .search l ∈ p.calls (Run.after TreePatch.applyTo ⟨name, path, isDir, []⟩ ps) →
          (l.map sortKey).Pairwise (· ≤ ·)) ∧
      (Run.after TreePatch.applyTo ⟨name, path, isDir, []⟩ ps).sortRecursive =
        Run.after TreePatch.applyTo ⟨name, path, isDir, []⟩ ps := by
  have h := Ordered.after (t := ⟨name, path, isDir, []⟩) (ordered_of_no_children rfl) ps
  exact ⟨h, fun p l => h.sorted_of_calls, h.sortRecursive_eq⟩

/-! ## A node's own path -/

/-- The path of each node is cut into the components where the node stands. -/
def Addressed (t : TreeNode) : Prop := ∀ q d, t.entries q = some d → splitPath d.2 = q

omit [Lowercase] in
theorem splitPath_fillIn {fullPath : String} {isDir : Bool} {q : List String} (hne : q ≠ [])
    (hq : q <+: splitPath fullPath) :
    splitPath (fillIn fullPath isDir (splitPath fullPath) q).2 = q := by
  rw [fillIn_splitPath fullPath isDir hne hq]
  split_ifs with hfull
  · exact hfull.symm
  · exact splitPath_joinPath ((components_splitPath fullPath).of_isPrefix hq)

theorem Addressed.addNode (h : t.Addressed) (p : String) (isDir : Bool) :
    (addNode t p isDir).1.Addressed := by
  intro q d hd
  rw [entries_addNode] at hd
  unfold PathMap.add at hd
  split_ifs at hd with hq
  · have hne : q ≠ [] := by
      rintro rfl
      simp at hq
    rw [← Option.some.inj hd]
    exact splitPath_fillIn hne hq.1
  · exact h q d hd

omit [Lowercase] in
theorem Addressed.removeNode (h : t.Addressed) (p : String) : (removeNode t p).1.Addressed := by
  intro q d hd
  by_cases hp : splitPath p = []
  · rw [removeNode_false t p (by simp [removeNode_snd, hp])] at hd
    exact h q d hd
  · rw [entries_removeNode t p hp] at hd
    unfold PathMap.erase at hd
    split_ifs at hd
    exact h q d hd

theorem Addressed.applyTo (h : t.Addressed) : ∀ p : TreePatch, (p.applyTo t).Addressed
  | .add p d => h.addNode p d
  | .remove p => h.removeNode p
  | .rename o n d => by
    unfold TreePatch.applyTo TreePatch.operation renameNode
    simp only []
    split_ifs
    · exact (h.removeNode o).addNode n d
    · exact h.removeNode o

theorem Addressed.after (h : t.Addressed) (ps : List TreePatch) :
    (Run.after TreePatch.applyTo t ps).Addressed := by
  induction ps generalizing t with
  | nil => exact h
  | cons p ps ih => exact ih (h.applyTo p)

omit [Lowercase] in
theorem addressed_of_no_children (name : String) (isDir : Bool) :
    Addressed ⟨name, "", isDir, []⟩ := by
  rintro (_ | ⟨n, q⟩) d hd
  · rw [entries_nil] at hd
    rw [← Option.some.inj hd]
    exact (by decide : splitPath "" = [])
  · cases hd

/-- In an ordered tree every node is found at its path. -/
theorem Addressed.findNode_path {n : TreeNode} (h : t.Addressed) (ho : t.Ordered)
    (hn : n = t ∨ n ∈ t.descendants) : findNode t n.path = some n := by
  have hfound : ∃ p, findNodeRecursive p t = some n := by
    rcases hn with rfl | hn
    · exact ⟨[], rfl⟩
    · obtain ⟨p, -, hp⟩ := ho.find_of_mem_descendants hn
      exact ⟨p, hp⟩
  obtain ⟨p, hp⟩ := hfound
  have hpath : splitPath n.path = p := h p n.data (by simp [entries, hp])
  unfold findNode
  rw [hpath, hp]

theorem remaining_of_calls {path : String} {n : ℕ} : ∀ {p : TreePatch},
    .build path n ∈ p.calls t → 0 < n ∧ n ≤ (splitPath path).length
  | .add p d, hn => by
    obtain ⟨rfl, h⟩ := remaining_of_build _ hn
    exact h
  | .remove _, hn => absurd hn List.not_mem_nil
  | .rename o p d, hn => by
    simp only [TreePatch.calls] at hn
    split_ifs at hn
    · obtain ⟨rfl, h⟩ := remaining_of_build _ hn
      exact h
    · exact absurd hn List.not_mem_nil

/-- In every tree made of an empty root with the empty path, looking up a node's path finds that
node; and `build_path` is called with no more components left than there are, and at least one. -/
theorem found_at_own_path (name : String) (isDir : Bool) (ps : List TreePatch) :
    (∀ n, n = Run.after TreePatch.applyTo ⟨name, "", isDir, []⟩ ps ∨
        n ∈ (Run.after TreePatch.applyTo ⟨name, "", isDir, []⟩ ps).descendants →
      findNode (Run.after TreePatch.applyTo ⟨name, "", isDir, []⟩ ps) n.path = some n) ∧
    ∀ (p : TreePatch) (fullPath : String) (remainingParts : ℕ),
      .build fullPath remainingParts ∈
          p.calls (Run.after TreePatch.applyTo ⟨name, "", isDir, []⟩ ps) →
        remainingParts ≤ (splitPath fullPath).length ∧
          (splitPath fullPath).length - remainingParts + 1 ≤ (splitPath fullPath).length := by
  have ho := Ordered.after (t := ⟨name, "", isDir, []⟩) (ordered_of_no_children rfl) ps
  have h := Addressed.after (addressed_of_no_children name isDir) ps
  refine ⟨fun n hn => h.findNode_path ho hn, fun p fullPath n hn => ?_⟩
  obtain ⟨hpos, hle⟩ := remaining_of_calls hn
  omega

end TreeNode

end Edits

end AmbientFs
