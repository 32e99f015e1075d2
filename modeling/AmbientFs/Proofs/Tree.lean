import AmbientFs.Tree
import AmbientFs.Lib.PathMap

/-!
# The tree as a map

`TreeNode.entries` is the tree as a map from component lists to the kind and path of the node
found there. `addNode`, `removeNode` and `renameNode` act on it as the path-map operations do,
whatever the order of siblings, and a call that returns `false` changes nothing, except that a
rename whose target is there has removed its source.
-/

namespace AmbientFs

open ListSearch

namespace TreeNode

@[simp] theorem withChildren_children (t : TreeNode) (l : List TreeNode) :
    (t.withChildren l).children = l := rfl

@[simp] theorem withChildren_self (t : TreeNode) : t.withChildren t.children = t := by
  cases t; rfl

/-- What a client sees of a node besides its children. -/
def data (n : TreeNode) : Bool × String := (n.isDir, n.path)

/-- The tree as a map from component lists. -/
def entries (t : TreeNode) : PathMap String (Bool × String) :=
  fun p => (findNodeRecursive p t).map data

@[simp] theorem entries_nil (t : TreeNode) : t.entries [] = some t.data := rfl

theorem entries_cons (t : TreeNode) (name : String) (rest : List String) :
    t.entries (name :: rest) =
      (t.children.find? fun c => c.name == name).bind fun c => c.entries rest := by
  unfold entries
  rw [findNodeRecursive, Option.map_bind]
  congr 1
  funext c
  rcases rest with _ | ⟨n, rest⟩ <;> rfl

theorem entries_cons_of_some {t c : TreeNode} {name : String}
    (h : t.children.find? (fun c => c.name == name) = some c) (rest : List String) :
    t.entries (name :: rest) = c.entries rest := by
  rw [entries_cons, h]
  rfl

theorem entries_cons_of_none {t : TreeNode} {name : String}
    (h : t.children.find? (fun c => c.name == name) = none) (rest : List String) :
    t.entries (name :: rest) = none := by
  rw [entries_cons, h]
  rfl

theorem closed_entries (t : TreeNode) : t.entries.Closed := by
  intro p q hq hn
  obtain ⟨l, rfl⟩ := hq
  induction q generalizing t with
  | nil => simp at hn
  | cons name rest ih =>
    rw [List.cons_append]
    rcases hf : t.children.find? fun c => c.name == name with _ | c
    · exact entries_cons_of_none hf _
    · rw [entries_cons_of_some hf] at hn ⊢
      exact ih c hn

end TreeNode

open TreeNode

theorem insertSorted_eq [Lowercase] (children : List TreeNode) (node : TreeNode) :
    ∃ l₁ l₂, children = l₁ ++ l₂ ∧ insertSorted children node = l₁ ++ node :: l₂ := by
  unfold insertSorted
  exact ⟨_, _, (List.take_append_drop _ _).symm, insertIdx_eq_append position_le_length node⟩

section Add

variable [Lowercase] (fullPath : String) (isDir : Bool)

/-- What adding `parts` puts at `q`: a directory on the way, and the node itself at the end. -/
def fillIn (parts q : List String) : Bool × String :=
  if q = parts then (isDir, fullPath)
  else (true, buildPath fullPath (parts.length - q.length + 1))

omit [Lowercase] in
theorem fillIn_cons (name : String) (parts q : List String) :
    fillIn fullPath isDir (name :: parts) (name :: q) = fillIn fullPath isDir parts q := by
  simp [fillIn]

omit [Lowercase] in
theorem fillIn_splitPath {q : List String} (hne : q ≠ []) (hq : q <+: splitPath fullPath) :
    fillIn fullPath isDir (splitPath fullPath) q =
      if q = splitPath fullPath then (isDir, fullPath) else (true, joinPath q) := by
  have hpos := List.length_pos_iff.2 hne
  have hlen := hq.length_le
  have htake : (splitPath fullPath).length - ((splitPath fullPath).length - q.length + 1) + 1 =
      q.length := by omega
  unfold fillIn
  simp only [buildPath, htake, ← List.prefix_iff_eq_take.1 hq]

theorem addNodeRecursive_cons (name : String) (rest : List String) (t : TreeNode) :
    addNodeRecursive fullPath isDir (name :: rest) t =
      match updateFirst (fun c => c.name == name)
          (fun c => if rest.isEmpty then (c, false) else addNodeRecursive fullPath isDir rest c)
          t.children with
      | some (children, added) => (t.withChildren children, added)
      | none =>
        if rest.isEmpty then
          (t.withChildren (insertSorted t.children
            (if isDir then TreeNode.dir name fullPath else TreeNode.file name fullPath)), true)
        else
          (t.withChildren (insertSorted t.children (addNodeRecursive fullPath isDir rest
            (TreeNode.dir name (buildPath fullPath (rest.length + 1)))).1),
            (addNodeRecursive fullPath isDir rest
              (TreeNode.dir name (buildPath fullPath (rest.length + 1)))).2) :=
  rfl

/-- Where the first component is there, adding goes on below it. -/
theorem addNodeRecursive_of_some {t c : TreeNode} {name : String} (rest : List String)
    (h : t.children.find? (fun c => c.name == name) = some c) :
    ∃ l₁ l₂, t.children = l₁ ++ c :: l₂ ∧ c.name = name ∧ (∀ d ∈ l₁, (d.name == name) = false) ∧
      addNodeRecursive fullPath isDir (name :: rest) t =
        (t.withChildren (l₁ ++ (addNodeRecursive fullPath isDir rest c).1 :: l₂),
          (addNodeRecursive fullPath isDir rest c).2) := by
  obtain ⟨l₁, l₂, hl, hu, hc, hl₁⟩ := updateFirst_of_some (f := fun c =>
    if rest.isEmpty then (c, false) else addNodeRecursive fullPath isDir rest c) h
  refine ⟨l₁, l₂, hl, by simpa using hc, hl₁, ?_⟩
  rw [addNodeRecursive_cons, hu]
  rcases rest with _ | ⟨n, rest⟩ <;> rfl

/-- Where the first component is missing, adding puts a new child, and the rest of the path
below that. -/
theorem addNodeRecursive_of_none {t : TreeNode} {name : String} (rest : List String)
    (h : t.children.find? (fun c => c.name == name) = none) :
    ∃ c : TreeNode, c.name = name ∧ c.children = [] ∧
      c.data = fillIn fullPath isDir (name :: rest) [name] ∧
      addNodeRecursive fullPath isDir (name :: rest) t =
        (t.withChildren (insertSorted t.children (addNodeRecursive fullPath isDir rest c).1),
          rest.isEmpty || (addNodeRecursive fullPath isDir rest c).2) := by
  rcases rest with _ | ⟨n, rest⟩
  · refine ⟨if isDir then TreeNode.dir name fullPath else TreeNode.file name fullPath, ?_, ?_, ?_,
      ?_⟩
    · cases isDir <;> rfl
    · cases isDir <;> rfl
    · cases isDir <;> simp [fillIn, data, TreeNode.dir, TreeNode.file]
    · rw [addNodeRecursive_cons, updateFirst_of_none h]
      rfl
  · refine ⟨TreeNode.dir name (buildPath fullPath (rest.length + 1 + 1)), rfl, rfl, ?_, ?_⟩
    · simp [fillIn, data, TreeNode.dir]
    · rw [addNodeRecursive_cons, updateFirst_of_none h]
      rfl

theorem addNodeRecursive_same (parts : List String) (t : TreeNode) :
    (addNodeRecursive fullPath isDir parts t).1.name = t.name
      ∧ (addNodeRecursive fullPath isDir parts t).1.data = t.data := by
  rcases parts with _ | ⟨name, rest⟩
  · exact ⟨rfl, rfl⟩
  rcases h : t.children.find? fun c => c.name == name with _ | c
  · obtain ⟨c, -, -, -, heq⟩ := addNodeRecursive_of_none fullPath isDir rest h
    rw [heq]
    exact ⟨rfl, rfl⟩
  · obtain ⟨l₁, l₂, -, -, -, heq⟩ := addNodeRecursive_of_some fullPath isDir rest h
    rw [heq]
    exact ⟨rfl, rfl⟩

/-- Adding succeeds exactly where nothing is. -/
theorem addNodeRecursive_snd : ∀ (parts : List String) (t : TreeNode),
    (addNodeRecursive fullPath isDir parts t).2 = (t.entries parts).isNone
  | [], t => rfl
  | name :: rest, t => by
    rcases h : t.children.find? fun c => c.name == name with _ | c
    · obtain ⟨c, -, hc, -, heq⟩ := addNodeRecursive_of_none fullPath isDir rest h
      rw [heq, entries_cons_of_none h]
      rcases rest with _ | ⟨n, rest⟩
      · rfl
      · simp only [List.isEmpty_cons, Bool.false_or]
        rw [addNodeRecursive_snd (n :: rest) c, entries_cons_of_none (by simp [hc])]
    · obtain ⟨l₁, l₂, -, -, -, heq⟩ := addNodeRecursive_of_some fullPath isDir rest h
      rw [heq, entries_cons_of_some h]
      exact addNodeRecursive_snd rest c

theorem addNodeRecursive_false : ∀ (parts : List String) (t : TreeNode),
    (addNodeRecursive fullPath isDir parts t).2 = false →
      (addNodeRecursive fullPath isDir parts t).1 = t
  | [], t, _ => rfl
  | name :: rest, t, hf => by
    rcases h : t.children.find? fun c => c.name == name with _ | c
    · rw [addNodeRecursive_snd, entries_cons_of_none h] at hf
      cases hf
    · obtain ⟨l₁, l₂, hl, -, -, heq⟩ := addNodeRecursive_of_some fullPath isDir rest h
      rw [heq] at hf ⊢
      simp only [] at hf ⊢
      rw [addNodeRecursive_false rest c hf, ← hl, withChildren_self]

/-- Adding fills in the path and what is missing above it. -/
theorem entries_addNodeRecursive : ∀ (parts : List String) (t : TreeNode),
    (addNodeRecursive fullPath isDir parts t).1.entries =
      t.entries.add parts (fillIn fullPath isDir parts)
  | [], t => by
    funext q
    rcases q with _ | ⟨n, q⟩ <;> simp [PathMap.add, addNodeRecursive]
  | name :: rest, t => by
    funext q
    rcases q with _ | ⟨n, q⟩
    · rw [entries_nil, (addNodeRecursive_same fullPath isDir _ t).2]
      simp [PathMap.add]
    unfold PathMap.add
    simp only [List.cons_prefix_cons]
    rcases h : t.children.find? fun c => c.name == name with _ | c
    · obtain ⟨c, hcn, hcc, hcd, heq⟩ := addNodeRecursive_of_none fullPath isDir rest h
      obtain ⟨l₁, l₂, hl, hins⟩ :=
        insertSorted_eq t.children (addNodeRecursive fullPath isDir rest c).1
      have hname := (addNodeRecursive_same fullPath isDir rest c).1.trans hcn
      rw [heq, entries_cons, withChildren_children, hins]
      by_cases hn : n = name
      · subst hn
        rw [find?_insert_of_pos (hl ▸ h) (by simp [hname]), entries_cons_of_none h]
        simp only [Option.bind_some, entries_addNodeRecursive rest c, PathMap.add, fillIn_cons]
        rw [fillIn_cons] at hcd
        rcases q with _ | ⟨n', q⟩
        · simp [hcd]
        · rw [entries_cons_of_none (by simp [hcc])]
          simp
      · rw [find?_insert_of_neg (by simpa [hname] using Ne.symm hn), ← hl, ← entries_cons,
          if_neg fun hc => hn hc.1.1]
    · obtain ⟨l₁, l₂, hl, hcn, hl₁, heq⟩ := addNodeRecursive_of_some fullPath isDir rest h
      have hname := (addNodeRecursive_same fullPath isDir rest c).1.trans hcn
      rw [heq, entries_cons, withChildren_children]
      by_cases hn : n = name
      · subst hn
        rw [find?_append_cons hl₁ (by simp [hname]), entries_cons_of_some h]
        simp only [Option.bind_some, entries_addNodeRecursive rest c, PathMap.add, fillIn_cons,
          true_and]
      · rw [find?_insert_of_neg (by simpa [hname] using Ne.symm hn),
          ← find?_insert_of_neg (a := c) (by simpa [hcn] using Ne.symm hn), ← hl, ← entries_cons,
          if_neg fun hc => hn hc.1.1]

end Add

section Remove

theorem removeNodeRecursive_leaf (name : String) (t : TreeNode) :
    removeNodeRecursive [name] t = (t.withChildren (t.children.filter fun c => c.name != name),
      decide ((t.children.filter fun c => c.name != name).length < t.children.length)) :=
  rfl

theorem removeNodeRecursive_of_none {t : TreeNode} {name : String} (rest : List String)
    (h : t.children.find? (fun c => c.name == name) = none) :
    removeNodeRecursive (name :: rest) t = (t, false) := by
  rcases rest with _ | ⟨n, rest⟩
  · have hf : (t.children.filter fun c => c.name != name) = t.children := by
      rw [List.filter_eq_self]
      intro c hc
      simpa using List.find?_eq_none.1 h c hc
    rw [removeNodeRecursive_leaf, hf, withChildren_self]
    simp
  · unfold removeNodeRecursive
    rw [updateFirst_of_none h]
    rfl

theorem removeNodeRecursive_of_some {t c : TreeNode} {name : String} {rest : List String}
    (hne : rest ≠ []) (h : t.children.find? (fun c => c.name == name) = some c) :
    ∃ l₁ l₂, t.children = l₁ ++ c :: l₂ ∧ c.name = name ∧ (∀ d ∈ l₁, (d.name == name) = false) ∧
      removeNodeRecursive (name :: rest) t =
        (t.withChildren (l₁ ++ (removeNodeRecursive rest c).1 :: l₂),
          (removeNodeRecursive rest c).2) := by
  obtain ⟨l₁, l₂, hl, hu, hc, hl₁⟩ := updateFirst_of_some (f := removeNodeRecursive rest) h
  refine ⟨l₁, l₂, hl, by simpa using hc, hl₁, ?_⟩
  rcases rest with _ | ⟨n, rest⟩
  · exact absurd rfl hne
  · rw [removeNodeRecursive, hu]
    rfl

theorem removeNodeRecursive_same (parts : List String) (t : TreeNode) :
    (removeNodeRecursive parts t).1.name = t.name
      ∧ (removeNodeRecursive parts t).1.data = t.data := by
  rcases parts with _ | ⟨name, rest⟩
  · exact ⟨rfl, rfl⟩
  rcases h : t.children.find? fun c => c.name == name with _ | c
  · rw [removeNodeRecursive_of_none rest h]
    exact ⟨rfl, rfl⟩
  rcases rest with _ | ⟨n, rest⟩
  · exact ⟨rfl, rfl⟩
  · obtain ⟨l₁, l₂, -, -, -, heq⟩ := removeNodeRecursive_of_some (List.cons_ne_nil n rest) h
    rw [heq]
    exact ⟨rfl, rfl⟩

/-- Removing succeeds exactly where something is. -/
theorem removeNodeRecursive_snd : ∀ (parts : List String) (t : TreeNode), parts ≠ [] →
    (removeNodeRecursive parts t).2 = (t.entries parts).isSome
  | [], _, hne => absurd rfl hne
  | name :: rest, t, _ => by
    rcases h : t.children.find? fun c => c.name == name with _ | c
    · rw [removeNodeRecursive_of_none rest h, entries_cons_of_none h]
      rfl
    rw [entries_cons_of_some h]
    rcases rest with _ | ⟨n, rest⟩
    · have hc := List.mem_of_find?_eq_some h
      have hcn := List.find?_some h
      simp only [removeNodeRecursive_leaf, entries_nil, Option.isSome_some, decide_eq_true_eq]
      exact List.length_filter_lt_length_iff_exists.2 ⟨c, hc, by simpa using hcn⟩
    · obtain ⟨l₁, l₂, -, -, -, heq⟩ := removeNodeRecursive_of_some (List.cons_ne_nil n rest) h
      rw [heq]
      exact removeNodeRecursive_snd (n :: rest) c (List.cons_ne_nil n rest)

theorem removeNodeRecursive_false : ∀ (parts : List String) (t : TreeNode),
    (removeNodeRecursive parts t).2 = false → (removeNodeRecursive parts t).1 = t
  | [], _, _ => rfl
  | name :: rest, t, hf => by
    rcases h : t.children.find? fun c => c.name == name with _ | c
    · rw [removeNodeRecursive_of_none rest h]
    rcases rest with _ | ⟨n, rest⟩
    · rw [removeNodeRecursive_snd _ t (List.cons_ne_nil name []), entries_cons_of_some h] at hf
      cases hf
    · obtain ⟨l₁, l₂, hl, -, -, heq⟩ := removeNodeRecursive_of_some (List.cons_ne_nil n rest) h
      rw [heq] at hf ⊢
      simp only [] at hf ⊢
      rw [removeNodeRecursive_false (n :: rest) c hf, ← hl, withChildren_self]

/-- Removing erases the path and all below it. -/
theorem entries_removeNodeRecursive : ∀ (parts : List String) (t : TreeNode), parts ≠ [] →
    (removeNodeRecursive parts t).1.entries = t.entries.erase parts
  | [], _, hne => absurd rfl hne
  | name :: rest, t, _ => by
    funext q
    rcases q with _ | ⟨n, q⟩
    · rw [entries_nil, (removeNodeRecursive_same _ t).2]
      simp [PathMap.erase]
    unfold PathMap.erase
    simp only [List.cons_prefix_cons]
    rcases h : t.children.find? fun c => c.name == name with _ | c
    · rw [removeNodeRecursive_of_none rest h]
      split_ifs with hc
      · exact entries_cons_of_none (hc.1 ▸ h) q
      · rfl
    rcases rest with _ | ⟨n', rest⟩
    · rw [removeNodeRecursive_leaf, entries_cons, withChildren_children, find?_filter_ne]
      by_cases hn : name = n
      · simp [hn]
      · rw [if_neg hn, ← entries_cons, if_neg fun hc => hn hc.1]
    · obtain ⟨l₁, l₂, hl, hcn, hl₁, heq⟩ := removeNodeRecursive_of_some (List.cons_ne_nil n' rest) h
      have hname := (removeNodeRecursive_same (n' :: rest) c).1.trans hcn
      rw [heq, entries_cons, withChildren_children]
      by_cases hn : name = n
      · subst hn
        rw [find?_append_cons hl₁ (by simp [hname]), entries_cons_of_some h]
        simp only [Option.bind_some, true_and,
          entries_removeNodeRecursive (n' :: rest) c (List.cons_ne_nil n' rest), PathMap.erase]
      · rw [find?_insert_of_neg (by simpa [hname] using hn),
          ← find?_insert_of_neg (a := c) (by simpa [hcn] using hn), ← hl, ← entries_cons,
          if_neg fun hc => hn hc.1]

end Remove

/-! ## By path -/

section Path

variable [Lowercase] (t : TreeNode) (p : String) (isDir : Bool)

theorem addNode_snd : (addNode t p isDir).2 = (t.entries (splitPath p)).isNone :=
  addNodeRecursive_snd p isDir _ t

theorem addNode_false (h : (addNode t p isDir).2 = false) : (addNode t p isDir).1 = t :=
  addNodeRecursive_false p isDir _ t h

theorem entries_addNode : (addNode t p isDir).1.entries =
    t.entries.add (splitPath p) (fillIn p isDir (splitPath p)) :=
  entries_addNodeRecursive p isDir _ t

omit [Lowercase] in
theorem removeNode_snd :
    (removeNode t p).2 = (decide (splitPath p ≠ []) && (t.entries (splitPath p)).isSome) := by
  unfold removeNode
  by_cases h : splitPath p = []
  · rw [h]
    rfl
  · rw [removeNodeRecursive_snd _ t h]
    simp [h]

omit [Lowercase] in
theorem removeNode_false (h : (removeNode t p).2 = false) : (removeNode t p).1 = t :=
  removeNodeRecursive_false _ t h

omit [Lowercase] in
theorem entries_removeNode (h : splitPath p ≠ []) :
    (removeNode t p).1.entries = t.entries.erase (splitPath p) :=
  entries_removeNodeRecursive _ t h

omit [Lowercase] in
theorem findNode_isSome : (findNode t p).isSome = (t.entries (splitPath p)).isSome := by
  simp [findNode, entries]

end Path

end AmbientFs
