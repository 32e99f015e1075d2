import AmbientFs.Proofs.Tree

/-!
# Siblings

In every tree built from an empty root by the operations, siblings have distinct names and stand
in the order of their keys, so the binary search behind an insertion runs on a sorted list. Then
every node is the one found at its place, and where siblings' keys are distinct too the tree is
determined by its entries (`eq_of_entries`).
-/

namespace AmbientFs

open ListSearch

namespace TreeNode

/-- Siblings have distinct names and stand in the order of their keys. -/
inductive Ordered [Lowercase] : TreeNode → Prop
  | mk {t : TreeNode} (nodup : (t.children.map TreeNode.name).Nodup)
    (sorted : (t.children.map TreeNode.sortKey).Pairwise (· ≤ ·))
    (children : ∀ c ∈ t.children, Ordered c) : Ordered t

/-- Siblings' keys are distinct: no two of one kind have names that differ in case only. -/
inductive KeysDistinct [Lowercase] : TreeNode → Prop
  | mk {t : TreeNode} (nodup : (t.children.map TreeNode.sortKey).Nodup)
    (children : ∀ c ∈ t.children, KeysDistinct c) : KeysDistinct t

/-- The trees the operations build from an empty root. -/
inductive Reachable [Lowercase] : TreeNode → Prop
  | new : Reachable (dir "" "")
  | add {t : TreeNode} (p : String) (isDir : Bool) : Reachable t → Reachable (addNode t p isDir).1
  | remove {t : TreeNode} (p : String) : Reachable t → Reachable (removeNode t p).1
  | rename {t : TreeNode} (o n : String) (isDir : Bool) :
    Reachable t → Reachable (renameNode t o n isDir).1

section Ordered

variable [Lowercase] {t c : TreeNode}

theorem Ordered.nodup : t.Ordered → (t.children.map name).Nodup
  | .mk h _ _ => h

theorem Ordered.sorted : t.Ordered → (t.children.map sortKey).Pairwise (· ≤ ·)
  | .mk _ h _ => h

theorem Ordered.child : t.Ordered → ∀ c ∈ t.children, c.Ordered
  | .mk _ _ h => h

theorem KeysDistinct.nodup : t.KeysDistinct → (t.children.map sortKey).Nodup
  | .mk h _ => h

theorem KeysDistinct.child : t.KeysDistinct → ∀ c ∈ t.children, c.KeysDistinct
  | .mk _ h => h

theorem ordered_of_no_children (h : t.children = []) : t.Ordered :=
  .mk (by simp [h]) (by simp [h]) (by simp [h])

omit [Lowercase] in
theorem isDir_of_data {a b : TreeNode} (h : a.data = b.data) : a.isDir = b.isDir :=
  congrArg Prod.fst h

theorem sortKey_congr {a b : TreeNode} (hn : a.name = b.name) (hd : a.data = b.data) :
    a.sortKey = b.sortKey := by
  unfold sortKey
  rw [hn, isDir_of_data hd]

/-- Putting in place of a child one with its name and kind keeps the order. -/
theorem Ordered.replace {c' : TreeNode} {l₁ l₂ : List TreeNode} (h : t.Ordered)
    (hl : t.children = l₁ ++ c :: l₂) (hn : c'.name = c.name) (hd : c'.data = c.data)
    (hc : c'.Ordered) : (t.withChildren (l₁ ++ c' :: l₂)).Ordered := by
  refine .mk ?_ ?_ fun d hmem => ?_
  · have := h.nodup
    rw [hl] at this
    simpa [hn] using this
  · have := h.sorted
    rw [hl] at this
    simpa [sortKey_congr hn hd] using this
  · have hch := h.child
    rw [hl] at hch
    simp only [withChildren_children, List.mem_append, List.mem_cons] at hmem
    rcases hmem with hmem | rfl | hmem
    · exact hch d (by simp [hmem])
    · exact hc
    · exact hch d (by simp [hmem])

theorem partitioned_of_sorted {l : List TreeNode} (node : TreeNode)
    (h : (l.map sortKey).Pairwise (· ≤ ·)) :
    Partitioned (fun c => compare c.sortKey node.sortKey) l := by
  refine (List.pairwise_map.1 h).imp fun {a b} hab => ⟨fun hb => ?_, fun hb => ?_⟩
  · exact compare_le_iff_le.2 (hab.trans (compare_le_iff_le.1 hb))
  · exact compare_lt_iff_lt.2 (hab.trans_lt (compare_lt_iff_lt.1 hb))

/-- Inserting a child with a new name keeps the order. -/
theorem Ordered.insert (h : t.Ordered)
    (hn : t.children.find? (fun d => d.name == c.name) = none) (hc : c.Ordered) :
    (t.withChildren (insertSorted t.children c)).Ordered := by
  obtain ⟨l₁, l₂, hl, hins, hlo, hhi⟩ := insertIdx_position (partitioned_of_sorted c h.sorted) c
  have hnew : c.name ∉ t.children.map name := by
    intro hmem
    obtain ⟨d, hd, hdn⟩ := List.mem_map.1 hmem
    exact List.find?_eq_none.1 hn d hd (by simpa using hdn)
  have hsorted := h.sorted
  refine .mk ?_ ?_ fun d hmem => ?_
  · have hp : ((t.withChildren (insertSorted t.children c)).children.map name).Perm
        (c.name :: t.children.map name) := by
      rw [withChildren_children, insertSorted, hins, hl]
      simp [List.perm_middle]
    exact hp.nodup_iff.2 (List.nodup_cons.2 ⟨hnew, h.nodup⟩)
  · rw [withChildren_children, insertSorted, hins]
    rw [hl, List.map_append, List.pairwise_append] at hsorted
    rw [List.map_append, List.map_cons, List.pairwise_append, List.pairwise_cons]
    refine ⟨hsorted.1, ⟨?_, hsorted.2.1⟩, ?_⟩
    · intro k hk
      obtain ⟨d, hd, rfl⟩ := List.mem_map.1 hk
      exact compare_ge_iff_ge.1 (hhi d hd)
    · intro k hk k' hk'
      rcases List.mem_cons.1 hk' with rfl | hk'
      · obtain ⟨d, hd, rfl⟩ := List.mem_map.1 hk
        exact compare_le_iff_le.1 (hlo d hd)
      · exact hsorted.2.2 k hk k' hk'
  · rw [withChildren_children, insertSorted, hins] at hmem
    have hch := h.child
    rw [hl] at hch
    rcases List.mem_append.1 hmem with hmem | hmem
    · exact hch d (List.mem_append_left _ hmem)
    · rcases List.mem_cons.1 hmem with rfl | hmem
      · exact hc
      · exact hch d (List.mem_append_right _ hmem)

theorem Ordered.addNodeRecursive (fullPath : String) (isDir : Bool) :
    ∀ (parts : List String) {t : TreeNode}, t.Ordered →
      (addNodeRecursive fullPath isDir parts t).1.Ordered
  | [], _, h => h
  | name :: rest, t, h => by
    rcases hf : t.children.find? fun c => c.name == name with _ | c
    · obtain ⟨c, hcn, hcc, -, heq⟩ := addNodeRecursive_of_none fullPath isDir rest hf
      rw [heq]
      refine h.insert ?_ (Ordered.addNodeRecursive fullPath isDir rest (ordered_of_no_children hcc))
      rw [(addNodeRecursive_same fullPath isDir rest c).1, hcn]
      exact hf
    · obtain ⟨l₁, l₂, hl, -, -, heq⟩ := addNodeRecursive_of_some fullPath isDir rest hf
      obtain ⟨hn, hd⟩ := addNodeRecursive_same fullPath isDir rest c
      rw [heq]
      exact h.replace hl hn hd
        (Ordered.addNodeRecursive fullPath isDir rest (h.child c (by simp [hl])))

theorem Ordered.removeNodeRecursive : ∀ (parts : List String) {t : TreeNode}, t.Ordered →
    (removeNodeRecursive parts t).1.Ordered
  | [], _, h => h
  | name :: rest, t, h => by
    rcases hf : t.children.find? fun c => c.name == name with _ | c
    · rw [removeNodeRecursive_of_none rest hf]
      exact h
    rcases rest with _ | ⟨n, rest⟩
    · rw [removeNodeRecursive_leaf]
      have hsub := List.filter_sublist (p := fun c => c.name != name) (l := t.children)
      exact .mk (h.nodup.sublist (hsub.map _)) (h.sorted.sublist (hsub.map _))
        fun c hc => h.child c (List.mem_of_mem_filter hc)
    · obtain ⟨l₁, l₂, hl, -, -, heq⟩ := removeNodeRecursive_of_some (List.cons_ne_nil n rest) hf
      obtain ⟨hn, hd⟩ := removeNodeRecursive_same (n :: rest) c
      rw [heq]
      exact h.replace hl hn hd (Ordered.removeNodeRecursive (n :: rest) (h.child c (by simp [hl])))

theorem Ordered.renameNode (h : t.Ordered) (o n : String) (isDir : Bool) :
    (renameNode t o n isDir).1.Ordered := by
  unfold AmbientFs.renameNode
  simp only []
  split_ifs
  · exact (h.removeNodeRecursive _).addNodeRecursive n isDir _
  · exact h.removeNodeRecursive _

theorem Reachable.ordered : ∀ {t : TreeNode}, t.Reachable → t.Ordered
  | _, .new => ordered_of_no_children rfl
  | _, .add p isDir h => h.ordered.addNodeRecursive p isDir _
  | _, .remove _ h => h.ordered.removeNodeRecursive _
  | _, .rename o n isDir h => h.ordered.renameNode o n isDir

end Ordered

/-! ## Nodes and entries -/

/-- The nodes below the root. -/
def descendants : TreeNode → List TreeNode
  | ⟨_, _, _, children⟩ => descendantsAll children
where
  descendantsAll : List TreeNode → List TreeNode
    | [] => []
    | c :: cs => c :: (descendants c ++ descendantsAll cs)

/-- The path and kind of each node below the root. -/
def nodes (t : TreeNode) : List (String × Bool) := t.descendants.map fun n => (n.path, n.isDir)

theorem mem_descendantsAll {n : TreeNode} : ∀ cs : List TreeNode,
    n ∈ descendants.descendantsAll cs ↔ ∃ c ∈ cs, n = c ∨ n ∈ c.descendants
  | [] => by simp [descendants.descendantsAll]
  | c :: cs => by
    simp only [descendants.descendantsAll, List.mem_cons, List.mem_append, mem_descendantsAll cs,
      exists_eq_or_imp, or_assoc]

theorem mem_descendants {n t : TreeNode} :
    n ∈ t.descendants ↔ ∃ c ∈ t.children, n = c ∨ n ∈ c.descendants := by
  cases t
  rw [descendants]
  exact mem_descendantsAll _

section Entries

variable [Lowercase]

theorem Ordered.find?_name {t c : TreeNode} (h : t.Ordered) (hc : c ∈ t.children) :
    (t.children.find? fun d => d.name == c.name) = some c := by
  obtain ⟨l₁, l₂, hl⟩ := List.append_of_mem hc
  have hnd := h.nodup
  rw [hl, List.map_append, List.map_cons, List.nodup_append] at hnd
  rw [hl]
  refine find?_append_cons (fun d hd => ?_) (by simp)
  have := hnd.2.2 d.name (List.mem_map_of_mem hd) c.name List.mem_cons_self
  simpa using this

omit [Lowercase] in
theorem findNodeRecursive_cons (t : TreeNode) (name : String) (rest : List String) :
    findNodeRecursive (name :: rest) t =
      (t.children.find? fun c => c.name == name).bind (findNodeRecursive rest) := by
  rw [findNodeRecursive]
  congr 1
  funext c
  rcases rest with _ | ⟨n, rest⟩ <;> rfl

omit [Lowercase] in
theorem findNodeRecursive_append : ∀ (p q : List String) (t : TreeNode),
    findNodeRecursive (p ++ q) t = (findNodeRecursive p t).bind (findNodeRecursive q)
  | [], _, _ => rfl
  | name :: p, q, t => by
    rw [List.cons_append, findNodeRecursive_cons, findNodeRecursive_cons, Option.bind_assoc]
    congr 1
    funext c
    exact findNodeRecursive_append p q c

omit [Lowercase] in
theorem entries_append {t n : TreeNode} {p : List String} (hn : findNodeRecursive p t = some n)
    (q : List String) : t.entries (p ++ q) = n.entries q := by
  unfold entries
  rw [findNodeRecursive_append, hn]
  rfl

omit [Lowercase] in
theorem children_ne_nil_iff {n : TreeNode} :
    n.children ≠ [] ↔ ∃ name, n.entries [name] ≠ none := by
  constructor
  · intro h
    obtain ⟨c, hc⟩ := List.exists_mem_of_ne_nil n.children h
    refine ⟨c.name, ?_⟩
    rcases hf : n.children.find? fun d => d.name == c.name with _ | d
    · exact absurd (List.find?_eq_none.1 hf c hc) (by simp)
    · simp [entries_cons_of_some hf]
  · rintro ⟨name, hn⟩ h
    exact hn (entries_cons_of_none (by simp [h]) [])

omit [Lowercase] in
theorem mem_descendants_of_find : ∀ {p : List String} {t n : TreeNode}, p ≠ [] →
    findNodeRecursive p t = some n → n ∈ t.descendants
  | [], _, _, h, _ => absurd rfl h
  | name :: rest, t, n, _, h => by
    rw [findNodeRecursive_cons, Option.bind_eq_some_iff] at h
    obtain ⟨c, hc, hn⟩ := h
    refine mem_descendants.2 ⟨c, List.mem_of_find?_eq_some hc, ?_⟩
    rcases rest with _ | ⟨name', rest⟩
    · exact .inl (Option.some.inj hn).symm
    · exact .inr (mem_descendants_of_find (List.cons_ne_nil name' rest) hn)

/-- Every node below the root is found at some place. -/
theorem Ordered.find_of_mem_descendants {n : TreeNode} : ∀ {t : TreeNode}, t.Ordered →
    n ∈ t.descendants → ∃ p, p ≠ [] ∧ findNodeRecursive p t = some n := by
  intro t ht
  induction ht with
  | @mk t hnd hs hch ih =>
    intro hn
    obtain ⟨c, hc, hn⟩ := mem_descendants.1 hn
    have hf := (Ordered.mk hnd hs hch).find?_name hc
    rcases hn with rfl | hn
    · exact ⟨[n.name], List.cons_ne_nil _ _, by rw [findNodeRecursive_cons, hf]; rfl⟩
    · obtain ⟨p, -, hp⟩ := ih c hc hn
      exact ⟨c.name :: p, List.cons_ne_nil _ _, by rw [findNodeRecursive_cons, hf]; exact hp⟩

theorem Ordered.mem_nodes {t : TreeNode} (h : t.Ordered) {path : String} {isDir : Bool} :
    (path, isDir) ∈ t.nodes ↔ ∃ p, p ≠ [] ∧ t.entries p = some (isDir, path) := by
  unfold nodes entries
  simp only [List.mem_map, Prod.mk.injEq, Option.map_eq_some_iff, data]
  constructor
  · rintro ⟨n, hn, rfl, rfl⟩
    obtain ⟨p, hp, hf⟩ := h.find_of_mem_descendants hn
    exact ⟨p, hp, n, hf, rfl, rfl⟩
  · rintro ⟨p, hp, n, hf, rfl, rfl⟩
    exact ⟨n, mem_descendants_of_find hp hf, rfl, rfl⟩

/-- The child of the one tree that stands where a child of the other does. -/
theorem Ordered.exists_child {t t' c : TreeNode} (h : t.Ordered) (he : t.entries = t'.entries)
    (hc : c ∈ t.children) : ∃ c' ∈ t'.children, c'.name = c.name ∧ c'.entries = c.entries := by
  have hf := h.find?_name hc
  rcases hf' : t'.children.find? fun d => d.name == c.name with _ | c'
  · have := congrFun he [c.name]
    rw [entries_cons_of_some hf, entries_cons_of_none hf'] at this
    cases this
  · refine ⟨c', List.mem_of_find?_eq_some hf', by simpa using List.find?_some hf', ?_⟩
    funext p
    rw [← entries_cons_of_some hf, ← entries_cons_of_some hf', he]

/-- Trees with the same entries are equal where siblings' keys are distinct. -/
theorem Ordered.eq_of_entries {t : TreeNode} (ht : t.Ordered) : ∀ {t' : TreeNode},
    t.KeysDistinct → t'.Ordered → t.name = t'.name → t.entries = t'.entries → t = t' := by
  induction ht with
  | @mk t hnd hs hch ih =>
    intro t' hk ht' hn he
    have ht := Ordered.mk hnd hs hch
    have hsub : t.children ⊆ t'.children := by
      intro c hc
      obtain ⟨c', hc', hcn, hce⟩ := ht.exists_child he hc
      rw [ih c hc (hk.child c hc) (ht'.child c' hc') hcn.symm hce.symm]
      exact hc'
    have hsub' : t'.children ⊆ t.children := by
      intro c' hc'
      obtain ⟨c, hc, hcn, hce⟩ := ht'.exists_child he.symm hc'
      rw [← ih c hc (hk.child c hc) (ht'.child c' hc') hcn hce]
      exact hc
    have hperm : t.children.Perm t'.children :=
      (List.perm_ext_iff_of_nodup hnd.of_map ht'.nodup.of_map).2 fun c =>
        ⟨fun hc => hsub hc, fun hc => hsub' hc⟩
    have hkeys : ∀ a ∈ t.children, ∀ b ∈ t.children, a.sortKey = b.sortKey → a = b :=
      fun a ha b hb hab => List.inj_on_of_nodup_map hk.nodup ha hb hab
    have hchildren : t.children = t'.children :=
      hperm.eq_of_pairwise (fun a b ha hb hab hba => hkeys a ha b (hsub' hb) (le_antisymm hab hba))
        (List.pairwise_map.1 hs) (List.pairwise_map.1 ht'.sorted)
    have hdata : t.data = t'.data := Option.some.inj (congrFun he [])
    cases t
    cases t'
    simp only [data, Prod.mk.injEq] at hn hdata hchildren ⊢
    simp [hn, hdata, hchildren]

end Entries

end TreeNode

end AmbientFs
