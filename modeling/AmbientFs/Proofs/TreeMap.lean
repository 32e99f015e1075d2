import AmbientFs.Proofs.TreeOrder

/-!
# The tree refines a finite map

`TreeNode.At t p k` says that `t` has a node of kind `k` at the components `p`, through any child
of each name. Siblings of a tree the operations built have distinct names, so there it is a map,
and it is the one the lookups compute (`Ordered.at_iff`). Adding and removing a path act on it as
they do on a map of paths.
-/

namespace AmbientFs

namespace TreeNode

/-- A node of kind `k`, a directory or not, stands at the components `p`. -/
inductive At : TreeNode → List String → Bool → Prop
  | root (t : TreeNode) : At t [] t.isDir
  | child {t c : TreeNode} {p : List String} {k : Bool} (hc : c ∈ t.children) (h : At c p k) :
    At t (c.name :: p) k

/-- The trees that adding and removing build from an empty root. -/
inductive Grown [Lowercase] : TreeNode → Prop
  | new (name path : String) : Grown (dir name path)
  | add {t : TreeNode} (p : String) (isDir : Bool) : Grown t → Grown (addNode t p isDir).1
  | remove {t : TreeNode} (p : String) : Grown t → Grown (removeNode t p).1

@[simp] theorem at_nil {t : TreeNode} {k : Bool} : t.At [] k ↔ k = t.isDir := by
  constructor
  · rintro ⟨⟩
    rfl
  · rintro rfl
    exact .root t

theorem at_cons {t : TreeNode} {n : String} {p : List String} {k : Bool} :
    t.At (n :: p) k ↔ ∃ c ∈ t.children, c.name = n ∧ c.At p k := by
  constructor
  · rintro (_ | @⟨_, c, _, _, hc, h⟩)
    exact ⟨c, hc, rfl, h⟩
  · rintro ⟨c, hc, rfl, h⟩
    exact .child hc h

section Grown

variable [Lowercase] {t : TreeNode}

theorem Grown.ordered : ∀ {t : TreeNode}, t.Grown → t.Ordered
  | _, .new _ _ => ordered_of_no_children rfl
  | _, .add p isDir h => h.ordered.addNodeRecursive p isDir _
  | _, .remove _ h => h.ordered.removeNodeRecursive _

theorem Grown.isDir_root : ∀ {t : TreeNode}, t.Grown → t.isDir = true
  | _, .new _ _ => rfl
  | _, .add p isDir h =>
    (isDir_of_data (addNodeRecursive_same p isDir _ _).2).trans h.isDir_root
  | _, .remove _ h => (isDir_of_data (removeNodeRecursive_same _ _).2).trans h.isDir_root

/-- Where siblings have distinct names, what stands at a path is what a lookup finds. -/
theorem Ordered.at_iff : ∀ {p : List String} {t : TreeNode}, t.Ordered → ∀ {k : Bool},
    t.At p k ↔ ∃ path, t.entries p = some (k, path)
  | [], t, _, k => by simp [data, eq_comm]
  | n :: p, t, h, k => by
    rw [at_cons]
    constructor
    · rintro ⟨c, hc, rfl, hat⟩
      rw [entries_cons_of_some (h.find?_name hc)]
      exact (Ordered.at_iff (h.child c hc)).1 hat
    · rintro ⟨path, he⟩
      rcases hf : t.children.find? fun c => c.name == n with _ | c
      · rw [entries_cons_of_none hf] at he
        cases he
      · rw [entries_cons_of_some hf] at he
        have hc := List.mem_of_find?_eq_some hf
        refine ⟨c, hc, by simpa using List.find?_some hf, ?_⟩
        exact (Ordered.at_iff (h.child c hc)).2 ⟨path, he⟩

theorem Ordered.at_unique (h : t.Ordered) {p : List String} {k k' : Bool} (hk : t.At p k)
    (hk' : t.At p k') : k = k' := by
  obtain ⟨path, he⟩ := h.at_iff.1 hk
  obtain ⟨path', he'⟩ := h.at_iff.1 hk'
  rw [he] at he'
  exact congrArg Prod.fst (Option.some.inj he')

theorem Ordered.exists_at (h : t.Ordered) {p : List String} :
    (∃ k, t.At p k) ↔ t.entries p ≠ none := by
  simp only [h.at_iff, Option.ne_none_iff_exists', Prod.exists]

theorem Ordered.not_at (h : t.Ordered) {p : List String} :
    (∀ k, ¬ t.At p k) ↔ t.entries p = none := by
  rw [← not_exists, h.exists_at, not_not]

theorem Ordered.finite_at (h : t.Ordered) : {q | ∃ k, t.At q k}.Finite := by
  induction h with
  | @mk t _ _ _ ih =>
    have hf : (⋃ c ∈ t.children, (c.name :: ·) '' {q | ∃ k, c.At q k}).Finite :=
      (List.finite_toSet t.children).biUnion fun c hc => (ih c hc).image _
    refine (hf.insert []).subset ?_
    rintro (_ | ⟨n, q⟩) ⟨k, hk⟩
    · exact Set.mem_insert _ _
    · obtain ⟨c, hc, rfl, hat⟩ := at_cons.1 hk
      exact Set.mem_insert_of_mem _ (Set.mem_biUnion hc ⟨q, ⟨k, hat⟩, rfl⟩)

/-! ## The operations -/

/-- Adding puts the node there and directories on the way where nothing was. -/
theorem Ordered.at_addNode (h : t.Ordered) (p : String) (isDir : Bool)
    (hadd : (addNode t p isDir).2 = true) (q : List String) (k : Bool) :
    (addNode t p isDir).1.At q k ↔ t.At q k ∨ q = splitPath p ∧ k = isDir ∨
      q <+: splitPath p ∧ q ≠ splitPath p ∧ (∀ k', ¬ t.At q k') ∧ k = true := by
  have hnew : t.entries (splitPath p) = none := by simpa [addNode_snd] using hadd
  rw [(h.addNodeRecursive p isDir _).at_iff (t := (addNode t p isDir).1), h.not_at, h.at_iff,
    entries_addNode]
  unfold PathMap.add
  split_ifs with hc
  · by_cases hq : q = splitPath p
    · subst hq
      simp [fillIn, hnew, eq_comm]
    · simp [fillIn, hc.1, hc.2, hq, eq_comm]
  · have hq : q ≠ splitPath p := by
      rintro rfl
      exact hc ⟨List.prefix_rfl, hnew⟩
    have hn : ¬ (q <+: splitPath p ∧ q ≠ splitPath p ∧ t.entries q = none ∧ k = true) :=
      fun hn => hc ⟨hn.1, hn.2.2.1⟩
    simp [hq]
    tauto

/-- Removing takes away the path and all below it. -/
theorem Ordered.at_removeNode (h : t.Ordered) (p : String)
    (hrem : (removeNode t p).2 = true) (q : List String) (k : Bool) :
    (removeNode t p).1.At q k ↔ t.At q k ∧ ¬ splitPath p <+: q := by
  have hne : splitPath p ≠ [] := by
    rw [removeNode_snd] at hrem
    simp only [Bool.and_eq_true, decide_eq_true_eq] at hrem
    exact hrem.1
  rw [(h.removeNodeRecursive _).at_iff (t := (removeNode t p).1), h.at_iff,
    entries_removeNode t p hne]
  unfold PathMap.erase
  split_ifs with hc
  · simp [hc]
  · simp [hc]

theorem Ordered.at_findNode (h : t.Ordered) (p : String) (k : Bool) :
    t.At (splitPath p) k ↔ ∃ n, findNode t p = some n ∧ n.isDir = k := by
  rw [h.at_iff]
  unfold entries findNode data
  simp only [Option.map_eq_some_iff, Prod.mk.injEq]
  constructor
  · rintro ⟨_, n, hn, hk, -⟩
    exact ⟨n, hn, hk⟩
  · rintro ⟨n, hn, hk⟩
    exact ⟨_, n, hn, hk, rfl⟩

/-- Trees grown from an empty root are maps from component lists to kinds, the root a directory,
and the operations act on them as on such maps. -/
theorem Grown.refines_map (h : t.Grown) (p : String) :
    (∀ k, t.At [] k ↔ k = true) ∧ (∀ q k k', t.At q k → t.At q k' → k = k') ∧
      {q | ∃ k, t.At q k}.Finite ∧
      (∀ isDir, ((addNode t p isDir).2 = true → (∀ k, ¬ t.At (splitPath p) k) ∧
          ∀ q k, (addNode t p isDir).1.At q k ↔ t.At q k ∨ q = splitPath p ∧ k = isDir ∨
            q <+: splitPath p ∧ q ≠ splitPath p ∧ (∀ k', ¬ t.At q k') ∧ k = true) ∧
        ((addNode t p isDir).2 = false → (addNode t p isDir).1 = t)) ∧
      ((removeNode t p).2 = true → (∃ k, t.At (splitPath p) k) ∧
        ∀ q k, (removeNode t p).1.At q k ↔ t.At q k ∧ ¬ splitPath p <+: q) ∧
      ((removeNode t p).2 = false → (removeNode t p).1 = t) ∧
      ∀ k, t.At (splitPath p) k ↔ ∃ n, findNode t p = some n ∧ n.isDir = k := by
  have ho := h.ordered
  refine ⟨fun k => ?_, fun _ _ _ => ho.at_unique, ho.finite_at,
    fun isDir => ⟨fun hadd => ?_, addNode_false t p isDir⟩, fun hrem => ?_, removeNode_false t p,
    ho.at_findNode p⟩
  · rw [at_nil, h.isDir_root]
  · refine ⟨ho.not_at.2 ?_, ho.at_addNode p isDir hadd⟩
    simpa [addNode_snd] using hadd
  · refine ⟨ho.exists_at.2 ?_, ho.at_removeNode p hrem⟩
    rw [removeNode_snd, Bool.and_eq_true] at hrem
    exact Option.isSome_iff_ne_none.1 hrem.2

end Grown

attribute [local instance] asciiLowercase

/-- A file two levels down brings the directory above it. -/
theorem refines_map_add :
    (addNode (dir "" "") "a/b" false).2 = true ∧
      (addNode (dir "" "") "a/b" false).1.At ["a"] true := by
  have h := (Grown.refines_map (.new "" "") "a/b").2.2.2.1 false
  have hadd : (addNode (dir "" "") "a/b" false).2 = true := by decide
  refine ⟨hadd, ((h.1 hadd).2 _ _).2 (.inr (.inr ⟨by decide, by decide, ?_, rfl⟩))⟩
  intro k hk
  simp [at_cons, dir] at hk

end TreeNode

end AmbientFs
