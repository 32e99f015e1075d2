import AmbientFs.Lib.Run
import AmbientFs.Proofs.Path
import AmbientFs.Proofs.PatchStream
import AmbientFs.Proofs.Rescan
import AmbientFs.Proofs.TreeMap

/-!
# Only directories have children

A scan makes children of directories only. Adding a path goes down through whatever stands on the
way, so an event that comes after its parent was recorded as a file puts a child below that file.
Throughout a run only directories have children exactly if every update that adds finds no file on
the way (`onlyDirs_always_iff`).
-/

namespace AmbientFs

/-- An event, or a rename where both paths are known. -/
inductive TreeUpdate
  | event (e : FileEvent)
  | rename (oldPath newPath : String) (isDir : Bool)

namespace TreeNode

/-- Every node with a child is a directory. -/
def OnlyDirs (t : TreeNode) : Prop :=
  ∀ n, n = t ∨ n ∈ t.descendants → n.children ≠ [] → n.isDir = true

/-- A file of the tree stands above the components `p`. -/
def FileAbove (t : TreeNode) (p q : List String) : Prop := q <+: p ∧ q ≠ p ∧ t.At q false

end TreeNode

/-- What is listed with a type is there and of that type. -/
def Fs.Reads (fs : Fs) (readDir : ReadDir) : Prop :=
  ∀ p entries name type, fs.map p = some .dir → readDir (joinPath p) = some entries →
    some ⟨some name, type⟩ ∈ entries → ∀ ft ∈ type, fs.map (p ++ [name]) = some ft

/-- Where the operation adds, no file stands above the path, unless it has been removed. -/
def TreePatch.ClearOfFiles (root : TreeNode) : TreePatch → Prop
  | add path _ => ∀ q, ¬ root.FileAbove (splitPath path) q
  | remove _ => True
  | rename oldPath newPath _ => splitPath oldPath ≠ [] → (findNode root oldPath).isSome →
    ∀ q, root.FileAbove (splitPath newPath) q → splitPath oldPath <+: q

/-- The operation an update calls for. -/
def TreeUpdate.treePatch : TreeUpdate → Option TreePatch
  | event e => e.treePatch
  | rename oldPath newPath isDir => some (.rename oldPath newPath isDir)

section Updates

variable [Lowercase]

def ProjectTree.update (t : ProjectTree) : TreeUpdate → ProjectTree
  | .event e => (t.applyEvent e).1
  | .rename oldPath newPath isDir => (t.applyRename oldPath newPath isDir).1

theorem ProjectTree.update_root (t : ProjectTree) (u : TreeUpdate) :
    (t.update u).root = u.treePatch.elim t.root fun p => p.applyTo t.root := by
  rcases u with e | ⟨o, n, d⟩
  · rcases h : e.treePatch with _ | p
    · simp [update, TreeUpdate.treePatch, applyEvent_of_none t h, h]
    · simp [update, TreeUpdate.treePatch, applyEvent_of_some t h, h]
  · rfl

namespace TreeNode

variable {t : TreeNode}

/-! ## On the entries -/

/-- In an ordered tree only directories have children if no file has anything below it. -/
theorem Ordered.onlyDirs_iff (h : t.Ordered) :
    t.OnlyDirs ↔ ∀ q name, t.entries (q ++ [name]) ≠ none → ¬ t.At q false := by
  constructor
  · intro hd q name hne hat
    obtain ⟨path, he⟩ := h.at_iff.1 hat
    obtain ⟨n, hn, hdata⟩ := Option.map_eq_some_iff.1 he
    have hmem : n = t ∨ n ∈ t.descendants := by
      by_cases hq : q = []
      · rw [hq] at hn
        exact .inl (Option.some.inj hn).symm
      · exact .inr (mem_descendants_of_find hq hn)
    rw [entries_append hn] at hne
    have hdir := hd n hmem (children_ne_nil_iff.2 ⟨name, hne⟩)
    simp [data, hdir] at hdata
  · intro hq n hmem hch
    have hfound : ∃ q, findNodeRecursive q t = some n := by
      rcases hmem with rfl | hmem
      · exact ⟨[], rfl⟩
      · obtain ⟨q, -, hn⟩ := h.find_of_mem_descendants hmem
        exact ⟨q, hn⟩
    obtain ⟨q, hn⟩ := hfound
    obtain ⟨name, hne⟩ := children_ne_nil_iff.1 hch
    by_contra hf
    refine hq q name (by rwa [entries_append hn]) (h.at_iff.2 ⟨n.path, ?_⟩)
    simpa [entries, hn, data] using hf

/-! ## The operations -/

theorem Ordered.onlyDirs_addNode (h : t.Ordered) (hd : t.OnlyDirs) (p : String) (isDir : Bool) :
    (addNode t p isDir).1.OnlyDirs ↔ ∀ q, ¬ t.FileAbove (splitPath p) q := by
  have h' : (addNode t p isDir).1.Ordered := h.addNodeRecursive p isDir _
  rw [h.onlyDirs_iff] at hd
  rw [h'.onlyDirs_iff]
  simp only [FileAbove, h'.at_iff, h.at_iff, entries_addNode] at hd ⊢
  constructor
  · rintro hd' q ⟨⟨r, hr⟩, hne, path, he⟩
    rcases r with _ | ⟨name, r⟩
    · exact hne (by simpa using hr)
    refine hd' q name ?_ ⟨path, ?_⟩
    · unfold PathMap.add
      split_ifs with hc
      · simp
      · exact fun hn => hc ⟨⟨r, by simpa using hr⟩, hn⟩
    · unfold PathMap.add
      rw [if_neg fun hc => by simp [he] at hc, he]
  · rintro hclear q name hne ⟨path, he⟩
    unfold PathMap.add at hne he
    split_ifs at he with hq
    · have hfull : q = splitPath p := by
        by_contra hqp
        simp [fillIn, hqp] at he
      have hlong : ¬ q ++ [name] <+: splitPath p := by
        rw [← hfull]
        intro hpre
        simpa using hpre.length_le
      rw [if_neg fun hc => hlong hc.1] at hne
      exact (closed_entries t).above (List.prefix_append q [name]) hne hq.2
    · split_ifs at hne with hc
      · have hpre := (List.prefix_append q [name]).trans hc.1
        refine hclear q ⟨hpre, ?_, path, he⟩
        rintro rfl
        simpa using hc.1.length_le
      · exact hd q name hne ⟨path, he⟩

theorem Ordered.onlyDirs_removeNode (h : t.Ordered) (hd : t.OnlyDirs) (p : String) :
    (removeNode t p).1.OnlyDirs := by
  have h' : (removeNode t p).1.Ordered := h.removeNodeRecursive _
  rw [h.onlyDirs_iff] at hd
  rw [h'.onlyDirs_iff]
  rcases hr : (removeNode t p).2
  · rw [removeNode_false t p hr]
    exact hd
  · intro q name hne hat
    have hat := (h.at_removeNode p hr q false).1 hat
    obtain ⟨k, hk⟩ := h'.exists_at.2 hne
    exact hd q name (h.exists_at.1 ⟨k, ((h.at_removeNode p hr _ k).1 hk).1⟩) hat.1

/-- An operation leaves it so that only directories have children, exactly if it finds no file
above the path it adds. -/
theorem Ordered.onlyDirs_applyTo (h : t.Ordered) (hd : t.OnlyDirs) : ∀ p : TreePatch,
    (p.applyTo t).OnlyDirs ↔ p.ClearOfFiles t
  | .add p d => h.onlyDirs_addNode hd p d
  | .remove p => iff_of_true (h.onlyDirs_removeNode hd p) trivial
  | .rename o n d => by
    have hr := removeNode_snd t o
    have hfound := findNode_isSome t o
    unfold TreePatch.applyTo TreePatch.operation AmbientFs.renameNode TreePatch.ClearOfFiles
    simp only []
    split_ifs with hrem
    · have hs : splitPath o ≠ [] ∧ (findNode t o).isSome := by
        simpa [hr, hfound] using hrem
      have h' : (removeNode t o).1.Ordered := h.removeNodeRecursive _
      rw [h'.onlyDirs_addNode (h.onlyDirs_removeNode hd o)]
      simp only [hs.1, hs.2, ne_eq, not_false_eq_true, forall_const, FileAbove,
        h.at_removeNode o hrem]
      refine forall_congr' fun q => ?_
      -- a file above the new path stays if it is not moved
      simp only [← and_assoc, not_and, not_not]
    · refine iff_of_true (h.onlyDirs_removeNode hd o) fun hne hs => ?_
      rw [hr, ← hfound] at hrem
      exact absurd (by simp [hne, hs]) hrem

end TreeNode

/-! ## The scan -/

namespace ProjectTree

open TreeNode

variable {fs : Fs} {readDir : ReadDir} {filter : PathFilter} {I : TreeNode → Prop}

theorem scanEntries_keeps {p : List String} {recurse : String → ScanState → ScanState}
    (hd : fs.map p ≠ none)
    (hI : ∀ c type root, fs.map c = some type → I root →
      I (addNode root (joinPath c) (type = .dir)).1)
    (hrec : ∀ c st, fs.map c = some .dir → I st.root → I (recurse (joinPath c) st).root) :
    ∀ (entries : List (Option DirEntry)) (st : ScanState),
      (∀ name type, some ⟨some name, type⟩ ∈ entries →
        ∀ ft ∈ type, fs.map (p ++ [name]) = some ft) →
      I st.root → I (scanEntries filter (joinPath p) recurse entries st).root
  | [], _, _, h => h
  | none :: entries, st, hl, h =>
    scanEntries_keeps hd hI hrec entries st
      (fun name type hm => hl name type (List.mem_cons_of_mem _ hm)) h
  | some ⟨none, _⟩ :: entries, st, hl, h =>
    scanEntries_keeps hd hI hrec entries st
      (fun name type hm => hl name type (List.mem_cons_of_mem _ hm)) h
  | some ⟨some name, type⟩ :: entries, st, hl, h => by
    have ih := fun st => scanEntries_keeps hd hI hrec entries st
      fun name type hm => hl name type (List.mem_cons_of_mem _ hm)
    have hft := hl name type List.mem_cons_self
    rw [scanEntries_cons, childRelative_joinPath (fs.validPath hd)]
    by_cases hi : filter.shouldIgnore (joinPath (p ++ [name])) = true
    · rw [if_pos hi]
      exact ih st h
    rw [if_neg hi]
    rcases type with _ | ft
    · exact ih st h
    have hadd := hI (p ++ [name]) ft st.root (hft ft rfl) h
    rcases ft with _ | _ | _
    · simp only []
      split_ifs with hcap hf
      · exact h
      · exact hf.elim
      · exact ih _ hadd
    · simp only []
      split_ifs
      · exact h
      · exact ih _ (hrec _ _ (hft .dir rfl) hadd)
    · exact ih st h

/-- A scan keeps what adding an entry of the file system keeps. -/
theorem scanDirectory_keeps (hr : fs.Reads readDir)
    (hI : ∀ c type root, fs.map c = some type → I root →
      I (addNode root (joinPath c) (type = .dir)).1) :
    ∀ (levels : ℕ) (p : List String) (st : ScanState), fs.map p = some .dir → I st.root →
      I (scanDirectory readDir filter levels (joinPath p) st).root
  | 0, _, _, _, h => h
  | levels + 1, p, st, hd, h => by
    rw [scanDirectory]
    rcases hread : readDir (joinPath p) with _ | entries
    · exact h
    · refine scanEntries_keeps (by simp [hd]) hI (scanDirectory_keeps hr hI levels) entries st
        (fun name type hm => hr p entries name type hd hread hm) h

/-- Every node is an entry of the file system, and a directory where that is one. -/
def Kinds (fs : Fs) (t : TreeNode) : Prop :=
  t.Ordered ∧
    ∀ q d, t.entries q = some d → fs.map q ≠ none ∧ d.1 = (fs.map q = some .dir : Bool)

theorem Kinds.addNode {t : TreeNode} (h : Kinds fs t) {c : List String} {type : FileType}
    (hc : fs.map c = some type) : Kinds fs (addNode t (joinPath c) (type = .dir)).1 := by
  have hne : fs.map c ≠ none := by simp [hc]
  refine ⟨h.1.addNodeRecursive _ _ _, fun q d hd => ?_⟩
  rw [entries_addNode, splitPath_joinPath (fs.validPath hne).components] at hd
  unfold PathMap.add at hd
  split_ifs at hd with hq
  · by_cases hqc : q = c
    · subst hqc
      rw [← Option.some.inj hd, fillIn, if_pos rfl]
      exact ⟨hne, by simp [hc]⟩
    · rw [← Option.some.inj hd, fillIn, if_neg hqc, fs.dir_of_below hne hq.1 hqc]
      simp
  · exact h.2 q d hd

theorem Kinds.onlyDirs {t : TreeNode} (h : Kinds fs t) : t.OnlyDirs := by
  rw [h.1.onlyDirs_iff]
  intro q name hne hat
  obtain ⟨path, he⟩ := h.1.at_iff.1 hat
  obtain ⟨d, hd⟩ := Option.ne_none_iff_exists'.1 hne
  have hdir := (fs.inDir q name (h.2 _ d hd).1).1
  have hk := (h.2 q _ he).2
  simp [hdir] at hk

variable (filter) in
theorem kinds_fromDirectory (hr : fs.Reads readDir) (dirName : Option String) :
    Kinds fs (fromDirectory readDir filter dirName).root := by
  refine scanDirectory_keeps hr (fun c type root hc h => h.addNode hc) maxDepth [] _ fs.root ?_
  refine ⟨ordered_of_no_children rfl, ?_⟩
  rintro (_ | ⟨name, q⟩) d hd
  · rw [← Option.some.inj hd, fs.root]
    simp [new, data, TreeNode.dir]
  · cases hd

theorem ordered_update {t : ProjectTree} (h : t.root.Ordered) (u : TreeUpdate) :
    (t.update u).root.Ordered := by
  rw [update_root]
  rcases u.treePatch with _ | p
  · exact h
  · rcases p with ⟨p, d⟩ | p | ⟨o, n, d⟩
    · exact h.addNodeRecursive p d _
    · exact h.removeNodeRecursive _
    · exact h.renameNode o n d

theorem onlyDirs_update {t : ProjectTree} (h : t.root.Ordered) (hd : t.root.OnlyDirs)
    (u : TreeUpdate) :
    (t.update u).root.OnlyDirs ↔ ∀ p ∈ u.treePatch, p.ClearOfFiles t.root := by
  rw [update_root]
  rcases u.treePatch with _ | p
  · simpa using hd
  · simpa using h.onlyDirs_applyTo hd p

/-- In every state of a run from a scan only directories have children, exactly if no update of
the run finds a file above the path it adds. -/
theorem onlyDirs_always_iff (hr : fs.Reads readDir) (filter : PathFilter)
    (dirName : Option String) (us : List TreeUpdate) :
    Run.Always update (fromDirectory readDir filter dirName) (fun t => t.root.OnlyDirs) us ↔
      Run.Steps update (fromDirectory readDir filter dirName)
        (fun t u => ∀ p ∈ u.treePatch, p.ClearOfFiles t.root) us := by
  have h0 := kinds_fromDirectory filter hr dirName
  refine Run.always_iff_steps (I := fun t => t.root.Ordered ∧ t.root.OnlyDirs)
    ⟨h0.1, h0.onlyDirs⟩ (fun _ h => h.2) (fun t u h hg => ?_) (fun t u h hg hd => ?_)
  · exact ⟨ordered_update h.1 u, (onlyDirs_update h.1 h.2 u).2 hg⟩
  · exact hg ((onlyDirs_update h.1 h.2 u).1 hd)

end ProjectTree

end Updates

namespace ProjectTree

open TreeNode

attribute [local instance] asciiLowercase

theorem reads_emptyFs : emptyFs.Reads fun _ => some [] := by
  intro p entries name type _ hread hm
  cases hread
  exact absurd hm List.not_mem_nil

/-- A directory whose creation is reported, and then a file in it: the directory, recorded as a
file, has a child. -/
theorem not_onlyDirs_created :
    ¬ Run.Always update (fromDirectory (fun _ => some []) .default none)
      (fun t => t.root.OnlyDirs) [.event (created "d"), .event (created "d/f")] := by
  intro h
  have ho := ordered_update (ordered_update
    (kinds_fromDirectory .default reads_emptyFs none).1 (.event (created "d")))
    (.event (created "d/f"))
  refine ho.onlyDirs_iff.1 (h _ List.prefix_rfl) ["d"] "f" ?_ (ho.at_iff.2 ⟨"d", ?_⟩)
  · decide
  · decide

/-- Files created in a directory that no event has named leave it a directory. -/
theorem onlyDirs_created :
    Run.Always update (fromDirectory (fun _ => some []) .default none)
      (fun t => t.root.OnlyDirs) [.event (created "d/f")] := by
  refine (onlyDirs_always_iff reads_emptyFs .default none _).2
    (Run.steps_cons.2 ⟨?_, Run.steps_nil⟩)
  intro p hp
  cases hp
  rintro q ⟨-, -, hat⟩
  have h0 := kinds_fromDirectory .default reads_emptyFs none
  obtain ⟨path, he⟩ := h0.1.at_iff.1 hat
  obtain ⟨hne, hk⟩ := h0.2 q _ he
  by_cases hq : q = []
  · simp [emptyFs, hq] at hk
  · simp [emptyFs, hq] at hne

end ProjectTree

end AmbientFs
