import AmbientFs.Filter
import AmbientFs.Lib.PathMap
import AmbientFs.TreeState
import AmbientFs.Watcher

/-!
# The file system under a project

A file system is a finite path map from component lists to file types in which every entry lies
in a directory. The operations are those a project's files go through; `Run` is a sequence of
them, each possible where it is carried out. `Lists` says that a `ReadDir` shows a file system,
whatever the order of its listings.
-/

namespace AmbientFs

/-- A name that a directory can list. -/
def ValidName (name : String) : Prop := name ≠ "" ∧ '/' ∉ name.toList ∧ name ≠ "."

structure Fs where
  map : PathMap String FileType
  root : map [] = some .dir
  inDir : ∀ p name, map (p ++ [name]) ≠ none → map p = some .dir ∧ ValidName name
  finite : {p | map p ≠ none}.Finite

inductive FsOp
  | createFile (p : List String)
  | createDir (p : List String)
  | delete (p : List String)
  | rename (o n : List String)

namespace FsOp

/-- The paths an operation is about. -/
def paths : FsOp → List (List String)
  | createFile p => [p]
  | createDir p => [p]
  | delete p => [p]
  | rename o n => [o, n]

/-- What an operation does. Deleting takes everything below along, and so does renaming, which
also replaces what is at the new path. -/
def act : FsOp → PathMap String FileType → PathMap String FileType
  | createFile p, m => Function.update m p (some .file)
  | createDir p, m => Function.update m p (some .dir)
  | delete p, m => m.erase p
  | rename o n, m => fun q =>
    if n <+: q then m (o ++ q.drop n.length) else if o <+: q then none else m q

/-- What notify reports of an operation, with paths below the project. -/
def report : FsOp → NotifyEvent
  | createFile p => ⟨.create .file, [joinPath p]⟩
  | createDir p => ⟨.create .folder, [joinPath p]⟩
  | delete p => ⟨.remove .any, [joinPath p]⟩
  | rename o n => ⟨.modify .name, [joinPath o, joinPath n]⟩

/-- There is room for an entry at `p`: it has a name, and a directory to be in. -/
def HasPlace (fs : Fs) (p : List String) : Prop :=
  ∃ parent name, p = parent ++ [name] ∧ ValidName name ∧ fs.map parent = some .dir

/-- The operation is possible. What a rename replaces is not a directory, or an empty one that
a directory replaces. -/
def Valid (fs : Fs) : FsOp → Prop
  | createFile p => HasPlace fs p ∧ fs.map p = none
  | createDir p => HasPlace fs p ∧ fs.map p = none
  | delete p => p ≠ [] ∧ fs.map p ≠ none
  | rename o n => o ≠ [] ∧ fs.map o ≠ none ∧ HasPlace fs n ∧ ¬ o <+: n ∧
    (fs.map n = none ∨ (fs.map o ≠ some .dir ∧ fs.map n ≠ some .dir) ∨
      (fs.map o = some .dir ∧ fs.map n = some .dir ∧ ∀ name, fs.map (n ++ [name]) = none))

variable {fs : Fs} {p o n q : List String}

theorem HasPlace.ne_nil (h : HasPlace fs p) : p ≠ [] := by
  obtain ⟨parent, name, rfl, -⟩ := h
  simp

theorem act_root : ∀ {op : FsOp}, op.Valid fs → op.act fs.map [] = some .dir
  | createFile p, h => by simp [act, Function.update_of_ne h.1.ne_nil.symm, fs.root]
  | createDir p, h => by simp [act, Function.update_of_ne h.1.ne_nil.symm, fs.root]
  | delete p, h => by simp [act, PathMap.erase, h.1, fs.root]
  | rename o n, h => by simp [act, h.1, h.2.2.1.ne_nil, fs.root]

theorem update_inDir {type : FileType} (h : HasPlace fs q) (hq : fs.map q = none)
    {name : String} (hn : Function.update fs.map q (some type) (p ++ [name]) ≠ none) :
    Function.update fs.map q (some type) p = some .dir ∧ ValidName name := by
  obtain ⟨parent, name', rfl, hv, hp⟩ := h
  have hne : parent ≠ parent ++ [name'] := fun he => by simpa using congrArg List.length he
  by_cases he : p ++ [name] = parent ++ [name']
  · obtain ⟨rfl, rfl⟩ := List.append_singleton_inj.1 he
    rw [Function.update_of_ne hne]
    exact ⟨hp, hv⟩
  · rw [Function.update_of_ne he] at hn
    obtain ⟨hd, hv⟩ := fs.inDir p name hn
    refine ⟨?_, hv⟩
    rw [Function.update_of_ne (fun hpq => by rw [hpq, hq] at hd; cases hd)]
    exact hd

theorem act_inDir : ∀ {op : FsOp}, op.Valid fs → ∀ p name, op.act fs.map (p ++ [name]) ≠ none →
    op.act fs.map p = some .dir ∧ ValidName name
  | createFile q, h, p, name, hn => update_inDir h.1 h.2 hn
  | createDir q, h, p, name, hn => update_inDir h.1 h.2 hn
  | delete q, h, p, name, hn => by
    simp only [act, PathMap.erase] at hn ⊢
    split_ifs at hn with hq
    · exact absurd rfl hn
    · rw [if_neg fun hq' => hq (hq'.trans (List.prefix_append p [name]))]
      exact fs.inDir p name hn
  | rename o n, h, p, name, hn => by
    obtain ⟨-, -, ⟨parent, name', rfl, hv, hp⟩, hon, -⟩ := h
    simp only [act] at hn ⊢
    by_cases hnp : parent ++ [name'] <+: p
    · rw [if_pos (hnp.trans (List.prefix_append p [name])), List.drop_append_of_le_length
        hnp.length_le, ← List.append_assoc] at hn
      rw [if_pos hnp]
      exact fs.inDir _ name hn
    rw [if_neg hnp]
    by_cases he : parent ++ [name'] <+: p ++ [name]
    · rcases List.prefix_concat_iff.1 he with he | he
      · obtain ⟨rfl, rfl⟩ := List.append_singleton_inj.1 he
        rw [if_neg fun ho => hon (ho.trans (List.prefix_append parent [name']))]
        exact ⟨hp, hv⟩
      · exact absurd he hnp
    · rw [if_neg he] at hn
      split_ifs at hn with ho
      · exact absurd rfl hn
      · rw [if_neg fun ho' => ho (ho'.trans (List.prefix_append p [name]))]
        exact fs.inDir p name hn

theorem update_finite (type : FileType) :
    {p | Function.update fs.map q (some type) p ≠ none}.Finite := by
  refine (fs.finite.insert q).subset fun p hp => ?_
  by_cases h : p = q
  · exact .inl h
  · rw [Set.mem_ofPred_eq, Function.update_of_ne h] at hp
    exact .inr hp

theorem act_finite : ∀ op : FsOp, {p | op.act fs.map p ≠ none}.Finite
  | createFile p => update_finite .file
  | createDir p => update_finite .dir
  | delete q => fs.finite.subset fun p hp hn => hp (by simp [act, PathMap.erase, hn])
  | rename o n => by
    refine (fs.finite.union (fs.finite.image fun r => n ++ r.drop o.length)).subset fun q hq => ?_
    simp only [act, Set.mem_ofPred_eq] at hq
    split_ifs at hq with hn ho
    · obtain ⟨r, rfl⟩ := hn
      exact .inr ⟨o ++ r, by simpa using hq, by simp⟩
    · exact absurd rfl hq
    · exact .inl hq

end FsOp

namespace Fs

/-- The file system after an operation. -/
def perform (fs : Fs) (op : FsOp) (h : op.Valid fs) : Fs where
  map := op.act fs.map
  root := FsOp.act_root h
  inDir := FsOp.act_inDir h
  finite := FsOp.act_finite op

/-- A sequence of operations, each possible where it is carried out. -/
inductive Run (fs : Fs) : List FsOp → Fs → Prop
  | nil : Run fs [] fs
  | snoc {ops : List FsOp} {fs' : Fs} {op : FsOp} : Run fs ops fs' → (h : op.Valid fs') →
    Run fs (ops ++ [op]) (fs'.perform op h)

/-- The entry at `p` is one the tree shows: not ignored, and a file or a directory. -/
def Visible (fs : Fs) (filter : PathFilter) (p : List String) : Prop :=
  p ≠ [] ∧ filter.shouldIgnore (joinPath p) = false ∧
    (fs.map p = some .file ∨ fs.map p = some .dir)

/-- The visible entries are within the caps on the walk's depth and number of entries. -/
def WithinCaps (fs : Fs) (filter : PathFilter) : Prop :=
  (∀ p, fs.Visible filter p → p.length ≤ ProjectTree.maxDepth) ∧
    {p | fs.Visible filter p}.encard ≤ ProjectTree.maxEntries

/-- `readDir` lists each directory's entries, once each, in some order. -/
def Lists (fs : Fs) (readDir : ReadDir) : Prop :=
  ∀ p, fs.map p = some .dir → ∃ names : List String, names.Nodup ∧
    (∀ name, name ∈ names ↔ fs.map (p ++ [name]) ≠ none) ∧
    readDir (joinPath p) = some (names.map fun name => some ⟨some name, fs.map (p ++ [name])⟩)

end Fs

end AmbientFs
