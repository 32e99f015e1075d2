import AmbientFs.Proofs.PatchStream
import AmbientFs.Proofs.Scan

/-!
# The followed tree and a rescan

A tree that was scanned once and follows the watcher's events shows the same nodes as a new scan
as long as the operations create files and delete: a directory is added as a file, and what a
rename moves is left where it was. It also takes the caps not to be exceeded, since only a scan
heeds them.
-/

namespace AmbientFs

open TreeNode

namespace FsOp

/-- An operation the followed tree keeps up with: all but the creation of a directory and a
rename that moves or replaces a node. -/
def Tracked (fs : Fs) : FsOp → Prop
  | createFile _ => True
  | createDir _ => False
  | delete _ => True
  | rename o n => fs.map o = some .symlink ∧ (fs.map n = none ∨ fs.map n = some .symlink)

end FsOp

theorem Fs.exists_lists (fs : Fs) : ∃ readDir, fs.Lists readDir := by
  have hfin : ∀ p, {name | fs.map (p ++ [name]) ≠ none}.Finite := fun p =>
    fs.finite.preimage fun a _ b _ hab => by simpa using hab
  let names p := (hfin p).toFinset.toList
  refine ⟨fun s => some ((names (splitPath s)).map fun name =>
    some ⟨some name, fs.map (splitPath s ++ [name])⟩), fun p hp => ?_⟩
  refine ⟨names p, Finset.nodup_toList _, by simp [names], ?_⟩
  simp only [splitPath_joinPath (fs.validPath (p := p) (by simp [hp])).components]

namespace ProjectTree

section Agreement

variable [Lowercase] {fs : Fs} {filter : PathFilter} {readDir : ReadDir} {t : ProjectTree}

/-- The tree's nodes are those a scan of the file system finds. -/
def Agrees (filter : PathFilter) (fs : Fs) (t : ProjectTree) : Prop :=
  ∀ readDir dirName, fs.Lists readDir →
    ∀ x, x ∈ t.root.nodes ↔ x ∈ (fromDirectory readDir filter dirName).root.nodes

/-- The tree shows exactly the visible entries. -/
structure Shows (filter : PathFilter) (fs : Fs) (root : TreeNode) : Prop where
  reachable : root.Reachable
  entries : ∀ p ≠ [], ∀ d, root.entries p = some d ↔ fs.Visible filter p ∧ d = nodeAt fs p

/-- Within the caps a scan finds all visible entries. -/
theorem shows_fromDirectory (hl : fs.Lists readDir) (hcaps : fs.WithinCaps filter)
    (dirName : Option String) : Shows filter fs (fromDirectory readDir filter dirName).root := by
  obtain ⟨seen, hs, -, hc⟩ := fromDirectory_scanned filter hl dirName
  have hall : ∀ p, fs.Visible filter p → p ∈ seen := by
    intro p hp
    rcases hc with hc | ⟨hlen, q, hq, -, hqn⟩
    · exact hc p hp (hcaps.1 p hp)
    · have hlt := length_lt_encard (P := {p | fs.Visible filter p}) hs.nodup hs.visible hq hqn
      exact absurd (hlen ▸ hcaps.2) (not_le.2 hlt)
  rw [fromDirectory_root]
  refine ⟨hs.reachable, fun p hp d => ?_⟩
  rw [hs.entries p hp]
  constructor
  · intro h
    split_ifs at h with hps
    exact ⟨hs.visible p hps, (Option.some.inj h).symm⟩
  · rintro ⟨hv, rfl⟩
    rw [if_pos (hall p hv)]

theorem Shows.mem_nodes (h : Shows filter fs t.root) {path : String} {isDir : Bool} :
    (path, isDir) ∈ t.root.nodes ↔
      ∃ p, fs.Visible filter p ∧ (isDir, path) = nodeAt fs p := by
  rw [h.reachable.ordered.mem_nodes]
  constructor
  · rintro ⟨p, hp, he⟩
    exact ⟨p, (h.entries p hp _).1 he⟩
  · rintro ⟨p, hv, he⟩
    exact ⟨p, hv.1, (h.entries p hv.1 _).2 ⟨hv, he⟩⟩

/-- A node of a tree that agrees with a scan is a visible entry of that kind. -/
theorem Agrees.visible (h : Agrees filter fs t) (ht : t.root.Reachable) {p : List String}
    {isDir : Bool} (hvp : ValidPath p) (hp : p ≠ [])
    (he : t.root.entries p = some (isDir, joinPath p)) :
    fs.Visible filter p ∧ isDir = decide (fs.map p = some .dir) := by
  obtain ⟨readDir, hl⟩ := fs.exists_lists
  obtain ⟨seen, hs, -, -⟩ := fromDirectory_scanned filter hl none
  have hmem := (h readDir none hl (joinPath p, isDir)).1 (ht.ordered.mem_nodes.2 ⟨p, hp, he⟩)
  rw [fromDirectory_root, hs.reachable.ordered.mem_nodes] at hmem
  obtain ⟨q, hq, he⟩ := hmem
  rw [hs.entries q hq] at he
  split_ifs at he with hqs
  have hv := hs.visible q hqs
  obtain ⟨hk, hpath⟩ := Prod.mk.inj (Option.some.inj he)
  have hqp := joinPath_inj (fs.validPath hv.ne_none).components hvp.components hpath
  subst hqp
  exact ⟨hv, hk.symm⟩

/-- A tree that shows the visible entries agrees with a scan exactly within the caps. -/
theorem Shows.agrees_iff_withinCaps (h : Shows filter fs t.root) :
    Agrees filter fs t ↔ fs.WithinCaps filter := by
  constructor
  · intro ha
    obtain ⟨readDir, hl⟩ := fs.exists_lists
    obtain ⟨seen, hs, hdepth, -⟩ := fromDirectory_scanned filter hl none
    have hall : ∀ p, fs.Visible filter p → p ∈ seen := by
      intro p hv
      have hmem := (ha readDir none hl (joinPath p, decide (fs.map p = some .dir))).1
        (h.mem_nodes.2 ⟨p, hv, rfl⟩)
      rw [fromDirectory_root, hs.reachable.ordered.mem_nodes] at hmem
      obtain ⟨q, hq, he⟩ := hmem
      rw [hs.entries q hq] at he
      split_ifs at he with hqs
      have hpath := (Prod.mk.inj (Option.some.inj he)).2
      exact joinPath_inj (fs.validPath (hs.visible q hqs).ne_none).components
        (fs.validPath hv.ne_none).components hpath ▸ hqs
    refine ⟨fun p hp => hdepth p (hall p hp), ?_⟩
    have hsub : {p | fs.Visible filter p} ⊆ (seen.toFinset : Set (List String)) := by
      intro p hp
      simpa using hall p hp
    refine (Set.encard_le_encard hsub).trans ?_
    rw [Set.encard_coe_eq_coe_finsetCard, List.toFinset_card_of_nodup hs.nodup]
    exact Nat.cast_le.2 hs.le
  · intro hcaps readDir dirName hl x
    obtain ⟨path, isDir⟩ := x
    rw [h.mem_nodes, (shows_fromDirectory hl hcaps dirName).mem_nodes]

section Step

variable {w : FsWatcher} {s : Surroundings} {op : FsOp}

/-- The tree after an operation, as the watcher's events for it leave it. -/
def watch (w : FsWatcher) (s : Surroundings) (t : ProjectTree) (op : FsOp) : ProjectTree :=
  (t.applyEvents (w.handleEvents s (some op.report))).1

theorem watch_createFile {p : List String} (hi : w.pathFilter.shouldIgnore (joinPath p) = false) :
    (t.watch w s (.createFile p)).root = (addNode t.root (joinPath p) false).1 := by
  obtain ⟨e, he, ht, hp, -⟩ := w.handlePath_of_not_ignored s hi (.create .file) rfl
  have hpatch : e.treePatch = some (.add (joinPath p) false) := by
    rw [FileEvent.treePatch, ht, hp]
  simp only [watch, FsWatcher.handleEvents, FsOp.report, List.filterMap_cons, he,
    List.filterMap_nil, applyEvents_cons, applyEvents_nil, applyEvent_of_some t hpatch]
  rfl

theorem watch_createDir {p : List String} (hi : w.pathFilter.shouldIgnore (joinPath p) = false) :
    (t.watch w s (.createDir p)).root = (addNode t.root (joinPath p) false).1 :=
  watch_createFile (p := p) hi

theorem watch_delete {p : List String} (hi : w.pathFilter.shouldIgnore (joinPath p) = false) :
    (t.watch w s (.delete p)).root = (removeNode t.root (joinPath p)).1 := by
  obtain ⟨e, he, ht, hp, -⟩ := w.handlePath_of_not_ignored s hi (.remove .any) rfl
  have hpatch : e.treePatch = some (.remove (joinPath p)) := by
    rw [FileEvent.treePatch, ht, hp]
  simp only [watch, FsWatcher.handleEvents, FsOp.report, List.filterMap_cons, he,
    List.filterMap_nil, applyEvents_cons, applyEvents_nil, applyEvent_of_some t hpatch]
  rfl

/-- What notify calls a modification leaves the tree, a rename included. -/
theorem watch_rename {o n : List String} (ho : w.pathFilter.shouldIgnore (joinPath o) = false)
    (hn : w.pathFilter.shouldIgnore (joinPath n) = false) : t.watch w s (.rename o n) = t := by
  obtain ⟨e, he, ht, -⟩ := w.handlePath_of_not_ignored s ho (.modify .name) rfl
  obtain ⟨e', he', ht', -⟩ := w.handlePath_of_not_ignored s hn (.modify .name) rfl
  have hpatch : e.treePatch = none := by rw [FileEvent.treePatch, ht]
  have hpatch' : e'.treePatch = none := by rw [FileEvent.treePatch, ht']
  simp only [watch, FsWatcher.handleEvents, FsOp.report, List.filterMap_cons, he, he',
    List.filterMap_nil, applyEvents_cons, applyEvents_nil, applyEvent_of_none t hpatch,
    applyEvent_of_none t hpatch']

theorem Shows.eq_none (h : Shows filter fs t.root) {p : List String} (hp : p ≠ [])
    (hv : ¬ fs.Visible filter p) : t.root.entries p = none := by
  rcases he : t.root.entries p with _ | d
  · rfl
  · exact absurd ((h.entries p hp d).1 he).1 hv

/-- Adding a node where there is room for an entry adds nothing else. -/
theorem Shows.entries_addNode (h : Shows filter fs t.root) {p : List String}
    (hp : FsOp.HasPlace fs p) (hnone : fs.map p = none)
    (hi : filter.shouldIgnore (joinPath p) = false) (isDir : Bool) (q : List String) :
    (addNode t.root (joinPath p) isDir).1.entries q =
      if q = p then some (isDir, joinPath p) else t.root.entries q := by
  obtain ⟨parent, name, rfl, hname, hd⟩ := hp
  have hvp : ValidPath (parent ++ [name]) :=
    validPath_append.2 ⟨fs.validPath (by simp [hd]), by simpa [ValidPath] using hname⟩
  have hparent : t.root.entries parent ≠ none := by
    by_cases hpn : parent = []
    · simp [hpn]
    · have hvis : fs.Visible filter parent :=
        ⟨hpn, shouldIgnore_above hvp (List.prefix_append parent [name]) hi, .inr hd⟩
      rw [(h.entries parent hpn _).2 ⟨hvis, rfl⟩]
      simp
  exact entries_addNode_child hvp hparent
    (h.eq_none (by simp) fun hv => hv.ne_none hnone)

omit [Lowercase] in
/-- A rename that is tracked moves what no tree shows to where no tree shows anything. -/
theorem visible_perform_rename {o n : List String} (hv : (FsOp.rename o n).Valid fs)
    (ht : (FsOp.rename o n).Tracked fs) {q : List String} :
    (fs.perform (.rename o n) hv).map q = fs.map q ∨
      (∀ type, (fs.perform (.rename o n) hv).map q = some type → type = .symlink) ∧
        ∀ type, fs.map q = some type → type = .symlink := by
  obtain ⟨hos, hns⟩ := ht
  have hbelow : ∀ {p q : List String}, fs.map p ≠ some .dir → p <+: q → p ≠ q → fs.map q = none :=
    fun hd hpq hne => of_not_not fun hq => hd (fs.dir_of_below hq hpq hne)
  have hnd : fs.map n ≠ some .dir := by rcases hns with hns | hns <;> simp [hns]
  simp only [Fs.perform, FsOp.act]
  by_cases hnq : n <+: q
  · rw [if_pos hnq]
    obtain ⟨r, rfl⟩ := hnq
    rw [List.drop_left]
    by_cases hr : r = []
    · subst hr
      simp only [List.append_nil, hos]
      right
      refine ⟨fun type h => (Option.some.inj h).symm, fun type h => ?_⟩
      rcases hns with hns | hns <;> rw [hns] at h
      · cases h
      · exact (Option.some.inj h).symm
    · left
      rw [hbelow (p := o) (by simp [hos]) (List.prefix_append o r) (by simpa using hr),
        hbelow hnd (List.prefix_append n r) (by simpa using hr)]
  · rw [if_neg hnq]
    split_ifs with hoq
    · right
      refine ⟨fun type h => ?_, fun type h => ?_⟩
      · cases h
      · by_cases heq : o = q
        · rw [← heq, hos] at h
          exact (Option.some.inj h).symm
        · rw [hbelow (p := o) (by simp [hos]) hoq heq] at h
          cases h
    · exact .inl rfl

omit [Lowercase] in
theorem visible_congr {fs' : Fs} {q : List String} (h : fs.map q = fs'.map q) (d : Bool × String) :
    fs.Visible filter q ∧ d = nodeAt fs q ↔ fs'.Visible filter q ∧ d = nodeAt fs' q := by
  simp only [Fs.Visible, nodeAt, h]

/-- A tracked operation keeps the tree showing the visible entries. -/
theorem Shows.watch (h : Shows w.pathFilter fs t.root) (hv : op.Valid fs)
    (hi : ∀ p ∈ op.paths, w.pathFilter.shouldIgnore (joinPath p) = false)
    (ht : op.Tracked fs) : Shows w.pathFilter (fs.perform op hv) (t.watch w s op).root := by
  cases op with
  | createFile p =>
    have hip := hi p List.mem_cons_self
    rw [watch_createFile hip]
    refine ⟨.add _ _ h.reachable, fun q hq d => ?_⟩
    rw [h.entries_addNode hv.1 hv.2 hip]
    by_cases hqp : q = p
    · subst hqp
      have hfile : (fs.perform (.createFile q) hv).map q = some .file := Function.update_self ..
      simp [Fs.Visible, nodeAt, hfile, hq, hip, eq_comm]
    · rw [if_neg hqp, h.entries q hq d]
      exact visible_congr (Function.update_of_ne hqp _ _).symm d
  | createDir p => exact ht.elim
  | delete p =>
    rw [watch_delete (hi p List.mem_cons_self)]
    refine ⟨.remove _ h.reachable, fun q hq d => ?_⟩
    have hsplit := splitPath_joinPath (fs.validPath hv.2).components
    rw [entries_removeNode _ _ (by rw [hsplit]; exact hv.1), hsplit]
    unfold PathMap.erase
    split_ifs with hpq
    · have hnone : (fs.perform (.delete p) hv).map q = none := if_pos hpq
      simp [Fs.Visible, hnone]
    · rw [h.entries q hq d]
      exact visible_congr (if_neg hpq).symm d
  | rename o n =>
    rw [watch_rename (hi o List.mem_cons_self) (hi n (by simp [FsOp.paths]))]
    refine ⟨h.reachable, fun q hq d => ?_⟩
    rw [h.entries q hq d]
    rcases visible_perform_rename hv ht (q := q) with heq | ⟨hl, hr⟩
    · exact visible_congr heq.symm d
    · constructor
      · rintro ⟨hvis, -⟩
        rcases hvis.2.2 with hm | hm <;> cases hr _ hm
      · rintro ⟨hvis, -⟩
        rcases hvis.2.2 with hm | hm <;> cases hl _ hm

/-- After an operation that is not tracked the tree disagrees with a scan. -/
theorem Shows.not_agrees (h : Shows w.pathFilter fs t.root) (hv : op.Valid fs)
    (hi : ∀ p ∈ op.paths, w.pathFilter.shouldIgnore (joinPath p) = false)
    (ht : ¬ op.Tracked fs) : ¬ Agrees w.pathFilter (fs.perform op hv) (t.watch w s op) := by
  intro ha
  cases op with
  | createFile p => exact ht trivial
  | createDir p =>
    have hip := hi p List.mem_cons_self
    have hdir : (fs.perform (.createDir p) hv).map p = some .dir := Function.update_self ..
    have hvp := (fs.perform (.createDir p) hv).validPath (p := p) (by simp [hdir])
    have hreach : (t.watch w s (.createDir p)).root.Reachable := by
      rw [watch_createDir hip]
      exact .add _ _ h.reachable
    have hnode : (t.watch w s (.createDir p)).root.entries p = some (false, joinPath p) := by
      rw [watch_createDir hip, h.entries_addNode hv.1 hv.2 hip, if_pos rfl]
    have := (ha.visible hreach hvp hv.1.ne_nil hnode).2
    simp [hdir] at this
  | delete p => exact ht trivial
  | rename o n =>
    rw [watch_rename (hi o List.mem_cons_self) (hi n (by simp [FsOp.paths]))] at ha
    have hstill : ∀ p, fs.Visible w.pathFilter p →
        (fs.perform (.rename o n) hv).Visible w.pathFilter p := fun p hp =>
      (ha.visible h.reachable (fs.validPath hp.ne_none) hp.1 ((h.entries p hp.1 _).2 ⟨hp, rfl⟩)).1
    obtain ⟨ho, hos, hn, hon, hrep⟩ := id hv
    by_cases hol : fs.map o = some .symlink
    · -- the new path was a file's, and is now the link's
      have hnfile : fs.map n = some .file := by
        rcases hfn : fs.map n with _ | _ | _ | _
        · exact absurd ⟨hol, .inl hfn⟩ ht
        · rfl
        · simp [hfn, hol] at hrep
        · exact absurd ⟨hol, .inr hfn⟩ ht
      have hmoved : (fs.perform (.rename o n) hv).map n = some .symlink := by
        simp [Fs.perform, FsOp.act, hol]
      rcases (hstill n ⟨hn.ne_nil, hi n (by simp [FsOp.paths]), .inl hnfile⟩).2.2 with hm | hm
      · rw [hmoved] at hm
        cases hm
      · rw [hmoved] at hm
        cases hm
    · -- the old path showed an entry, and is now empty
      have hno : ¬ n <+: o := by
        intro hno
        have hnd := fs.dir_of_below hos hno fun he => hon (he ▸ List.prefix_rfl)
        rcases hrep with hrep | hrep | ⟨-, -, hempty⟩
        · simp [hnd] at hrep
        · exact hrep.2 hnd
        obtain ⟨r, rfl⟩ := hno
        rcases r with _ | ⟨name, r⟩
        · exact hon (by simp)
        have hpre : n ++ [name] <+: n ++ name :: r := ⟨r, by simp⟩
        by_cases he : n ++ [name] = n ++ name :: r
        · exact hos (he ▸ hempty name)
        · have := fs.dir_of_below hos hpre he
          rw [hempty name] at this
          cases this
      have hgone : (fs.perform (.rename o n) hv).map o = none := by
        simp [Fs.perform, FsOp.act, hno]
      refine (hstill o ⟨ho, hi o List.mem_cons_self, ?_⟩).ne_none hgone
      rcases hfo : fs.map o with _ | _ | _ | _
      · exact absurd hfo hos
      · exact .inl rfl
      · exact .inr rfl
      · exact absurd hfo hol

end Step

section Run

variable {w : FsWatcher}

/-- Operations on a file system under a watched project, with the tree that follows them. -/
inductive Watched (w : FsWatcher) (fs : Fs) (t : ProjectTree) :
    List FsOp → Fs → ProjectTree → Prop
  | nil : Watched w fs t [] fs t
  | snoc {ops : List FsOp} {fs' : Fs} {t' : ProjectTree} {op : FsOp} (s : Surroundings)
    (h : op.Valid fs') (hi : ∀ p ∈ op.paths, w.pathFilter.shouldIgnore (joinPath p) = false) :
    Watched w fs t ops fs' t' → Watched w fs t (ops ++ [op]) (fs'.perform op h) (t'.watch w s op)

variable {ops : List FsOp} {fs' : Fs} {t' : ProjectTree}

theorem Watched.not_ignored (h : Watched w fs t ops fs' t') : ∀ op ∈ ops, ∀ p ∈ op.paths,
    w.pathFilter.shouldIgnore (joinPath p) = false := by
  induction h with
  | nil => exact fun _ hop => absurd hop List.not_mem_nil
  | snoc s hv hi h ih =>
    intro op hop
    rcases List.mem_append.1 hop with hop | hop
    · exact ih op hop
    · exact List.mem_singleton.1 hop ▸ hi

theorem Watched.shows (h : Watched w fs t ops fs' t') (hs : Shows w.pathFilter fs t.root)
    (ht : ∀ pre op fs₁ t₁, pre ++ [op] <+: ops → Watched w fs t pre fs₁ t₁ → op.Valid fs₁ →
      op.Tracked fs₁) : Shows w.pathFilter fs' t'.root := by
  induction h with
  | nil => exact hs
  | snoc s hv hi h ih =>
    refine (ih fun pre op fs₁ t₁ hpre => ?_).watch hv hi (ht _ _ _ _ List.prefix_rfl h hv)
    exact ht pre op fs₁ t₁ (hpre.trans (List.prefix_append _ _))

theorem Watched.shows_of_agrees (h : Watched w fs t ops fs' t')
    (hs : Shows w.pathFilter fs t.root)
    (ha : ∀ pre fs₁ t₁, pre <+: ops → Watched w fs t pre fs₁ t₁ → Agrees w.pathFilter fs₁ t₁) :
    Shows w.pathFilter fs' t'.root := by
  induction h with
  | nil => exact hs
  | snoc s hv hi h ih =>
    have hshow := ih fun pre fs₁ t₁ hpre => ha pre fs₁ t₁ (hpre.trans (List.prefix_append _ _))
    refine hshow.watch hv hi (of_not_not fun ht => ?_)
    exact hshow.not_agrees hv hi ht (ha _ _ _ List.prefix_rfl (h.snoc s hv hi))

/-- In every run from a scan the followed tree agrees with a new scan after every operation,
exactly if every operation is tracked and stays within the caps. -/
theorem agrees_iff (dirName : Option String) (hl : fs.Lists readDir)
    (hcaps : fs.WithinCaps w.pathFilter)
    (hrun : Watched w fs (fromDirectory readDir w.pathFilter dirName) ops fs' t') :
    (∀ pre fs₁ t₁, pre <+: ops →
        Watched w fs (fromDirectory readDir w.pathFilter dirName) pre fs₁ t₁ →
        Agrees w.pathFilter fs₁ t₁) ↔
      ∀ pre op fs₁ t₁, pre ++ [op] <+: ops →
        Watched w fs (fromDirectory readDir w.pathFilter dirName) pre fs₁ t₁ →
        ∀ hv : op.Valid fs₁, op.Tracked fs₁ ∧ (fs₁.perform op hv).WithinCaps w.pathFilter := by
  have hs := shows_fromDirectory hl hcaps dirName
  constructor
  · intro ha pre op fs₁ t₁ hpre hw hv
    have hi : ∀ p ∈ op.paths, w.pathFilter.shouldIgnore (joinPath p) = false :=
      hrun.not_ignored op (hpre.subset (by simp))
    have hstep := hw.snoc ⟨fun _ => .epoch, fun _ _ => none, fun _ => none⟩ hv hi
    have hshow := hw.shows_of_agrees hs fun pre' fs₂ t₂ hpre' =>
      ha pre' fs₂ t₂ (hpre'.trans ((List.prefix_append pre [op]).trans hpre))
    have hagree := ha _ _ _ hpre hstep
    have ht : op.Tracked fs₁ := of_not_not fun ht => hshow.not_agrees hv hi ht hagree
    exact ⟨ht, (hshow.watch hv hi ht).agrees_iff_withinCaps.1 hagree⟩
  · intro ht pre fs₁ t₁ hpre hw
    have hshow := hw.shows hs fun pre' op fs₂ t₂ hpre' hw' hv =>
      (ht pre' op fs₂ t₂ (hpre'.trans hpre) hw' hv).1
    refine hshow.agrees_iff_withinCaps.2 ?_
    cases hw with
    | nil => exact hcaps
    | snoc s hv hi hw => exact (ht _ _ _ _ hpre hw hv).2

end Run

end Agreement

section Samples

attribute [local instance] asciiLowercase

/-- A project directory with nothing in it. -/
def emptyFs : Fs where
  map p := if p = [] then some .dir else none
  root := rfl
  inDir p name h := absurd (if_neg (by simp)) h
  finite := (Set.finite_singleton []).subset fun p hp => of_not_not fun hne => hp (if_neg hne)

theorem lists_emptyFs : emptyFs.Lists fun _ => some [] := by
  intro p hp
  have hnil : p = [] := of_not_not fun hne => by simp [emptyFs, hne] at hp
  subst hnil
  exact ⟨[], .nil, by simp [emptyFs], rfl⟩

theorem withinCaps_emptyFs (filter : PathFilter) : emptyFs.WithinCaps filter := by
  have hno : ∀ p, ¬ emptyFs.Visible filter p := fun p hp => hp.ne_none (if_neg hp.1)
  refine ⟨fun p hp => absurd hp (hno p), ?_⟩
  simp [hno]

def watcher : FsWatcher := ⟨.default, "p", "m", false, none, false⟩

def surroundings : Surroundings := ⟨fun _ => .epoch, fun _ _ => none, fun _ => none⟩

theorem valid_createDir : (FsOp.createDir ["d"]).Valid emptyFs :=
  ⟨⟨[], "d", rfl, by unfold ValidName; decide, rfl⟩, rfl⟩

def listingOfD : ReadDir := fun s => some (if s = "" then [some ⟨some "d", some .dir⟩] else [])

/-- After the creation of a directory `d` the followed tree has a file `d`. -/
theorem followed_createDir :
    emptyFs.Lists (fun _ => some []) ∧
    (emptyFs.perform (.createDir ["d"]) valid_createDir).Lists listingOfD ∧
    (watch watcher surroundings (fromDirectory (fun _ => some []) .default none)
      (.createDir ["d"])).root.nodes = [("d", false)] ∧
    (fromDirectory listingOfD .default none).root.nodes = [("d", true)] := by
  have hmap : ∀ p, (emptyFs.perform (.createDir ["d"]) valid_createDir).map p =
      if p = [] ∨ p = ["d"] then some .dir else none := by
    intro p
    by_cases hd : p = ["d"]
    · simp [Fs.perform, FsOp.act, hd]
    · simp [Fs.perform, FsOp.act, hd, emptyFs]
  refine ⟨lists_emptyFs, fun p hp => ?_, by decide, by decide⟩
  have hp : p = [] ∨ p = ["d"] := of_not_not fun hn => by
    rw [hmap, if_neg hn] at hp
    cases hp
  simp only [hmap]
  rcases hp with rfl | rfl
  · exact ⟨["d"], by simp, by simp, rfl⟩
  · exact ⟨[], .nil, by simp, rfl⟩

/-- The run with that one operation is one in which the trees come to disagree. -/
theorem agrees_iff_createDir :
    ¬ ∀ pre fs₁ t₁, pre <+: [FsOp.createDir ["d"]] →
      Watched watcher emptyFs (fromDirectory (fun _ => some []) .default none) pre fs₁ t₁ →
        Agrees .default fs₁ t₁ := by
  have hi : ∀ p ∈ (FsOp.createDir ["d"]).paths,
      watcher.pathFilter.shouldIgnore (joinPath p) = false := by decide
  exact fun ha => ((agrees_iff none lists_emptyFs (withinCaps_emptyFs _)
    (Watched.nil.snoc surroundings valid_createDir hi)).1 ha [] _ _ _ List.prefix_rfl .nil
      valid_createDir).1

end Samples

end ProjectTree

end AmbientFs
