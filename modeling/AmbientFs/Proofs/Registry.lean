import AmbientFs.Proofs.OsPath
import AmbientFs.Registry

/-!
# What the registry's operations do

Each request either changes nothing or adds or removes one project. A project's id is the name of
its directory, in the maps, in the table and in the writes that are still to be carried out.
-/

namespace AmbientFs

theorem find?_eq_some_of_nodup {α : Type*} {l : List (String × α)} (h : (l.map Prod.fst).Nodup)
    {id : String} {a : α} : (l.find? (·.1 = id)).map Prod.snd = some a ↔ (id, a) ∈ l := by
  rw [Option.map_eq_some_iff]
  constructor
  · rintro ⟨x, hx, rfl⟩
    have hid : x.1 = id := of_decide_eq_true (List.find?_some hx :)
    rw [← hid]
    exact List.mem_of_find?_eq_some hx
  · intro ha
    rcases hf : l.find? (·.1 = id) with _ | x
    · have := List.find?_eq_none.1 hf _ ha
      simp at this
    · have hid : x.1 = id := of_decide_eq_true (List.find?_some hf :)
      have hxa := List.inj_on_of_nodup_map h (List.mem_of_find?_eq_some hf) ha hid
      exact ⟨x, hf, by rw [hxa]⟩

/-! ## The table -/

namespace ProjectsTable

variable {t t' : ProjectsTable} {projectId id : String} {path : PathBuf} {now : DateTime}

/-- The text of a project's path. -/
def text (t : ProjectsTable) (projectId : String) : Option String :=
  (t.rows.find? (·.projectId = projectId)).map (·.path)

theorem getProjectPath_eq (t : ProjectsTable) (id : String) :
    t.getProjectPath id = (t.text id).map PathBuf.ofString := by
  unfold getProjectPath text
  rw [Option.map_map]
  rfl

theorem text_eq_some {s : String} :
    t.text id = some s ↔ ∃ r ∈ t.rows, r.projectId = id ∧ r.path = s := by
  unfold text
  rw [Option.map_eq_some_iff]
  constructor
  · rintro ⟨r, hr, rfl⟩
    exact ⟨r, List.mem_of_find?_eq_some hr, of_decide_eq_true (List.find?_some hr :), rfl⟩
  · rintro ⟨r, hr, hid, rfl⟩
    refine ⟨r, ?_, rfl⟩
    rcases hf : t.rows.find? (·.projectId = id) with _ | r'
    · have := List.find?_eq_none.1 hf r hr
      simp [hid] at this
    · have hid' : r'.projectId = id := of_decide_eq_true (List.find?_some hf :)
      have hrr := List.inj_on_of_nodup_map t.nodup hr (List.mem_of_find?_eq_some hf)
        (hid.trans hid'.symm)
      rw [hf, hrr]

theorem text_eq_none : t.text id = none ↔ id ∉ t.rows.map (·.projectId) := by
  rw [Option.eq_none_iff_forall_ne_some]
  constructor
  · intro h hmem
    obtain ⟨r, hr, hid⟩ := List.mem_map.1 hmem
    exact h r.path (text_eq_some.2 ⟨r, hr, hid, rfl⟩)
  · intro h s hs
    obtain ⟨r, hr, hid, -⟩ := text_eq_some.1 hs
    exact h (List.mem_map.2 ⟨r, hr, hid⟩)

theorem text_removeProject (t : ProjectsTable) (projectId id : String) :
    (t.removeProject projectId).text id = if id = projectId then none else t.text id := by
  split_ifs with hid
  · refine text_eq_none.2 fun hmem => ?_
    obtain ⟨r, hr, hrid⟩ := List.mem_map.1 hmem
    exact of_decide_eq_true (List.mem_filter.1 hr).2 (hrid.trans hid)
  · refine Option.ext fun s => ?_
    rw [text_eq_some, text_eq_some]
    constructor
    · rintro ⟨r, hr, hrid, hs⟩
      exact ⟨r, List.mem_of_mem_filter hr, hrid, hs⟩
    · rintro ⟨r, hr, rfl, hs⟩
      exact ⟨r, List.mem_filter.2 ⟨hr, decide_eq_true hid⟩, rfl, hs⟩

theorem addProject_eq_none : t.addProject projectId path now = none ↔ path.toStr = none := by
  unfold addProject
  rcases path.toStr with _ | s
  · exact iff_of_true rfl rfl
  · refine iff_of_false ?_ (by simp)
    dsimp only
    split_ifs <;> simp

/-- A project that is there is left as it is. -/
theorem text_addProject {s : String} (hs : path.toStr = some s)
    (h : t.addProject projectId path now = some t') (id : String) :
    t'.text id = if id = projectId then (t.text id).or (some s) else t.text id := by
  unfold addProject at h
  rw [hs] at h
  dsimp only at h
  split_ifs at h with hmem
  · cases h
    split_ifs with hid
    · rw [hid]
      rcases ht : t.text projectId with _ | s'
      · exact absurd hmem (text_eq_none.1 ht)
      · rfl
    · rfl
  · cases h
    have hrows : ∀ s', (∃ r ∈ t.rows ++ [⟨projectId, s, now.toRfc3339⟩], r.projectId = id ∧
        r.path = s') ↔ t.text id = some s' ∨ (projectId = id ∧ s = s') := by
      intro s'
      rw [text_eq_some]
      simp only [List.mem_append, List.mem_singleton, or_and_right, exists_or, exists_eq_left]
    refine Option.ext fun s' => ?_
    rw [text_eq_some, hrows]
    split_ifs with hid
    · rw [hid, text_eq_none.2 hmem]
      simp
    · simp [Ne.symm hid]

theorem getProjectPath_eq_some_of_removeProject {p : PathBuf}
    (h : (t.removeProject projectId).getProjectPath id = some p) :
    t.getProjectPath id = some p := by
  rw [getProjectPath_eq, text_removeProject] at h
  split_ifs at h
  · cases h
  · rw [getProjectPath_eq, h]

theorem getProjectPath_eq_some_of_addProject {p : PathBuf}
    (ht : t.addProject projectId path now = some t') (h : t'.getProjectPath id = some p) :
    t.getProjectPath id = some p ∨ id = projectId ∧ p = path := by
  rcases hs : path.toStr with _ | s
  · rw [addProject_eq_none.2 hs] at ht
    cases ht
  rw [getProjectPath_eq, text_addProject hs ht] at h
  rw [getProjectPath_eq]
  split_ifs at h with hid
  · rcases hold : t.text id with _ | s'
    · rw [hold] at h
      cases h
      exact .inr ⟨hid, (PathBuf.toStr_eq_some.1 hs).symm⟩
    · rw [hold] at h
      exact .inl h
  · exact .inl h

theorem mem_listProjects {p : PathBuf} :
    (id, p) ∈ t.listProjects ↔ t.getProjectPath id = some p := by
  rw [getProjectPath_eq, Option.map_eq_some_iff]
  unfold listProjects
  simp only [List.mem_map, List.mem_insertionSort, Prod.mk.injEq, text_eq_some]
  constructor
  · rintro ⟨r, hr, hid, hp⟩
    exact ⟨r.path, ⟨r, hr, hid, rfl⟩, hp⟩
  · rintro ⟨s, ⟨r, hr, hid, rfl⟩, hp⟩
    exact ⟨r, hr, hid, hp⟩

theorem nodup_listProjects (t : ProjectsTable) : (t.listProjects.map Prod.fst).Nodup := by
  unfold listProjects
  rw [List.map_map]
  exact ((List.perm_insertionSort (fun a b : ProjectRow => a.createdAt ≤ b.createdAt)
    t.rows).map (·.projectId)).nodup_iff.2 t.nodup

end ProjectsTable

/-! ## Watchers -/

namespace Watching

variable {w w' : Watching} {path : PathBuf} {pathExists : Bool} {notifyError : Option String}

theorem watch_eq_ok : w.watch path pathExists notifyError = .ok w' ↔
    path.isAbsolute = true ∧ pathExists = true ∧ ¬ Contains w.watched path ∧
      (w.notify.isSome → notifyError = none) ∧
      w' = { w with notify := w.notify.map (· ++ [path]), watched := w.watched ++ [path] } := by
  unfold watch
  by_cases habs : path.isAbsolute = false
  · simp [habs]
  by_cases hex : pathExists = false
  · simp [habs, hex]
  by_cases hin : Contains w.watched path
  · simp [habs, hex, hin]
  rw [if_neg habs, if_neg hex, if_neg hin]
  rw [Bool.not_eq_false] at habs hex
  rcases hn : w.notify with _ | paths
  · simp [habs, hex, hin, eq_comm]
  · rcases notifyError with _ | text
    · simp [habs, hex, hin, eq_comm]
    · simp

theorem unwatch_eq_ok : w.unwatch path notifyError = .ok w' ↔
    Contains w.watched path ∧ (w.notify.isSome → notifyError = none) ∧
      w' = { w with
        notify := w.notify.map fun paths => paths.filter fun p => ¬ p.Same path
        watched := w.watched.filter fun p => ¬ p.Same path } := by
  unfold unwatch
  by_cases hin : Contains w.watched path
  · rw [if_neg (not_not.2 hin)]
    rcases hn : w.notify with _ | paths
    · simp [hin, eq_comm]
    · rcases notifyError with _ | text
      · simp [hin, eq_comm]
      · simp
  · simp [hin]

/-- The path can be watched. -/
structure Accepts (w : Watching) (path : PathBuf) (pathExists : Bool)
    (notifyError : Option String) : Prop where
  isAbsolute : path.isAbsolute = true
  pathExists : pathExists = true
  new : ¬ Contains w.watched path
  notifyError : w.notify.isSome → notifyError = none

/-- The path can be unwatched. -/
structure Drops (w : Watching) (path : PathBuf) (notifyError : Option String) : Prop where
  contains : Contains w.watched path
  notifyError : w.notify.isSome → notifyError = none

def add (w : Watching) (path : PathBuf) : Watching :=
  { w with notify := w.notify.map (· ++ [path]), watched := w.watched ++ [path] }

def remove (w : Watching) (path : PathBuf) : Watching :=
  { w with
    notify := w.notify.map fun paths => paths.filter fun p => ¬ p.Same path
    watched := w.watched.filter fun p => ¬ p.Same path }

theorem watch_cases (w : Watching) (path : PathBuf) (pathExists : Bool)
    (notifyError : Option String) :
    (∃ e, w.watch path pathExists notifyError = .error e ∧
      ¬ w.Accepts path pathExists notifyError) ∨
    w.watch path pathExists notifyError = .ok (w.add path) ∧
      w.Accepts path pathExists notifyError := by
  rcases h : w.watch path pathExists notifyError with e | w'
  · refine .inl ⟨e, rfl, fun ⟨habs, hex, hnew, hnotify⟩ => ?_⟩
    have hok := watch_eq_ok.2 ⟨habs, hex, hnew, hnotify, rfl⟩
    rw [h] at hok
    cases hok
  · obtain ⟨habs, hex, hnew, hnotify, rfl⟩ := watch_eq_ok.1 h
    exact .inr ⟨rfl, habs, hex, hnew, hnotify⟩

theorem unwatch_cases (w : Watching) (path : PathBuf) (notifyError : Option String) :
    (∃ e, w.unwatch path notifyError = .error e ∧ ¬ w.Drops path notifyError) ∨
    w.unwatch path notifyError = .ok (w.remove path) ∧ w.Drops path notifyError := by
  rcases h : w.unwatch path notifyError with e | w'
  · refine .inl ⟨e, rfl, fun ⟨hin, hnotify⟩ => ?_⟩
    have hok := unwatch_eq_ok.2 ⟨hin, hnotify, rfl⟩
    rw [h] at hok
    cases hok
  · obtain ⟨hin, hnotify, rfl⟩ := unwatch_eq_ok.1 h
    exact .inr ⟨rfl, hin, hnotify⟩

theorem mem_watched_add {p q : PathBuf} : q ∈ (w.add p).watched ↔ q ∈ w.watched ∨ q = p :=
  List.mem_append.trans (or_congr Iff.rfl List.mem_singleton)

theorem mem_watched_remove {p q : PathBuf} :
    q ∈ (w.remove p).watched ↔ q ∈ w.watched ∧ ¬ q.Same p :=
  List.mem_filter.trans (and_congr_right fun _ => decide_eq_true_iff)

end Watching

/-! ## The requests -/

/-- A request to watch a path can be carried out, for the directory that it is. -/
structure Look.Accepts (path : Option String) (look : Look) (c : PathBuf) : Prop where
  path : path.isSome
  pathExists : look.pathExists = true
  isDir : look.isDir = true
  canonical : look.canonical = some c
  starts : look.starts = true
  isAbsolute : c.isAbsolute = true
  canonicalExists : look.canonicalExists = true
  notifyError : look.notifyError = none

namespace Registry

variable {r : Registry} {path : Option String} {look : Look} {c : PathBuf} {w : Watching}

theorem validateWatch_eq_ok {id : String} (h : r.validateWatch path look = .ok (id, c, w)) :
    look.Accepts path c ∧ ¬ (r.projects c.generateProjectId).any (·.Same c) ∧
      id = c.generateProjectId ∧ w.receiver = false := by
  unfold validateWatch at h
  rcases path with _ | pathStr
  · cases h
  dsimp only at h
  by_cases hex : look.pathExists = false
  · rw [if_pos hex] at h
    cases h
  by_cases hdir : look.isDir = false
  · rw [if_neg hex, if_pos hdir] at h
    cases h
  rw [if_neg hex, if_neg hdir] at h
  rcases hcan : look.canonical with _ | canonical
  · rw [hcan] at h
    cases h
  rw [hcan] at h
  dsimp only at h
  by_cases hold : (r.projects canonical.generateProjectId).any (·.Same canonical)
  · rw [if_pos hold] at h
    cases h
  by_cases hstarts : look.starts = false
  · rw [if_neg hold, if_pos hstarts] at h
    cases h
  rw [if_neg hold, if_neg hstarts] at h
  rcases hw : Watching.new.start.dropReceiver.watch canonical look.canonicalExists
    look.notifyError with e | w'
  · rw [hw] at h
    cases h
  rw [hw] at h
  cases h
  obtain ⟨habs, hcex, -, hnotify, rfl⟩ := Watching.watch_eq_ok.1 hw
  rw [Bool.not_eq_false] at hex hdir hstarts
  exact ⟨⟨rfl, hex, hdir, hcan, hstarts, habs, hcex, hnotify rfl⟩, hold, rfl, rfl⟩

theorem validateWatch_of_accepts (h : look.Accepts path c)
    (hnew : ¬ (r.projects c.generateProjectId).any (·.Same c)) :
    ∃ w, r.validateWatch path look = .ok (c.generateProjectId, c, w) := by
  obtain ⟨pathStr, rfl⟩ := Option.isSome_iff_exists.1 h.path
  have hw : Watching.new.start.dropReceiver.watch c look.canonicalExists look.notifyError = .ok _ :=
    Watching.watch_eq_ok.2 ⟨h.isAbsolute, h.canonicalExists, fun ⟨_, hp, _⟩ => (nomatch hp),
      fun _ => h.notifyError, rfl⟩
  refine ⟨⟨some [c], [c], false⟩, ?_⟩
  unfold validateWatch
  dsimp only
  rw [if_neg (by rw [h.pathExists]; decide), if_neg (by rw [h.isDir]; decide), h.canonical]
  dsimp only
  rw [if_neg hnew, if_neg (by rw [h.starts]; decide), hw]
  rfl

end Registry

namespace DaemonServer

variable {d : DaemonServer}

/-- A write is to the table only. -/
theorem runWrite_same (d : DaemonServer) (i : ℕ) (now : DateTime) :
    (d.runWrite i now).registry = d.registry ∧ (d.runWrite i now).watcher = d.watcher := by
  unfold runWrite
  rcases d.pending[i]? with _ | w <;> exact ⟨rfl, rfl⟩

section Handlers

variable {path : Option String} {look : Look} {id : String} {c p : PathBuf} {w : Watching}

theorem handleWatchProject_of_error {e : ProtocolError}
    (h : d.registry.validateWatch path look = .error e) :
    d.handleWatchProject path look = (d, .error e) := by
  unfold handleWatchProject
  rw [h]

theorem handleWatchProject_of_ok (h : d.registry.validateWatch path look = .ok (id, c, w)) :
    d.handleWatchProject path look =
      ({ d with
        registry := (d.registry.addProject id c).addWatcher id w
        pending := d.pending ++ [.add id c] }, .ok id) := by
  unfold handleWatchProject
  rw [h]

theorem handleUnwatchProject_of_none (h : d.registry.projects id = none) :
    d.handleUnwatchProject (some id) = (d, .error (.projectNotFound id)) := by
  unfold handleUnwatchProject
  dsimp only
  rw [h]

theorem handleUnwatchProject_of_some (h : d.registry.projects id = some p) :
    d.handleUnwatchProject (some id) =
      ({ d with
        registry := (d.registry.removeWatcher id).removeProject id
        pending := d.pending ++ [.remove id] }, .ok ()) := by
  unfold handleUnwatchProject
  dsimp only
  rw [h]

end Handlers

theorem watchRequest_cases [Lowercase] (d : DaemonServer) (path : Option String) (look : Look) :
    (d.step (.watchRequest path look) = d ∧ ∀ c, look.Accepts path c →
      (d.registry.projects c.generateProjectId).any (·.Same c)) ∨
    ∃ c w, look.Accepts path c ∧
      ¬ (d.registry.projects c.generateProjectId).any (·.Same c) ∧ w.receiver = false ∧
      d.step (.watchRequest path look) = { d with
        registry := (d.registry.addProject c.generateProjectId c).addWatcher c.generateProjectId w
        pending := d.pending ++ [.add c.generateProjectId c] } := by
  have hstep : d.step (.watchRequest path look) = (d.handleWatchProject path look).1 := rfl
  rw [hstep]
  rcases ha : d.registry.validateWatch path look with e | ⟨id, c, w⟩
  · refine .inl ⟨by rw [handleWatchProject_of_error ha], fun c hc => ?_⟩
    by_contra hnew
    obtain ⟨w, hw⟩ := Registry.validateWatch_of_accepts hc hnew
    rw [ha] at hw
    cases hw
  · obtain ⟨hc, hnew, rfl, hw⟩ := Registry.validateWatch_eq_ok ha
    exact .inr ⟨c, w, hc, hnew, hw, by rw [handleWatchProject_of_ok ha]⟩

theorem unwatchRequest_cases [Lowercase] (d : DaemonServer) (projectId : Option String) :
    (d.step (.unwatchRequest projectId) = d ∧
      ∀ id, projectId = some id → d.registry.projects id = none) ∨
    ∃ id p, projectId = some id ∧ d.registry.projects id = some p ∧
      d.step (.unwatchRequest projectId) = { d with
        registry := (d.registry.removeWatcher id).removeProject id
        pending := d.pending ++ [.remove id] } := by
  rcases projectId with _ | id
  · exact .inl ⟨rfl, fun id h => by cases h⟩
  · rcases hp : d.registry.projects id with _ | p
    · refine .inl ⟨?_, fun id' h => ?_⟩
      · show (d.handleUnwatchProject (some id)).1 = d
        rw [handleUnwatchProject_of_none hp]
      · cases h
        exact hp
    · refine .inr ⟨id, p, rfl, hp, ?_⟩
      show (d.handleUnwatchProject (some id)).1 = _
      rw [handleUnwatchProject_of_some hp]

end DaemonServer

/-! ## The daemon server's functions -/

/-- The store can have the project. -/
structure Answers.Tracks (a : Answers) (path : PathBuf) : Prop where
  stores : a.stores = true
  toStr : path.toStr.isSome

namespace DaemonServer

theorem unwatch_cases (d : DaemonServer) (id : String) (a : Answers) :
    (∃ e t, d.unwatchProject a id = ({ d with table := t }, .error e) ∧
      (t = d.table ∨ t = d.table.removeProject id) ∧
      (a.stores = true → ∃ q, d.table.getProjectPath id = some q ∧
        ¬ d.watcher.Drops q (a.notifyError q))) ∨
    a.stores = true ∧
      ((d.table.getProjectPath id = none ∧ d.unwatchProject a id =
          (⟨(d.registry.removeTree id).removeProject id, d.watcher, d.table.removeProject id,
            d.pending⟩, .ok ())) ∨
      ∃ q, d.table.getProjectPath id = some q ∧ d.watcher.Drops q (a.notifyError q) ∧
        d.unwatchProject a id = (⟨(d.registry.removeTree id).removeProject id,
          d.watcher.remove q, d.table.removeProject id, d.pending⟩, .ok ())) := by
  unfold unwatchProject
  by_cases hs : a.stores = false
  · rw [if_pos hs]
    exact .inl ⟨_, _, rfl, .inl rfl, fun h => absurd (hs.symm.trans h) Bool.false_ne_true⟩
  rw [if_neg hs]
  rw [Bool.not_eq_false] at hs
  rcases hq : d.table.getProjectPath id with _ | q
  · exact .inr ⟨hs, .inl ⟨rfl, rfl⟩⟩
  dsimp only
  rcases d.watcher.unwatch_cases q (a.notifyError q) with ⟨e, hw, hno⟩ | ⟨hw, hyes⟩
  · exact .inl ⟨.watch e, _, by rw [hw], .inr rfl, fun _ => ⟨q, rfl, hno⟩⟩
  · exact .inr ⟨hs, .inr ⟨q, rfl, hyes, by rw [hw]⟩⟩

section Trees

variable [Lowercase]

theorem watch_cases (d : DaemonServer) (path : PathBuf) (a : Answers) :
    (∃ e, d.watchProject a path = (d, .error e) ∧
      ¬ d.watcher.Accepts path (a.pathExists path) (a.notifyError path)) ∨
    d.watcher.Accepts path (a.pathExists path) (a.notifyError path) ∧
      ((d.watchProject a path = ({ d with watcher := d.watcher.add path }, .error .store) ∧
        ¬ a.Tracks path) ∨
      ∃ t tree, a.Tracks path ∧
        d.table.addProject path.generateProjectId path a.now = some t ∧
        d.watchProject a path = (⟨(d.registry.addTree path.generateProjectId tree).addProject
          path.generateProjectId path, d.watcher.add path, t, d.pending⟩,
          .ok path.generateProjectId)) := by
  unfold watchProject
  rcases d.watcher.watch_cases path (a.pathExists path) (a.notifyError path) with
    ⟨e, hw, hno⟩ | ⟨hw, hyes⟩
  · exact .inl ⟨_, by rw [hw], hno⟩
  refine .inr ⟨hyes, ?_⟩
  rw [hw]
  dsimp only
  by_cases hs : a.stores = true
  · rw [if_pos hs]
    rcases ht : d.table.addProject path.generateProjectId path a.now with _ | t
    · refine .inl ⟨rfl, fun h => ?_⟩
      have := h.toStr
      rw [ProjectsTable.addProject_eq_none.1 ht] at this
      cases this
    · refine .inr ⟨t, _, ⟨hs, ?_⟩, rfl, rfl⟩
      rw [Option.isSome_iff_ne_none]
      intro hn
      rw [ProjectsTable.addProject_eq_none.2 hn] at ht
      cases ht
  · rw [if_neg hs]
    exact .inl ⟨rfl, fun h => hs h.stores⟩

/-- A project of the table is watched again, with a tree, or no longer in the table. -/
theorem restoreProject_cases (a : Answers) (d : DaemonServer) (x : String × PathBuf) :
    (∃ t, restoreProject a d x = { d with table := t } ∧
      (t = d.table ∨ t = d.table.removeProject x.1) ∧
      ¬ d.watcher.Accepts x.2 (a.pathExists x.2) (a.notifyError x.2)) ∨
    d.watcher.Accepts x.2 (a.pathExists x.2) (a.notifyError x.2) ∧ ∃ r,
      restoreProject a d x = { d with watcher := d.watcher.add x.2, registry := r } ∧
      r.projects = Function.update d.registry.projects x.1 (some x.2) ∧
      r.watchers = d.registry.watchers ∧
      (∀ id, id ≠ x.1 → r.trees id = d.registry.trees id) ∧
      (r.trees x.1).isSome := by
  have hremoved : ∃ t, (if a.stores = true then { d with table := d.table.removeProject x.1 }
      else d) = { d with table := t } ∧ (t = d.table ∨ t = d.table.removeProject x.1) := by
    split_ifs
    · exact ⟨_, rfl, .inr rfl⟩
    · exact ⟨_, rfl, .inl rfl⟩
  obtain ⟨t, hremoved, ht⟩ := hremoved
  unfold restoreProject
  rw [hremoved]
  by_cases hex : a.pathExists x.2 = true
  · rw [if_pos hex, hex]
    rcases d.watcher.watch_cases x.2 true (a.notifyError x.2) with ⟨e, hw, hno⟩ | ⟨hw, hyes⟩
    · rw [hw]
      exact .inl ⟨t, rfl, ht, hno⟩
    rw [hw]
    refine .inr ⟨hyes, _, rfl, rfl, rfl, fun id hid => Function.update_of_ne hid _ _, ?_⟩
    simp [Registry.addTree, Registry.addProject]
  · rw [if_neg hex]
    exact .inl ⟨t, rfl, ht, fun h => hex h.pathExists⟩

end Trees

end DaemonServer

/-! ## Names -/

/-- Projects have the names of their directories, wherever the daemon has them. -/
structure DaemonServer.Named (d : DaemonServer) : Prop where
  projects : ∀ id p, d.registry.projects id = some p →
    id = p.generateProjectId ∧ p.isAbsolute = true
  table : ∀ id p, d.table.getProjectPath id = some p →
    id = p.generateProjectId ∧ p.isAbsolute = true
  pending : ∀ id p, .add id p ∈ d.pending → id = p.generateProjectId ∧ p.isAbsolute = true

namespace DaemonServer.Named

variable {d : DaemonServer}

theorem projects_update (h : d.Named) {p : PathBuf} (habs : p.isAbsolute = true) (id : String)
    (q : PathBuf) (hq : Function.update d.registry.projects p.generateProjectId (some p) id =
      some q) : id = q.generateProjectId ∧ q.isAbsolute = true := by
  by_cases hid : id = p.generateProjectId
  · rw [hid, Function.update_self] at hq
    cases hq
    exact ⟨hid, habs⟩
  · rw [Function.update_of_ne hid] at hq
    exact h.projects id q hq

theorem projects_remove (h : d.Named) (id : String) (id' : String) (q : PathBuf)
    (hq : Function.update d.registry.projects id none id' = some q) :
    id' = q.generateProjectId ∧ q.isAbsolute = true := by
  by_cases hid : id' = id
  · rw [hid, Function.update_self] at hq
    cases hq
  · rw [Function.update_of_ne hid] at hq
    exact h.projects id' q hq

theorem table_remove (h : d.Named) {t : ProjectsTable} {id : String}
    (ht : t = d.table ∨ t = d.table.removeProject id) (id' : String) (q : PathBuf)
    (hq : t.getProjectPath id' = some q) : id' = q.generateProjectId ∧ q.isAbsolute = true := by
  rcases ht with rfl | rfl
  · exact h.table id' q hq
  · exact h.table id' q (ProjectsTable.getProjectPath_eq_some_of_removeProject hq)

theorem table_add (h : d.Named) {t : ProjectsTable} {id : String} {p : PathBuf} {now : DateTime}
    (hp : id = p.generateProjectId ∧ p.isAbsolute = true)
    (ht : t = d.table ∨ d.table.addProject id p now = some t) (id' : String) (q : PathBuf)
    (hq : t.getProjectPath id' = some q) : id' = q.generateProjectId ∧ q.isAbsolute = true := by
  rcases ht with rfl | ht
  · exact h.table id' q hq
  · rcases ProjectsTable.getProjectPath_eq_some_of_addProject ht hq with hq | ⟨rfl, rfl⟩
    · exact h.table id' q hq
    · exact hp

theorem runWrite (h : d.Named) (i : ℕ) (now : DateTime) : (d.runWrite i now).Named := by
  unfold DaemonServer.runWrite
  rcases hw : d.pending[i]? with _ | w
  · exact h
  refine ⟨h.projects, ?_, fun id p hp => h.pending id p (List.mem_of_mem_eraseIdx hp)⟩
  cases w with
  | add id p =>
    have ht : (d.table.addProject id p now).getD d.table = d.table ∨
        d.table.addProject id p now = some ((d.table.addProject id p now).getD d.table) := by
      rcases d.table.addProject id p now with _ | t
      · exact .inl rfl
      · exact .inr rfl
    exact h.table_add (h.pending id p (List.mem_of_getElem? hw)) ht
  | remove id => exact h.table_remove (.inr rfl)

section Trees

variable [Lowercase]

theorem restoreProject (h : d.Named) (a : Answers) {x : String × PathBuf}
    (hx : x.1 = x.2.generateProjectId) : (DaemonServer.restoreProject a d x).Named := by
  rcases restoreProject_cases a d x with ⟨t, heq, ht, -⟩ | ⟨hw, r, heq, hprojects, -⟩
  · rw [heq]
    exact ⟨h.projects, h.table_remove ht, h.pending⟩
  · rw [heq]
    refine ⟨?_, h.table, h.pending⟩
    show ∀ id p, r.projects id = some p → _
    rw [hprojects, hx]
    exact h.projects_update hw.isAbsolute

/-- Whatever the daemon does, projects have the names of their directories. -/
theorem step (h : d.Named) (x : RegistryAction) : (d.step x).Named := by
  cases x with
  | watchRequest path look =>
    rcases watchRequest_cases d path look with ⟨heq, -⟩ | ⟨c, w, hc, -, -, heq⟩
    · rw [heq]
      exact h
    · rw [heq]
      refine ⟨h.projects_update hc.isAbsolute, h.table, fun id p hp => ?_⟩
      rcases List.mem_append.1 hp with hp | hp
      · exact h.pending id p hp
      · cases List.mem_singleton.1 hp
        exact ⟨rfl, hc.isAbsolute⟩
  | unwatchRequest projectId =>
    rcases unwatchRequest_cases d projectId with ⟨heq, -⟩ | ⟨id, p, -, -, heq⟩
    · rw [heq]
      exact h
    · rw [heq]
      refine ⟨h.projects_remove id, h.table, fun id' q hq => ?_⟩
      rcases List.mem_append.1 hq with hq | hq
      · exact h.pending id' q hq
      · cases List.mem_singleton.1 hq
  | runWrite i now => exact h.runWrite i now
  | watch path a =>
    show (d.watchProject a path).1.Named
    rcases watch_cases d path a with ⟨e, heq, -⟩ | ⟨hw, hrest⟩
    · rw [heq]
      exact h
    rcases hrest with ⟨heq, -⟩ | ⟨t, tree, -, ht, heq⟩
    · rw [heq]
      exact ⟨h.projects, h.table, h.pending⟩
    · rw [heq]
      exact ⟨h.projects_update hw.isAbsolute, h.table_add ⟨rfl, hw.isAbsolute⟩ (.inr ht),
        h.pending⟩
  | unwatch projectId a =>
    show (d.unwatchProject a projectId).1.Named
    rcases unwatch_cases d projectId a with ⟨e, t, heq, ht, -⟩ | ⟨-, ⟨-, heq⟩ | ⟨q, -, -, heq⟩⟩
    · rw [heq]
      exact ⟨h.projects, h.table_remove ht, h.pending⟩
    · rw [heq]
      exact ⟨h.projects_remove projectId, h.table_remove (.inr rfl), h.pending⟩
    · rw [heq]
      exact ⟨h.projects_remove projectId, h.table_remove (.inr rfl), h.pending⟩
  | restore lists a =>
    show (d.restoreProjects a lists).1.Named
    unfold restoreProjects
    split_ifs
    · exact h
    · refine List.foldlRecOn _ _ h fun d' h' x hx => h'.restoreProject a ?_
      exact (h.table x.1 x.2 (ProjectsTable.mem_listProjects.1 hx)).1

end Trees

end DaemonServer.Named

end AmbientFs
