import AmbientFs.Lib.Run
import AmbientFs.Proofs.RegistryWrites

/-!
# The three parts of the registry

A project is in the map of the projects, has a tree, and has a root that a watcher of the event
loop watches. The requests of the socket server change the first only, and the functions of the
daemon server can fail between the parts. What an operation does is all about one project, so it
keeps the parts in step exactly if it does so there.
-/

namespace AmbientFs

namespace Watching

/-- The paths whose events get to a receiver. -/
def heard (w : Watching) : List PathBuf := if w.receiver then w.notify.getD [] else []

variable {w : Watching} {p q : PathBuf}

theorem Contains.congr {paths : List PathBuf} (h : p.Same q) (hp : Contains paths p) :
    Contains paths q := by
  obtain ⟨r, hr, hsame⟩ := hp
  exact ⟨r, hr, hsame.trans h⟩

theorem contains_add : Contains (w.add p).watched q ↔ Contains w.watched q ∨ p.Same q := by
  unfold Contains
  simp only [mem_watched_add, or_and_right, exists_or, exists_eq_left]

theorem contains_remove :
    Contains (w.remove p).watched q ↔ Contains w.watched q ∧ ¬ q.Same p := by
  unfold Contains
  simp only [mem_watched_remove]
  constructor
  · rintro ⟨r, ⟨hr, hne⟩, hsame⟩
    exact ⟨⟨r, hr, hsame⟩, fun h => hne (hsame.trans h)⟩
  · rintro ⟨⟨r, hr, hsame⟩, hne⟩
    exact ⟨r, ⟨hr, fun h => hne (hsame.symm.trans h)⟩, hsame⟩

end Watching

open Watching (Contains contains_add contains_remove)

namespace DaemonServer

/-- The event loop gets the events of the path. -/
def Hears (d : DaemonServer) (path : PathBuf) : Prop :=
  Contains d.watcher.heard path ∨
    ∃ id w, d.registry.watchers id = some w ∧ Contains w.heard path

/-- A project is in the map exactly if it has a tree, if the event loop gets the events of its
root, and if its tree can be queried. -/
structure CoherentAt (d : DaemonServer) (id : String) : Prop where
  tree : (d.registry.projects id).isSome ↔ (d.registry.trees id).isSome
  heard : match d.registry.projects id with
    | some root => d.Hears root
    | none => ∀ path, d.Hears path → path.generateProjectId ≠ id
  queried : (d.registry.queryTree (some id)).isOk ↔ (d.registry.projects id).isSome

def Coherent (d : DaemonServer) : Prop := ∀ id, d.CoherentAt id

/-- An operation changes all parts of a project, or what it leaves out is there already. -/
def Keeps (d : DaemonServer) : RegistryAction → Prop
  | .watchRequest path look => ∀ c, look.Accepts path c →
      ¬ (d.registry.projects c.generateProjectId).any (·.Same c) →
      (d.registry.trees c.generateProjectId).isSome ∧ Contains d.watcher.watched c
  | .unwatchRequest projectId => ∀ id, projectId = some id → d.registry.projects id = none
  | .runWrite _ _ | .restore _ _ => True
  | .watch path a => d.watcher.Accepts path (a.pathExists path) (a.notifyError path) →
      a.Tracks path ∨ (d.registry.projects path.generateProjectId).isSome
  | .unwatch projectId a => a.stores = true →
      match d.table.getProjectPath projectId with
      | none => ∀ p, Contains d.watcher.watched p → p.generateProjectId ≠ projectId
      | some path => d.watcher.Drops path (a.notifyError path) →
          ∀ p, Contains d.watcher.watched p → p.generateProjectId = projectId → p.Same path

/-- The daemon's watcher watches what it keeps and is heard, and the projects' own watchers are
not. -/
structure Regular (d : DaemonServer) : Prop where
  named : d.Named
  notify : d.watcher.notify = some d.watcher.watched
  receiver : d.watcher.receiver = true
  deaf : ∀ id w, d.registry.watchers id = some w → w.receiver = false

/-- The parts of a project are in step. -/
def InStep (watched : List PathBuf) (id : String) (root : Option PathBuf)
    (tree : Option ProjectTree) : Prop :=
  match root with
  | some root => tree.isSome ∧ Contains watched root
  | none => tree = none ∧ ∀ p, Contains watched p → p.generateProjectId ≠ id

namespace Regular

variable {d d' : DaemonServer} {id id₀ : String}

theorem hears_iff (h : d.Regular) {path : PathBuf} :
    d.Hears path ↔ Contains d.watcher.watched path := by
  have hheard : d.watcher.heard = d.watcher.watched := by
    unfold Watching.heard
    rw [if_pos h.receiver, h.notify]
    rfl
  unfold Hears
  rw [hheard]
  refine or_iff_left ?_
  rintro ⟨id, w, hw, p, hp, -⟩
  unfold Watching.heard at hp
  rw [h.deaf id w hw] at hp
  cases hp

theorem queryTree_isOk (r : Registry) (id : String) :
    (r.queryTree (some id)).isOk ↔ (r.trees id).isSome := by
  unfold Registry.queryTree
  dsimp only
  rcases r.trees id with _ | t
  · exact iff_of_false (by simp [Except.isOk, Except.toBool]) (by simp)
  · exact iff_of_true rfl rfl

theorem coherentAt_iff (h : d.Regular) : d.CoherentAt id ↔
    InStep d.watcher.watched id (d.registry.projects id) (d.registry.trees id) := by
  unfold InStep
  constructor
  · rintro ⟨htree, hheard, -⟩
    rcases hp : d.registry.projects id with _ | root
    · rw [hp] at htree hheard
      refine ⟨Option.not_isSome_iff_eq_none.1 fun hs => ?_, fun p hp => ?_⟩
      · cases htree.2 hs
      · exact hheard p (h.hears_iff.2 hp)
    · rw [hp] at htree hheard
      exact ⟨htree.1 rfl, h.hears_iff.1 hheard⟩
  · intro hs
    have htree : (d.registry.projects id).isSome ↔ (d.registry.trees id).isSome := by
      rcases hp : d.registry.projects id with _ | root
      · rw [hp] at hs
        rw [hs.1]
        rfl
      · rw [hp] at hs
        exact iff_of_true rfl hs.1
    refine ⟨htree, ?_, (queryTree_isOk _ id).trans htree.symm⟩
    rcases hp : d.registry.projects id with _ | root
    · rw [hp] at hs
      exact fun p hpc => hs.2 p (h.hears_iff.1 hpc)
    · rw [hp] at hs
      exact h.hears_iff.2 hs.2

/-- What happens to a project with another name leaves a project as it is. -/
theorem coherentAt_congr (h : d.Regular) (h' : d'.Regular)
    (hproject : d'.registry.projects id = d.registry.projects id)
    (htree : d'.registry.trees id = d.registry.trees id)
    (hwatched : ∀ p : PathBuf, p.generateProjectId = id →
      (Contains d'.watcher.watched p ↔ Contains d.watcher.watched p)) :
    d'.CoherentAt id ↔ d.CoherentAt id := by
  rw [h.coherentAt_iff, h'.coherentAt_iff, hproject, htree]
  unfold InStep
  rcases hp : d.registry.projects id with _ | root
  · refine and_congr_right fun _ => forall_congr' fun p => ?_
    by_cases hid : p.generateProjectId = id
    · rw [hwatched p hid]
    · exact iff_of_true (fun _ => hid) fun _ => hid
  · exact and_congr_right fun _ => hwatched root (h.named.projects id root hp).1.symm

/-- Where only one project is touched the parts are in step if those of the project are. -/
theorem coherent_iff_at (h : d.Regular) (h' : d'.Regular) (hd : d.Coherent)
    (hproject : ∀ id, id ≠ id₀ → d'.registry.projects id = d.registry.projects id)
    (htree : ∀ id, id ≠ id₀ → d'.registry.trees id = d.registry.trees id)
    (hwatched : ∀ p : PathBuf, p.generateProjectId ≠ id₀ →
      (Contains d'.watcher.watched p ↔ Contains d.watcher.watched p)) :
    d'.Coherent ↔
      InStep d'.watcher.watched id₀ (d'.registry.projects id₀) (d'.registry.trees id₀) := by
  rw [← h'.coherentAt_iff]
  refine ⟨fun hall => hall id₀, fun h₀ id => ?_⟩
  by_cases hid : id = id₀
  · rw [hid]
    exact h₀
  · exact (h.coherentAt_congr h' (hproject id hid) (htree id hid)
      fun p hp => hwatched p (hp ▸ hid)).2 (hd id)

theorem add (h : d.Regular) (hd' : d'.Named) {p : PathBuf}
    (hwatcher : d'.watcher = d.watcher.add p)
    (hwatchers : d'.registry.watchers = d.registry.watchers) : d'.Regular := by
  refine ⟨hd', ?_, ?_, ?_⟩
  · rw [hwatcher]
    show d.watcher.notify.map _ = _
    rw [h.notify]
    rfl
  · rw [hwatcher]
    exact h.receiver
  · rw [hwatchers]
    exact h.deaf

end Regular

theorem regular_started (t : NamedTable) : (started t.toProjectsTable).Regular :=
  ⟨⟨fun _ _ h => (nomatch h), t.getProjectPath_named, fun _ _ h => (nomatch h)⟩, rfl, rfl,
    fun _ _ h => (nomatch h)⟩

theorem coherent_started (t : NamedTable) : (started t.toProjectsTable).Coherent :=
  fun _ => (regular_started t).coherentAt_iff.2 ⟨rfl, fun _ ⟨_, hp, _⟩ => (nomatch hp)⟩

/-! ## What the operations keep -/

section Steps

variable [Lowercase] {d d' : DaemonServer}

namespace Regular

theorem restoreProject (h : d.Regular) (a : Answers) {x : String × PathBuf}
    (hx : x.1 = x.2.generateProjectId) : (DaemonServer.restoreProject a d x).Regular := by
  have hnamed := h.named.restoreProject a hx
  rcases restoreProject_cases a d x with ⟨t, heq, -⟩ | ⟨-, r, heq, -, hwatchers, -⟩
  · rw [heq] at hnamed ⊢
    exact ⟨hnamed, h.notify, h.receiver, h.deaf⟩
  · rw [heq] at hnamed ⊢
    exact h.add hnamed rfl hwatchers

theorem step (h : d.Regular) (x : RegistryAction) : (d.step x).Regular := by
  have hnamed := h.named.step x
  have hdeaf : ∀ (id : String) (w : Option Watching), (∀ w', w = some w' → w'.receiver = false) →
      ∀ id' w', Function.update d.registry.watchers id w id' = some w' → w'.receiver = false := by
    intro id w hw id' w' heq
    by_cases hid : id' = id
    · rw [hid, Function.update_self] at heq
      exact hw w' heq
    · rw [Function.update_of_ne hid] at heq
      exact h.deaf id' w' heq
  cases x with
  | watchRequest path look =>
    rcases watchRequest_cases d path look with ⟨heq, -⟩ | ⟨c, w, -, -, hw, heq⟩
    · rw [heq]
      exact h
    · rw [heq] at hnamed ⊢
      exact ⟨hnamed, h.notify, h.receiver, hdeaf _ _ fun w' hw' => Option.some.inj hw' ▸ hw⟩
  | unwatchRequest projectId =>
    rcases unwatchRequest_cases d projectId with ⟨heq, -⟩ | ⟨id, p, -, -, heq⟩
    · rw [heq]
      exact h
    · rw [heq] at hnamed ⊢
      exact ⟨hnamed, h.notify, h.receiver, hdeaf _ _ fun w' hw' => (nomatch hw')⟩
  | runWrite i now =>
    have hsame := d.runWrite_same i now
    refine ⟨hnamed, ?_, ?_, ?_⟩
    · show (d.runWrite i now).watcher.notify = some (d.runWrite i now).watcher.watched
      rw [hsame.2]
      exact h.notify
    · show (d.runWrite i now).watcher.receiver = true
      rw [hsame.2]
      exact h.receiver
    · show ∀ id w, (d.runWrite i now).registry.watchers id = some w → _
      rw [hsame.1]
      exact h.deaf
  | watch path a =>
    have hstep : d.step (.watch path a) = (d.watchProject a path).1 := rfl
    rw [hstep] at hnamed ⊢
    rcases watch_cases d path a with ⟨e, heq, -⟩ | ⟨-, ⟨heq, -⟩ | ⟨t, tree, -, -, heq⟩⟩
    · rw [heq]
      exact h
    · rw [heq] at hnamed ⊢
      exact h.add hnamed rfl rfl
    · rw [heq] at hnamed ⊢
      exact h.add hnamed rfl rfl
  | unwatch projectId a =>
    have hstep : d.step (.unwatch projectId a) = (d.unwatchProject a projectId).1 := rfl
    rw [hstep] at hnamed ⊢
    rcases unwatch_cases d projectId a with ⟨e, t, heq, -⟩ | ⟨-, ⟨-, heq⟩ | ⟨q, -, -, heq⟩⟩
    · rw [heq] at hnamed ⊢
      exact ⟨hnamed, h.notify, h.receiver, h.deaf⟩
    · rw [heq] at hnamed ⊢
      exact ⟨hnamed, h.notify, h.receiver, h.deaf⟩
    · rw [heq] at hnamed ⊢
      refine ⟨hnamed, ?_, h.receiver, h.deaf⟩
      show d.watcher.notify.map _ = _
      rw [h.notify]
      rfl
  | restore lists a =>
    show (d.restoreProjects a lists).1.Regular
    unfold restoreProjects
    split_ifs
    · exact h
    · refine List.foldlRecOn _ _ h fun d' h' x hx => h'.restoreProject a ?_
      exact (h.named.table x.1 x.2 (ProjectsTable.mem_listProjects.1 hx)).1

theorem coherentAt_restoreProject_of_ne (h : d.Regular) (a : Answers) {x : String × PathBuf}
    (hx : x.1 = x.2.generateProjectId) {id : String} (hid : id ≠ x.1) :
    (DaemonServer.restoreProject a d x).CoherentAt id ↔ d.CoherentAt id := by
  have h' := h.restoreProject a hx
  rcases restoreProject_cases a d x with ⟨t, heq, -⟩ | ⟨-, r, heq, hprojects, -, htrees, -⟩
  · rw [heq] at h' ⊢
    exact h.coherentAt_congr h' rfl rfl fun _ _ => Iff.rfl
  · rw [heq] at h' ⊢
    refine h.coherentAt_congr h' ?_ (htrees id hid) fun p hp => ?_
    · show r.projects id = _
      rw [hprojects, Function.update_of_ne hid]
    · refine contains_add.trans (or_iff_left fun hsame => hid ?_)
      rw [hx, ← hp, hsame.generateProjectId_eq]

theorem coherentAt_restoreProject (h : d.Regular) (a : Answers) {x : String × PathBuf}
    (hx : x.1 = x.2.generateProjectId) (hd : d.CoherentAt x.1) :
    (DaemonServer.restoreProject a d x).CoherentAt x.1 := by
  have h' := h.restoreProject a hx
  rcases restoreProject_cases a d x with ⟨t, heq, -⟩ | ⟨-, r, heq, hprojects, -, -, htree⟩
  · rw [heq] at h' ⊢
    exact (h.coherentAt_congr h' rfl rfl fun _ _ => Iff.rfl).2 hd
  · rw [heq] at h' ⊢
    rw [h'.coherentAt_iff]
    show InStep (d.watcher.add x.2).watched x.1 (r.projects x.1) (r.trees x.1)
    rw [hprojects, Function.update_self]
    exact ⟨htree, contains_add.2 (.inr (.refl _))⟩

theorem coherent_restoreProject (h : d.Regular) (hd : d.Coherent) (a : Answers)
    {x : String × PathBuf} (hx : x.1 = x.2.generateProjectId) :
    (DaemonServer.restoreProject a d x).Coherent := by
  intro id
  by_cases hid : id = x.1
  · rw [hid]
    exact h.coherentAt_restoreProject a hx (hd x.1)
  · exact (h.coherentAt_restoreProject_of_ne a hx hid).2 (hd id)

theorem coherent_watch (h : d.Regular) (hd : d.Coherent) (path : PathBuf) (a : Answers) :
    (d.watchProject a path).1.Coherent ↔ d.Keeps (.watch path a) := by
  have h' : (d.watchProject a path).1.Regular := h.step (.watch path a)
  have hother : ∀ p : PathBuf, p.generateProjectId ≠ path.generateProjectId →
      (Contains (d.watcher.add path).watched p ↔ Contains d.watcher.watched p) := fun p hp =>
    contains_add.trans (or_iff_left fun hsame => hp hsame.generateProjectId_eq.symm)
  rcases watch_cases d path a with ⟨e, heq, hno⟩ | ⟨hyes, hrest⟩
  · rw [heq]
    exact iff_of_true hd fun hyes => absurd hyes hno
  rcases hrest with ⟨heq, hno⟩ | ⟨t, tree, ha, -, heq⟩
  · rw [heq] at h' ⊢
    rw [h.coherent_iff_at h' hd (fun _ _ => rfl) (fun _ _ => rfl) hother]
    have hkeeps : d.Keeps (.watch path a) ↔
        (d.registry.projects path.generateProjectId).isSome :=
      ⟨fun hk => (hk hyes).resolve_left hno, fun hs _ => .inr hs⟩
    rw [hkeeps]
    have hbefore := h.coherentAt_iff.1 (hd path.generateProjectId)
    show InStep (d.watcher.add path).watched _ (d.registry.projects _) (d.registry.trees _) ↔ _
    unfold InStep at hbefore ⊢
    rcases hp : d.registry.projects path.generateProjectId with _ | root
    · exact iff_of_false (fun hs => hs.2 path (contains_add.2 (.inr (.refl _))) rfl) (by simp)
    · rw [hp] at hbefore
      exact iff_of_true ⟨hbefore.1, contains_add.2 (.inl hbefore.2)⟩ rfl
  · rw [heq] at h' ⊢
    rw [h.coherent_iff_at h' hd (fun id hid => Function.update_of_ne hid _ _)
      (fun id hid => Function.update_of_ne hid _ _) hother]
    refine iff_of_true ?_ fun _ => .inl ha
    show InStep (d.watcher.add path).watched _
      (Function.update d.registry.projects path.generateProjectId (some path) _)
      (Function.update d.registry.trees path.generateProjectId (some tree) _)
    rw [Function.update_self, Function.update_self]
    exact ⟨rfl, contains_add.2 (.inr (.refl _))⟩

theorem coherent_unwatch (h : d.Regular) (hd : d.Coherent) (id : String) (a : Answers) :
    (d.unwatchProject a id).1.Coherent ↔ d.Keeps (.unwatch id a) := by
  have h' : (d.unwatchProject a id).1.Regular := h.step (.unwatch id a)
  have hkeeps : d.Keeps (.unwatch id a) ↔ (a.stores = true →
      match d.table.getProjectPath id with
      | none => ∀ p, Contains d.watcher.watched p → p.generateProjectId ≠ id
      | some path => d.watcher.Drops path (a.notifyError path) →
          ∀ p, Contains d.watcher.watched p → p.generateProjectId = id → p.Same path) := Iff.rfl
  rw [hkeeps]
  rcases unwatch_cases d id a with ⟨e, t, heq, -, hno⟩ | ⟨hs, hrest⟩
  · rw [heq] at h' ⊢
    refine iff_of_true (fun id' => ?_) fun hs => ?_
    · exact (h.coherentAt_congr h' rfl rfl fun _ _ => Iff.rfl).2 (hd id')
    · obtain ⟨q, hq, hno⟩ := hno hs
      rw [hq]
      exact fun hyes => absurd hyes hno
  rcases hrest with ⟨hq, heq⟩ | ⟨q, hq, hyes, heq⟩
  · rw [heq] at h' ⊢
    rw [h.coherent_iff_at h' hd (fun id hid => Function.update_of_ne hid _ _)
      (fun id hid => Function.update_of_ne hid _ _) fun _ _ => Iff.rfl, hq]
    show InStep d.watcher.watched id (Function.update d.registry.projects id none id)
      (Function.update d.registry.trees id none id) ↔ _
    rw [Function.update_self, Function.update_self]
    exact ⟨fun hin _ => hin.2, fun hall => ⟨rfl, hall hs⟩⟩
  · have hname := (h.named.table id q hq).1
    rw [heq] at h' ⊢
    rw [h.coherent_iff_at h' hd (fun id hid => Function.update_of_ne hid _ _)
      (fun id hid => Function.update_of_ne hid _ _) ?_, hq]
    · show InStep (d.watcher.remove q).watched id (Function.update d.registry.projects id none id)
        (Function.update d.registry.trees id none id) ↔ _
      rw [Function.update_self, Function.update_self]
      constructor
      · intro hin _ _ p hp hid
        by_contra hne
        exact hin.2 p (contains_remove.2 ⟨hp, hne⟩) hid
      · intro hall
        refine ⟨rfl, fun p hp hid => ?_⟩
        obtain ⟨hp, hne⟩ := contains_remove.1 hp
        exact hne (hall hs hyes p hp hid)
    · refine fun p hp => contains_remove.trans (and_iff_left fun hsame => hp ?_)
      rw [hname, hsame.generateProjectId_eq]

theorem coherent_watchRequest (h : d.Regular) (hd : d.Coherent) (path : Option String)
    (look : Look) :
    (d.step (.watchRequest path look)).Coherent ↔ d.Keeps (.watchRequest path look) := by
  have h' := h.step (.watchRequest path look)
  rcases watchRequest_cases d path look with ⟨heq, hold⟩ | ⟨c, w, hc, hnew, -, heq⟩
  · rw [heq]
    exact iff_of_true hd fun c hc hnew => absurd (hold c hc) hnew
  · rw [heq] at h' ⊢
    rw [h.coherent_iff_at h' hd (fun id hid => Function.update_of_ne hid _ _) (fun _ _ => rfl)
      fun _ _ => Iff.rfl]
    show InStep d.watcher.watched _
      (Function.update d.registry.projects c.generateProjectId (some c) _)
      (d.registry.trees _) ↔ _
    rw [Function.update_self]
    constructor
    · intro hin c' hc' _
      rw [← Option.some.inj (hc.canonical.symm.trans hc'.canonical)]
      exact hin
    · exact fun hall => hall c hc hnew

theorem coherent_unwatchRequest (h : d.Regular) (hd : d.Coherent) (projectId : Option String) :
    (d.step (.unwatchRequest projectId)).Coherent ↔ d.Keeps (.unwatchRequest projectId) := by
  have h' := h.step (.unwatchRequest projectId)
  rcases unwatchRequest_cases d projectId with ⟨heq, hnone⟩ | ⟨id, p, rfl, hp, heq⟩
  · rw [heq]
    exact iff_of_true hd hnone
  · rw [heq] at h' ⊢
    refine iff_of_false (fun hall => ?_) fun hall => ?_
    · have htree := (hall id).tree
      have hbefore := (hd id).tree
      rw [hp] at hbefore
      have hnone : (Function.update d.registry.projects id none id).isSome :=
        htree.2 (hbefore.1 rfl)
      rw [Function.update_self] at hnone
      cases hnone
    · rw [hall id rfl] at hp
      cases hp

theorem coherent_step (h : d.Regular) (hd : d.Coherent) (x : RegistryAction) :
    (d.step x).Coherent ↔ d.Keeps x := by
  cases x with
  | watchRequest path look => exact h.coherent_watchRequest hd path look
  | unwatchRequest projectId => exact h.coherent_unwatchRequest hd projectId
  | runWrite i now =>
    refine iff_of_true (fun id => ?_) trivial
    have hsame := d.runWrite_same i now
    refine (h.coherentAt_congr (h.step (.runWrite i now)) ?_ ?_ fun p _ => ?_).2 (hd id)
    · exact congrArg (·.projects id) hsame.1
    · exact congrArg (·.trees id) hsame.1
    · show Contains (d.runWrite i now).watcher.watched p ↔ _
      rw [hsame.2]
  | watch path a => exact h.coherent_watch hd path a
  | unwatch projectId a => exact h.coherent_unwatch hd projectId a
  | restore lists a =>
    refine iff_of_true ?_ trivial
    show (d.restoreProjects a lists).1.Coherent
    unfold restoreProjects
    split_ifs
    · exact hd
    · have hall : (d.table.listProjects.foldl (DaemonServer.restoreProject a) d).Regular ∧
          (d.table.listProjects.foldl (DaemonServer.restoreProject a) d).Coherent := by
        refine List.foldlRecOn (motive := fun d' : DaemonServer => d'.Regular ∧ d'.Coherent) _ _
          ⟨h, hd⟩ fun d' h' x hx => ?_
        have hname := (h.named.table x.1 x.2 (ProjectsTable.mem_listProjects.1 hx)).1
        exact ⟨h'.1.restoreProject a hname, h'.1.coherent_restoreProject h'.2 a hname⟩
      exact hall.2

end Regular

/-- The parts of the registry are in step throughout exactly if every operation keeps them so. -/
theorem always_coherent_iff (t : NamedTable) (xs : List RegistryAction) :
    Run.Always step (started t.toProjectsTable) Coherent xs ↔
      Run.Steps step (started t.toProjectsTable) Keeps xs := by
  refine Run.always_iff_steps (I := fun d => d.Regular ∧ d.Coherent)
    ⟨regular_started t, coherent_started t⟩ (fun _ h => h.2) ?_ ?_
  · exact fun d x h hx => ⟨h.1.step x, (h.1.coherent_step h.2 x).2 hx⟩
  · exact fun d x h hx hd => hx ((h.1.coherent_step h.2 x).1 hd)

end Steps

end DaemonServer

/-! ## A project that is watched by a request -/

namespace DaemonServer

attribute [local instance] asciiLowercase

theorem not_always_coherent : ¬ Run.Always step (started emptyTable.toProjectsTable) Coherent
    [(watchDirectory "/w/app").action] := by
  intro h
  have htree := (h _ List.prefix_rfl "app").tree
  exact absurd (htree.1 (by decide)) (by decide)

end DaemonServer

end AmbientFs
