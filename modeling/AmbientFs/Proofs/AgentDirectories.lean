import AmbientFs.Lib.Run
import AmbientFs.Proofs.Registry
import AmbientFs.Proofs.ReplyRule

/-!
# Directories of agents among the projects

A directory of agents is kept in the map of the projects, under an id of its own. Requests to watch
and unwatch directories of agents reach the ids of those directories only: at all others the server
has and answers what it would without them.
-/

namespace AmbientFs

/-- A map without what it has under some keys. -/
def without {α : Type} (keys : List String) (m : String → Option α) (id : String) : Option α :=
  if id ∈ keys then none else m id

def ProjectWrite.projectId : ProjectWrite → String
  | add projectId _ => projectId
  | remove projectId => projectId

def Registry.without (keys : List String) (r : Registry) : Registry :=
  { r with
    projects := AmbientFs.without keys r.projects
    watchers := AmbientFs.without keys r.watchers }

/-- The server without the projects of some ids. -/
def ServerState.without (keys : List String) (s : ServerState) : ServerState :=
  { s with
    registry := s.registry.without keys
    pending := s.pending.filter (·.projectId ∉ keys) }

section Without

variable {keys : List String}

theorem without_of_notMem {α : Type} {m : String → Option α} {id : String} (h : id ∉ keys) :
    without keys m id = m id := by
  simp [without, h]

theorem without_update {α : Type} (m : String → Option α) (id : String) (v : Option α) :
    without keys (Function.update m id v) =
      if id ∈ keys then without keys m else Function.update (without keys m) id v := by
  split_ifs with h
  all_goals
    funext id'
    by_cases hid : id' = id
    · simp [without, hid, h]
    · simp [without, hid]

@[simp] theorem without_idem {α : Type} (m : String → Option α) :
    without keys (without keys m) = without keys m := by
  funext id
  unfold without
  split_ifs <;> rfl

@[simp] theorem Registry.without_idem (r : Registry) :
    (r.without keys).without keys = r.without keys := by
  simp [Registry.without]

@[simp] theorem ServerState.without_idem (s : ServerState) :
    (s.without keys).without keys = s.without keys := by
  simp [ServerState.without]

end Without

namespace Registry

variable {r : Registry} {keys : List String}

/-- No directory that is kept under such a key is, as a text, the start of the path. -/
def NoneStarts (r : Registry) (keys : List String) (filePath : String) : Prop :=
  ∀ id ∈ keys, ∀ root, r.projects id = some root → ¬ root.toStringLossy.toList <+: filePath.toList

theorem without_watched (r : Registry) (id : String) (path : PathBuf) (watcher : Watching) :
    ((r.addProject id path).addWatcher id watcher).without keys =
      if id ∈ keys then r.without keys
      else ((r.without keys).addProject id path).addWatcher id watcher := by
  split_ifs with h <;> simp [Registry.without, addProject, addWatcher, without_update, h]

theorem without_unwatched (r : Registry) (id : String) :
    ((r.removeWatcher id).removeProject id).without keys =
      if id ∈ keys then r.without keys
      else ((r.without keys).removeWatcher id).removeProject id := by
  split_ifs with h <;> simp [Registry.without, removeProject, removeWatcher, without_update, h]

theorem validateWatch_without (path : Option String) {look : Look}
    (h : ∀ canonical ∈ look.canonical, canonical.generateProjectId ∉ keys) :
    (r.without keys).validateWatch path look = r.validateWatch path look := by
  unfold validateWatch
  rcases hlook : look.canonical with _ | canonical
  · rfl
  · have hsame : (r.without keys).projects canonical.generateProjectId =
        r.projects canonical.generateProjectId := without_of_notMem (h canonical hlook)
    simp only [hsame]

theorem assign_without {filePath : String} (h : r.NoneStarts keys filePath)
    (order : List String) : r.assign order filePath =
      (r.without keys).assign (order.filter (· ∉ keys)) filePath := by
  unfold assign
  induction order with
  | nil => rfl
  | cons id order ih =>
    by_cases hid : id ∈ keys
    · have hno : (r.projects id).any (fun root =>
          root.toStringLossy.toList.isPrefixOf filePath.toList) = false := by
        rcases hroot : r.projects id with _ | root
        · rfl
        · exact Bool.eq_false_iff.2 fun hstarts =>
            h id hid root hroot (List.isPrefixOf_iff_prefix.1 hstarts)
      simp [hid, hno, ih]
    · simp [hid, List.find?_cons, Registry.without, without_of_notMem hid, ih]

end Registry

namespace Rpc

variable {o : Outside} {s : ServerState} {subs : Subscriptions} {req : Request}
  {keys : List String}

/-- The request is about a directory of agents. -/
def Request.ofAgents (req : Request) : Bool :=
  Method.fromStr req.method = some .watchAgents || Method.fromStr req.method = some .unwatchAgents

theorem handleWatchProject_of_mem {canonical : PathBuf}
    (hlook : o.look.canonical = some canonical) (h : canonical.generateProjectId ∈ keys) :
    (handleWatchProject o s req).1.without keys = s.without keys := by
  unfold handleWatchProject
  dsimp only
  rcases hv : s.registry.validateWatch _ o.look with e | ⟨id, path, watcher⟩
  · rfl
  · obtain ⟨haccepts, -, rfl, -⟩ := Registry.validateWatch_eq_ok hv
    rw [haccepts.canonical, Option.some.injEq] at hlook
    simp [ServerState.without, Registry.without_watched, ProjectWrite.projectId, hlook, h]

variable (o s req keys) in
/-- What is watched under another id does not depend on them. -/
theorem handleWatchProject_without : (handleWatchProject o s req).1.without keys =
    (handleWatchProject o (s.without keys) req).1.without keys := by
  by_cases hkeys : ∀ canonical ∈ o.look.canonical, canonical.generateProjectId ∉ keys
  · have hsame := fun path => s.registry.validateWatch_without path hkeys
    unfold handleWatchProject
    simp only [ServerState.without, hsame]
    rcases s.registry.validateWatch _ o.look with e | ⟨id, canonical, watcher⟩
    · simp
    · simp [Registry.without_watched]
  · push Not at hkeys
    obtain ⟨canonical, hlook, hkey⟩ := hkeys
    rw [handleWatchProject_of_mem hlook hkey, handleWatchProject_of_mem hlook hkey,
      ServerState.without_idem]

/-- The project that a request to unwatch one names. -/
def unwatched (req : Request) : Option String :=
  req.extractObjectParams.bind fun members => stringParam members "project_id"

theorem handleUnwatchProject_of_mem {id : String} (hreq : unwatched req = some id)
    (h : id ∈ keys) : (handleUnwatchProject s req).1.without keys = s.without keys := by
  unfold handleUnwatchProject
  unfold unwatched at hreq
  rw [hreq]
  dsimp only
  rcases s.registry.projects id with _ | path
  · rfl
  · simp [ServerState.without, Registry.without_unwatched, ProjectWrite.projectId, h]

theorem handleUnwatchProject_without (h : ∀ id ∈ unwatched req, id ∉ keys) :
    (handleUnwatchProject s req).1.without keys =
        (handleUnwatchProject (s.without keys) req).1.without keys ∧
      (handleUnwatchProject s req).2 = (handleUnwatchProject (s.without keys) req).2 := by
  unfold handleUnwatchProject
  unfold unwatched at h
  rcases hreq : req.extractObjectParams.bind fun members => stringParam members "project_id"
    with _ | id
  · simp
  have hid : id ∉ keys := h id hreq
  have hsame : (s.without keys).registry.projects id = s.registry.projects id :=
    without_of_notMem hid
  dsimp only
  rw [hsame]
  rcases s.registry.projects id with _ | path
  · simp
  · simp [ServerState.without, Registry.without_unwatched, hid]

variable (o s subs req keys) in
theorem handleRequest_without (h : req.ofAgents = false) :
    (handleRequest o s subs req).1.without keys =
      (handleRequest o (s.without keys) subs req).1.without keys := by
  unfold Request.ofAgents at h
  unfold handleRequest
  rcases hm : Method.fromStr req.method with _ | m
  · simp
  cases m with
  | watchProject => exact handleWatchProject_without o s req keys
  | unwatchProject =>
    by_cases hkeys : ∀ id ∈ unwatched req, id ∉ keys
    · exact (handleUnwatchProject_without hkeys).1
    · push Not at hkeys
      obtain ⟨id, hreq, hkey⟩ := hkeys
      have hsame := handleUnwatchProject_of_mem (s := s.without keys) hreq hkey
      rw [ServerState.without_idem] at hsame
      exact (handleUnwatchProject_of_mem hreq hkey).trans hsame.symm
  | watchAgents => simp [hm] at h
  | unwatchAgents => simp [hm] at h
  | subscribe =>
    simp only [handleSubscribe]
    split <;> simp [ServerState.without]
  | unsubscribe =>
    simp only [handleUnsubscribe]
    split <;> simp [ServerState.without]
  | «attribute» =>
    simp only [handleAttribute, EventServer.handleAttribute, ServerState.without]
    repeat' split
    all_goals simp [EventServer.publish]
  | reportAgentActivity =>
    simp only [handleReportAgentActivity]
    repeat' split
    all_goals simp [ServerState.without]
  | _ => simp

/-- After the request the server has nothing else, and other projects at most where the directory
that the request names is kept. -/
structure AtDirectory (req : Request) (s s' : ServerState) : Prop where
  rest : s' = { s with registry := { s.registry with projects := s'.registry.projects } }
  projects : ∀ id, (∀ path, agentsPath req = .ok path → id ≠ watchKey path) →
    s'.registry.projects id = s.registry.projects id

theorem AtDirectory.refl (req : Request) (s : ServerState) : AtDirectory req s s :=
  ⟨rfl, fun _ _ => rfl⟩

theorem AtDirectory.update {path : PathBuf} (h : agentsPath req = .ok path) (s : ServerState)
    (v : Option PathBuf) : AtDirectory req s { s with
      registry := { s.registry with
        projects := Function.update s.registry.projects (watchKey path) v } } :=
  ⟨rfl, fun _ hid => Function.update_of_ne (hid path h) _ _⟩

theorem handleRequest_atDirectory (h : req.ofAgents) :
    AtDirectory req s (handleRequest o s subs req).1 := by
  unfold Request.ofAgents at h
  rw [Bool.or_eq_true, decide_eq_true_eq, decide_eq_true_eq] at h
  unfold handleRequest
  rcases h with hm | hm
  · rw [hm]
    simp only [handleWatchAgents]
    rcases hpath : agentsPath req with e | path
    · exact .refl req s
    · dsimp only
      split_ifs
      · exact .refl req s
      · exact .refl req s
      · exact .update hpath s (some path)
  · rw [hm]
    simp only [handleUnwatchAgents]
    rcases hpath : agentsPath req with e | path
    · exact .refl req s
    · exact .update hpath s none

theorem AtDirectory.without {s' : ServerState} (h : AtDirectory req s s')
    (hkeys : ∀ path, agentsPath req = .ok path → watchKey path ∈ keys) :
    s'.without keys = s.without keys := by
  have hprojects : AmbientFs.without keys s'.registry.projects =
      AmbientFs.without keys s.registry.projects := by
    funext id
    by_cases hid : id ∈ keys
    · simp [AmbientFs.without, hid]
    · rw [without_of_notMem hid, without_of_notMem hid]
      exact h.projects id fun path hpath heq => hid (heq ▸ hkeys path hpath)
  rw [h.rest]
  simp [ServerState.without, Registry.without, hprojects]

/-! ## Requests one after the other -/

/-- A request, with what it finds outside of the server and the receivers of its connection. -/
structure Served where
  outside : Outside
  subs : Subscriptions
  request : Request

def serve (s : ServerState) (x : Served) : ServerState :=
  (handleRequest x.outside s x.subs x.request).1

/-- The requests that are not about directories of agents. -/
def others (xs : List Served) : List Served := xs.filter fun x => !x.request.ofAgents

/-- The ids that the directories of agents that are named in the requests are kept under. -/
def agentsKeys (xs : List Served) : List String :=
  xs.filterMap fun x =>
    if x.request.ofAgents then (agentsPath x.request).toOption.map watchKey else none

/-- Both have the same projects, assign events to the same, and unwatch the same. -/
structure SameProjects (s s' : ServerState) : Prop where
  projects : s.registry.projects = s'.registry.projects
  assigns : ∀ order filePath,
    s.registry.assign order filePath = s'.registry.assign order filePath
  unwatches : ∀ req, (handleUnwatchProject s req).2 = (handleUnwatchProject s' req).2

/-- Both are the same but for what is kept under some keys: they assign an event to the same project
if no directory that is kept there is the start of its path, and unwatch the same at other ids. -/
structure SameApart (keys : List String) (s s' : ServerState) : Prop where
  state : s.without keys = s'.without keys
  assigns : ∀ order order' filePath, order.filter (· ∉ keys) = order'.filter (· ∉ keys) →
    s.registry.NoneStarts keys filePath → s'.registry.NoneStarts keys filePath →
      s.registry.assign order filePath = s'.registry.assign order' filePath
  unwatches : ∀ req, (∀ id ∈ unwatched req, id ∉ keys) →
    (handleUnwatchProject s req).2 = (handleUnwatchProject s' req).2

theorem sameApart_of_without {s s' : ServerState} (h : s.without keys = s'.without keys) :
    SameApart keys s s' where
  state := h
  assigns order order' filePath horder hs hs' := by
    have hregistry : s.registry.without keys = s'.registry.without keys :=
      congrArg (fun s : ServerState => s.registry) h
    rw [Registry.assign_without hs, Registry.assign_without hs', hregistry, horder]
  unwatches req hreq := by
    rw [(handleUnwatchProject_without hreq).2, h, ← (handleUnwatchProject_without hreq).2]

theorem mem_agentsKeys {xs : List Served} {x : Served} (hx : x ∈ xs) (h : x.request.ofAgents)
    {path : PathBuf} (hpath : agentsPath x.request = .ok path) : watchKey path ∈ agentsKeys xs :=
  List.mem_filterMap.2 ⟨x, hx, by simp [h, hpath, Except.toOption]⟩

theorem after_others (s : ServerState) (xs : List Served) :
    (Run.after serve s xs).without (agentsKeys xs) =
      (Run.after serve s (others xs)).without (agentsKeys xs) := by
  refine Run.after_filter (fun s s' x hx hsame => ?_) s fun s x hx hagents => ?_
  · have hx : x.request.ofAgents = false := by simpa using hx
    unfold serve
    rw [handleRequest_without _ _ _ _ _ hx, hsame, ← handleRequest_without _ _ _ _ _ hx]
  · have hagents : x.request.ofAgents := by simpa using hagents
    exact (handleRequest_atDirectory hagents).without fun path => mem_agentsKeys hx hagents

/-- A request about a directory of agents changes at most the entry that is kept for it, and but for
such entries the requests could be left out. -/
theorem agents_requests_apart (s : ServerState) (xs : List Served) :
    (∀ x : Served, x.request.ofAgents →
      AtDirectory x.request (Run.after serve s xs) (serve (Run.after serve s xs) x)) ∧
    SameApart (agentsKeys xs) (Run.after serve s xs) (Run.after serve s (others xs)) :=
  ⟨fun _ hx => handleRequest_atDirectory hx, sameApart_of_without (after_others s xs)⟩

/-! ## A directory that is watched -/

/-- A request to watch a directory that is there. -/
def watchAgents : Served where
  outside := { ConnectionAudit.idleOutside with
    look := ⟨true, true, none, true, false, none⟩ }
  subs := ∅
  request := ⟨"2.0", "watch_agents", some (.object [("path", .string "/w/.agents")]), .null⟩

def watchApp : Served where
  outside := { ConnectionAudit.idleOutside with
    look := ⟨true, true, some (.ofString "/w/app"), true, true, none⟩ }
  subs := ∅
  request := ⟨"2.0", "watch_project", some (.object [("path", .string "/w/app")]), .null⟩

def unwatchApp : Served where
  outside := ConnectionAudit.idleOutside
  subs := ∅
  request := ⟨"2.0", "unwatch_project", some (.object [("project_id", .string "app")]), .null⟩

/-- The directory is watched while a project is. -/
theorem agents_requests_apart_one :
    AtDirectory watchAgents.request (Run.after serve ConnectionAudit.idle [watchApp])
        (serve (Run.after serve ConnectionAudit.idle [watchApp]) watchAgents) ∧
      SameApart ["agents:/w/.agents"]
        (Run.after serve ConnectionAudit.idle [watchApp, watchAgents, unwatchApp, watchApp])
        (Run.after serve ConnectionAudit.idle [watchApp, unwatchApp, watchApp]) := by
  have hkeys : agentsKeys [watchApp, watchAgents, unwatchApp, watchApp] =
      ["agents:/w/.agents"] := by decide
  refine ⟨(agents_requests_apart ConnectionAudit.idle [watchApp]).1 watchAgents (by decide), ?_⟩
  rw [← hkeys]
  exact (agents_requests_apart ConnectionAudit.idle
    [watchApp, watchAgents, unwatchApp, watchApp]).2

/-- The directory is then one of the projects. -/
theorem not_sameProjects : ¬ SameProjects (Run.after serve ConnectionAudit.idle [watchAgents])
    (Run.after serve ConnectionAudit.idle (others [watchAgents])) := by
  intro h
  have hnone : (Run.after serve ConnectionAudit.idle (others [watchAgents])).registry.projects
      "agents:/w/.agents" = none := by decide
  have hsome : (Run.after serve ConnectionAudit.idle [watchAgents]).registry.projects
      "agents:/w/.agents" = some (.ofString "/w/.agents") := by decide
  rw [h.projects, hnone] at hsome
  cases hsome

end Rpc

end AmbientFs
