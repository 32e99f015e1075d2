import AmbientFs.Handlers

/-!
# What a response depends on

A response has the id of its request, and every request is answered but a query of events since an
instant that is out of range. The response depends neither on the connection's subscriptions nor on
what the server keeps for subscribers, and they do not get into the rest of the server.
-/

namespace AmbientFs

/-- The server with nothing for subscribers. -/
def ServerState.quiet (s : ServerState) : ServerState := { s with subscriptions := .new }

namespace Rpc

/-- The instant a query of events names cannot be computed. -/
def Request.panics (now : DateTime) (req : Request) : Bool :=
  Method.fromStr req.method = some .queryEvents && (paramsMap req.params).any fun members =>
    (((members.lookup "since").bind Json.Value.asNumber).bind JsonNumber.asI64).any fun seconds =>
      (secondsAgo now seconds).isNone

variable {o : Outside} {s : ServerState} {subs : Subscriptions} {req : Request}

/-- The instant is computed before the source is looked at. -/
theorem ofRequest_eq_overflow {now : DateTime} {projectId source : Option String}
    {since : Option ℤ} {limit : Option ℕ} :
    EventFilter.ofRequest now projectId since source limit = .error .overflow ↔
      since.any (fun seconds => (secondsAgo now seconds).isNone) = true := by
  unfold EventFilter.ofRequest
  rcases since with _ | seconds
  all_goals rcases source with _ | sourceStr
  · simp [bind, Except.bind]
  · rcases h : Source.fromStr sourceStr with e | source <;> simp [bind, Except.bind, h]
  · rcases h : secondsAgo now seconds with _ | since <;> simp [bind, Except.bind, h]
  · rcases h : secondsAgo now seconds with _ | since
    · simp [bind, Except.bind, h]
    · rcases h' : Source.fromStr sourceStr with e | source <;> simp [bind, Except.bind, h, h']

theorem queryFilter_eq_overflow {now : DateTime} {members : List (String × JsonValue)} :
    queryFilter now members = .error .overflow ↔
      (((members.lookup "since").bind Json.Value.asNumber).bind JsonNumber.asI64).any
        (fun seconds => (secondsAgo now seconds).isNone) = true :=
  ofRequest_eq_overflow

theorem handleQueryEvents_eq_none :
    handleQueryEvents o req = none ↔ (paramsMap req.params).any (fun members =>
      (((members.lookup "since").bind Json.Value.asNumber).bind JsonNumber.asI64).any fun seconds =>
        (secondsAgo o.now seconds).isNone) = true := by
  unfold handleQueryEvents AmbientFs.handleQueryEvents
  rcases paramsMap req.params with _ | members
  · simp
  · simp only [Option.any_some, ← queryFilter_eq_overflow]
    rcases queryFilter o.now members with (_ | sourceStr) | filter
    · simp
    · simp
    · simp only [reduceCtorEq, iff_false]
      rcases openAndQuery o.planner o.db filter with e | events <;> simp

theorem handleQueryEvents_id {r : Response} (h : handleQueryEvents o req = some r) :
    r.id = req.id := by
  unfold handleQueryEvents at h
  split at h
  all_goals simp only [Option.some.injEq, reduceCtorEq] at h
  all_goals rw [← h]; rfl

theorem handleRequest_eq_none :
    (handleRequest o s subs req).2.2 = none ↔ req.panics o.now = true := by
  unfold handleRequest Request.panics
  rcases Method.fromStr req.method with _ | m
  · simp
  · cases m with
    | queryEvents => simpa using handleQueryEvents_eq_none
    | _ => simp

theorem handleRequest_id {r : Response} (h : (handleRequest o s subs req).2.2 = some r) :
    r.id = req.id := by
  have hexcept : ∀ x : Except ProtocolError JsonValue, Response.ofExcept req.id x = r →
      r.id = req.id := by
    rintro x rfl
    exact Response.ofExcept_id req.id x
  unfold handleRequest at h
  rcases hm : Method.fromStr req.method with _ | m
  · rw [hm] at h
    cases h
    rfl
  · rw [hm] at h
    cases m with
    | queryEvents => exact handleQueryEvents_id h
    | queryAwareness => exact hexcept _ (Option.some.inj h)
    | queryTree => exact hexcept _ (Option.some.inj h)
    | «attribute» => exact hexcept _ (Option.some.inj h)
    | queryAgents =>
      cases h
      rfl
    | subscribe =>
      simp only [handleSubscribe] at h
      split at h <;> cases h <;> rfl
    | unsubscribe =>
      simp only [handleUnsubscribe] at h
      split at h <;> cases h <;> rfl
    | watchProject =>
      simp only [handleWatchProject] at h
      split at h <;> cases h <;> rfl
    | unwatchProject =>
      simp only [handleUnwatchProject] at h
      split at h
      · cases h
        rfl
      · split at h <;> cases h <;> rfl
    | watchAgents =>
      simp only [handleWatchAgents] at h
      split at h
      · cases h
        rfl
      · split_ifs at h <;> cases h <;> rfl
    | unwatchAgents =>
      simp only [handleUnwatchAgents] at h
      split at h <;> cases h <;> rfl
    | reportAgentActivity =>
      simp only [handleReportAgentActivity] at h
      split at h
      · cases h
        rfl
      · split at h <;> cases h <;> rfl

variable (o s subs req) in
theorem handleRequest_quiet :
    (handleRequest o s subs req).2.2 = (handleRequest o s.quiet ∅ req).2.2 ∧
      (handleRequest o s subs req).1.quiet = (handleRequest o s.quiet ∅ req).1.quiet := by
  unfold handleRequest
  rcases Method.fromStr req.method with _ | m
  · exact ⟨rfl, rfl⟩
  · cases m with
    | «attribute» =>
      simp only [handleAttribute, EventServer.handleAttribute, ServerState.quiet]
      repeat' split
      all_goals exact ⟨rfl, rfl⟩
    | subscribe =>
      simp only [handleSubscribe]
      split <;> exact ⟨rfl, rfl⟩
    | unsubscribe =>
      simp only [handleUnsubscribe]
      split <;> exact ⟨rfl, rfl⟩
    | watchProject =>
      simp only [handleWatchProject, ServerState.quiet]
      split <;> exact ⟨rfl, rfl⟩
    | unwatchProject =>
      simp only [handleUnwatchProject, ServerState.quiet]
      split
      · exact ⟨rfl, rfl⟩
      · split <;> exact ⟨rfl, rfl⟩
    | watchAgents =>
      simp only [handleWatchAgents]
      split
      · exact ⟨rfl, rfl⟩
      · split_ifs <;> exact ⟨rfl, rfl⟩
    | unwatchAgents =>
      simp only [handleUnwatchAgents]
      split <;> exact ⟨rfl, rfl⟩
    | reportAgentActivity =>
      simp only [handleReportAgentActivity]
      split
      · exact ⟨rfl, rfl⟩
      · split <;> exact ⟨rfl, rfl⟩
    | _ => exact ⟨rfl, rfl⟩

/-- Awareness, or null where there is none. -/
def awarenessResult (chrono : Chrono) : Except AwarenessError (Option FileAwareness) → JsonValue
  | .ok (some awareness) => awareness.toValue chrono
  | _ => .null

theorem handleQueryAwareness_eq {members : List (String × JsonValue)} {projectId path : String}
    (hparams : req.params = some (.object members))
    (hproject : stringParam members "project_id" = some projectId)
    (hpath : stringParam members "path" = some path) :
    handleQueryAwareness o req =
      .ofResult req.id (awarenessResult o.chrono (o.awareness projectId path)) := by
  have hmembers : req.extractObjectParams = some members := by
    rw [Request.extractObjectParams, hparams]
  unfold handleQueryAwareness
  rw [hmembers]
  dsimp only
  rw [hproject]
  dsimp only
  rw [hpath]
  dsimp only
  rcases o.awareness projectId path with e | _ | awareness <;> rfl

/-! ## The daemon's projects -/

/-- The daemon whose maps and pending writes the server has. -/
def daemon (s : ServerState) (watcher : Watching) (table : ProjectsTable) : DaemonServer :=
  ⟨s.registry, watcher, table, s.pending⟩

section Daemon

variable (o s req) (watcher : Watching) (table : ProjectsTable)

/-- To the daemon the request is the one that the registry has for it. -/
theorem handleWatchProject_daemon :
    let r := (daemon s watcher table).handleWatchProject
      (req.extractObjectParams.bind fun members => stringParam members "path") o.look
    daemon (handleWatchProject o s req).1 watcher table = r.1 ∧
      (handleWatchProject o s req).2 = .ofExcept req.id (r.2.map fun projectId =>
        .object [("project_id", .string projectId), ("watching", .bool true)]) := by
  simp only [handleWatchProject, DaemonServer.handleWatchProject, daemon]
  rcases s.registry.validateWatch (req.extractObjectParams.bind fun members =>
    stringParam members "path") o.look with e | ⟨projectId, canonical, watcher'⟩
  · exact ⟨rfl, rfl⟩
  · exact ⟨rfl, rfl⟩

theorem handleUnwatchProject_daemon :
    let r := (daemon s watcher table).handleUnwatchProject
      (req.extractObjectParams.bind fun members => stringParam members "project_id")
    daemon (handleUnwatchProject s req).1 watcher table = r.1 ∧
      (handleUnwatchProject s req).2 = .ofExcept req.id (r.2.map fun _ => .bool true) := by
  simp only [handleUnwatchProject, DaemonServer.handleUnwatchProject, daemon]
  rcases req.extractObjectParams.bind fun members => stringParam members "project_id"
    with _ | projectId
  · exact ⟨rfl, rfl⟩
  · dsimp only
    rcases s.registry.projects projectId with _ | path
    · exact ⟨rfl, rfl⟩
    · exact ⟨rfl, rfl⟩

end Daemon

end Rpc

end AmbientFs
