import AmbientFs.ClientApi
import AmbientFs.Proofs.Codec
import AmbientFs.Proofs.Registry
import AmbientFs.Proofs.ReplyRule

/-!
# What the client makes of the server's answers

The server reads a call as the request that the client meant, and its response comes back to the
call. Of the methods, two are unknown to the server, the result of a third is not of the shape that
the client expects, and null is no awareness (`understood_iff`).
-/

namespace AmbientFs

namespace Rpc.Response

variable {id : Id} {v : JsonValue}

theorem responseId_ofResult {n : UInt64} (h : id = .number n.toNat) :
    responseId (ofResult id v).toValue = some n := by
  subst h
  simp only [ofResult, toValue, responseId, Id.toValue, JsonValue.ofI64]
  simp [List.lookup_cons, Json.Value.asNumber, JsonNumber.asU64]

theorem responseAnswer_ofResult : responseAnswer (ofResult id v).toValue = .ok v := by
  simp [ofResult, toValue, responseAnswer, List.lookup_cons]

end Rpc.Response

namespace Client

section Wire

variable {call : Call} {id : UInt64}

namespace Call

theorem nodup_params (call : Call) : (call.params.map Prod.fst).Nodup := by
  cases call with
  | «attribute» projectId filePath source sourceId => cases sourceId <;> simp [params]
  | _ => simp [params, EventFilter.members]

theorem fromValue_params (call : Call) :
    Params.fromValue (.object call.params) = some (.object call.params) := by
  rw [Params.fromValue, lastMembers_of_nodup call.nodup_params]

/-- The request as the server has it. -/
def sent (call : Call) (id : Rpc.Id) : Rpc.Request :=
  ⟨"2.0", call.method, some (.object call.params), id⟩

theorem fromValue_eq_map (call : Call) (id : UInt64) : Rpc.Request.fromValue (call.request id) =
    (JsonNumber.posInt id).asI64.map fun n => call.sent (.number n) := by
  have hcount : ¬ ∃ name ∈ Rpc.Request.fieldNames,
      1 < (["jsonrpc", "method", "params", "id"] : List String).count name := by
    decide
  unfold request Rpc.Request.fromValue
  simp only [List.map_cons, List.map_nil]
  rw [if_neg hcount]
  simp only [List.lookup_cons, String.reduceBEq]
  simp only [Rpc.Request.fromFields, Json.Value.asOption, fromValue_params, Option.map_some,
    Option.getD_some, Rpc.Id.fromValue]
  rcases (JsonNumber.posInt id).asI64 with _ | n <;> rfl

/-- The request the server reads, if the id is an `i64`. -/
theorem eq_of_fromValue_request {req : Rpc.Request}
    (h : Rpc.Request.fromValue (call.request id) = some req) :
    req = call.sent (.number id.toNat) := by
  rw [fromValue_eq_map] at h
  obtain ⟨n, hn, rfl⟩ := Option.map_eq_some_iff.1 h
  simp only [JsonNumber.asI64] at hn
  split_ifs at hn
  cases hn
  rfl

theorem fromValue_request_one (call : Call) :
    Rpc.Request.fromValue (call.request 1) = some (call.sent (.number 1)) := by
  rw [fromValue_eq_map]
  rfl

end Call

end Wire

/-- A reply has the data that a result has. -/
def Reply.IsOf (chrono : Chrono) (result : JsonValue) : Reply → Prop
  | unit => True
  | projectId id => result.get "project_id" = some (.string id)
  | events es => result = .array (es.map (·.toValue chrono))
  | awareness a => result = a.toValue chrono
  | agents items => result = .array items

namespace Call

/-- The server knows the method. What it answers the call with as a result comes back to the call,
which returns the data in it. -/
structure Agrees (o : Outside) (s : ServerState) (call : Call) : Prop where
  known : (Rpc.Method.fromStr call.method).isSome
  returns : ∀ (subs : Rpc.Subscriptions) (id : UInt64) (req : Rpc.Request) (result : JsonValue),
    Rpc.Request.fromValue (call.request id) = some req →
    (Rpc.handleRequest o s subs req).2.2 = some (.ofResult req.id result) →
      responseId (Rpc.Response.ofResult req.id result).toValue = some id ∧
      ∃ reply, call.finish o.chrono
        (responseAnswer (Rpc.Response.ofResult req.id result).toValue) = .ok reply ∧
        reply.IsOf o.chrono result

/-- When what the server answers is understood. A project that is to be watched must be refused. -/
def Understood (o : Outside) (s : ServerState) : Call → Prop
  | watch _ | events _ => False
  | watchProject path => ∀ c, o.look.Accepts (some path) c →
      (s.registry.projects c.generateProjectId).any (·.Same c) = true
  | queryAwareness projectId path => ∃ a, o.awareness projectId path = .ok (some a)
  | _ => True

/-- The instants in what the server finds for a call. -/
def instants (o : Outside) : Call → Set DateTime
  | call@(queryEvents _) => {t | ∃ found, handleQueryEvents o.planner o.db o.now
      (some (.object call.params)) = .events found ∧ ∃ e ∈ found, e.timestamp = t}
  | queryAwareness projectId path =>
    {t | ∃ a, o.awareness projectId path = .ok (some a) ∧ a.lastModified = t}
  | _ => ∅

variable {o : Outside} {s : ServerState} {call : Call}

theorem finish_ofResult {chrono : Chrono} {id : Rpc.Id} {result : JsonValue} :
    call.finish chrono (responseAnswer (Rpc.Response.ofResult id result).toValue) =
      (call.reply chrono result).elim (.error .invalidResponse) .ok := by
  rw [Rpc.Response.responseAnswer_ofResult, finish]
  rcases h : call.reply chrono result with _ | reply <;> simp [bind, Except.bind, h]

/-- It is enough to look at what the handler makes of the call. -/
theorem agrees_of_handler (hknown : (Rpc.Method.fromStr call.method).isSome)
    (h : ∀ subs id result,
      (Rpc.handleRequest o s subs (call.sent id)).2.2 = some (.ofResult id result) →
      ∃ reply, call.reply o.chrono result = some reply ∧ reply.IsOf o.chrono result) :
    call.Agrees o s := by
  refine ⟨hknown, fun subs id req result hreq hres => ?_⟩
  obtain rfl := eq_of_fromValue_request hreq
  obtain ⟨reply, hreply, hdata⟩ := h subs _ result hres
  refine ⟨Rpc.Response.responseId_ofResult rfl, reply, ?_, hdata⟩
  rw [finish_ofResult, hreply]
  rfl

/-- A call that agrees has a reply for each result that it can be given. -/
theorem Agrees.exists_reply (h : call.Agrees o s) {result : JsonValue}
    (hres : (Rpc.handleRequest o s ∅ (call.sent (.number 1))).2.2 =
      some (.ofResult (.number 1) result)) : (call.reply o.chrono result).isSome := by
  obtain ⟨-, reply, hreply, -⟩ := h.returns ∅ 1 _ result call.fromValue_request_one hres
  rw [finish_ofResult] at hreply
  rcases hr : call.reply o.chrono result with _ | r
  · rw [hr] at hreply
    cases hreply
  · rfl

theorem ofResult_injective {id : Rpc.Id} {v w : JsonValue}
    (h : some (Rpc.Response.ofResult id v) = some (.ofResult id w)) : v = w := by
  simpa [Rpc.Response.ofResult] using h

/-! ## Method by method -/

theorem handleRequest_queryEvents (subs : Rpc.Subscriptions) (filter : EventFilter) (id : Rpc.Id) :
    (Rpc.handleRequest o s subs ((queryEvents filter).sent id)).2.2 =
    match handleQueryEvents o.planner o.db o.now (some (.object filter.members)) with
    | .events found => some (.ofResult id (.array (found.map (·.toValue o.chrono))))
    | .error e => some (.ofError id e)
    | .panicked => none := rfl

/-- The events that are found are read back. -/
theorem reply_queryEvents {filter : EventFilter} {found : List FileEvent}
    (h : ∀ t ∈ (queryEvents filter).instants o, o.chrono.parse (o.chrono.text t) = some t)
    (hfound : handleQueryEvents o.planner o.db o.now (some (.object filter.members)) =
      .events found) :
    (queryEvents filter).reply o.chrono (.array (found.map (·.toValue o.chrono))) =
      some (.events found) := by
  have hread : ∀ e ∈ found, FileEvent.fromValue o.chrono (e.toValue o.chrono) = some e :=
    fun e he => FileEvent.fromValue_toValue (h _ ⟨found, hfound, e, he, rfl⟩)
  have hall : (found.map (·.toValue o.chrono)).mapM (FileEvent.fromValue o.chrono) =
      some found := Json.Value.mapM_read_write hread
  rw [reply, Json.Value.asArray, Option.bind_some, hall]
  rfl

theorem queryEvents_agrees {filter : EventFilter}
    (h : ∀ t ∈ (queryEvents filter).instants o, o.chrono.parse (o.chrono.text t) = some t) :
    (queryEvents filter).Agrees o s := by
  refine agrees_of_handler rfl fun subs id result hres => ?_
  rw [handleRequest_queryEvents] at hres
  rcases hfound : handleQueryEvents o.planner o.db o.now (some (.object filter.members))
    with found | e | _ <;> rw [hfound] at hres
  · obtain rfl := ofResult_injective hres
    exact ⟨.events found, reply_queryEvents h hfound, rfl⟩
  · simp [Rpc.Response.ofResult, Rpc.Response.ofError] at hres
  · cases hres

theorem queryAgents_agrees : queryAgents.Agrees o s := by
  refine agrees_of_handler rfl fun subs id result hres => ?_
  obtain rfl := ofResult_injective hres
  exact ⟨_, rfl, rfl⟩

theorem handleRequest_queryAwareness (subs : Rpc.Subscriptions) (projectId path : String)
    (id : Rpc.Id) :
    (Rpc.handleRequest o s subs ((queryAwareness projectId path).sent id)).2.2 =
    some (.ofResult id (Rpc.awarenessResult o.chrono (o.awareness projectId path))) := by
  have hdispatch : (Rpc.handleRequest o s subs ((queryAwareness projectId path).sent id)).2.2 =
      some (Rpc.handleQueryAwareness o ((queryAwareness projectId path).sent id)) := rfl
  rw [hdispatch, Rpc.handleQueryAwareness_eq rfl rfl rfl]
  rfl

theorem queryAwareness_agrees_iff {projectId path : String}
    (h : ∀ t ∈ (queryAwareness projectId path).instants o,
      o.chrono.parse (o.chrono.text t) = some t) :
    (queryAwareness projectId path).Agrees o s ↔
      ∃ a, o.awareness projectId path = .ok (some a) := by
  constructor
  · intro hagrees
    have hreply := hagrees.exists_reply (handleRequest_queryAwareness ∅ projectId path _)
    rcases ha : o.awareness projectId path with e | _ | a
    · rw [ha] at hreply
      cases hreply
    · rw [ha] at hreply
      cases hreply
    · exact ⟨a, rfl⟩
  · rintro ⟨a, ha⟩
    refine agrees_of_handler rfl fun subs id result hres => ?_
    rw [handleRequest_queryAwareness, ha] at hres
    obtain rfl := ofResult_injective hres
    refine ⟨.awareness a, ?_, rfl⟩
    rw [reply, Rpc.awarenessResult, FileAwareness.fromValue_toValue (h _ ⟨a, ha, rfl⟩)]
    rfl

theorem handleRequest_watchProject (subs : Rpc.Subscriptions) (path : String) (id : Rpc.Id) :
    (Rpc.handleRequest o s subs ((watchProject path).sent id)).2.2 =
    match s.registry.validateWatch (some path) o.look with
    | .error e => some (.ofError id e)
    | .ok (projectId, _, _) => some (.ofResult id
        (.object [("project_id", .string projectId), ("watching", .bool true)])) := by
  have hdispatch : (Rpc.handleRequest o s subs ((watchProject path).sent id)).2.2 =
      some (Rpc.handleWatchProject o s ((watchProject path).sent id)).2 := rfl
  have hpath : ((watchProject path).sent id).extractObjectParams.bind
      (fun members => stringParam members "path") = some path := rfl
  rw [hdispatch, Rpc.handleWatchProject, hpath]
  rcases s.registry.validateWatch (some path) o.look with e | ⟨projectId, c, w⟩ <;> rfl

/-- The result is an object, and the client wants a string. -/
theorem watchProject_agrees_iff {path : String} : (watchProject path).Agrees o s ↔
    ∀ c, o.look.Accepts (some path) c →
      (s.registry.projects c.generateProjectId).any (·.Same c) = true := by
  constructor
  · intro hagrees c hc
    by_contra hnew
    obtain ⟨w, hw⟩ := Registry.validateWatch_of_accepts hc hnew
    have hres := handleRequest_watchProject (o := o) (s := s) ∅ path (.number 1)
    rw [hw] at hres
    have hreply := hagrees.exists_reply hres
    cases hreply
  · intro hrefused
    refine agrees_of_handler rfl fun subs id result hres => ?_
    rw [handleRequest_watchProject] at hres
    rcases hw : s.registry.validateWatch (some path) o.look with e | ⟨projectId, c, w⟩
    · rw [hw] at hres
      simp [Rpc.Response.ofResult, Rpc.Response.ofError] at hres
    · obtain ⟨hc, hnew, -, -⟩ := Registry.validateWatch_eq_ok hw
      exact absurd (hrefused c hc) hnew

/-- If the instants are read back, the client understands what the server answers in all calls that
the server knows, but where the server answers that a project is watched or that there is no
awareness. -/
theorem understood_iff (o : Outside) (s : ServerState) (call : Call)
    (h : ∀ t ∈ call.instants o, o.chrono.parse (o.chrono.text t) = some t) :
    call.Agrees o s ↔ call.Understood o s := by
  cases call with
  | watch path => exact iff_of_false (fun hagrees => nomatch hagrees.known) id
  | events filter => exact iff_of_false (fun hagrees => nomatch hagrees.known) id
  | watchProject path => exact watchProject_agrees_iff
  | queryAwareness projectId path => exact queryAwareness_agrees_iff h
  | queryEvents filter => exact iff_of_true (queryEvents_agrees h) trivial
  | queryAgents => exact iff_of_true queryAgents_agrees trivial
  | subscribe | unwatchProject | unsubscribe | «attribute» =>
    exact iff_of_true (agrees_of_handler rfl fun _ _ _ _ => ⟨.unit, rfl, trivial⟩) trivial

open Rpc.ConnectionAudit (idle idleOutside)

/-- There is awareness of every file. -/
def awareOutside : Outside := { idleOutside with
  awareness := fun projectId filePath => .ok (some {
    filePath := filePath
    projectId := projectId
    lastModified := .epoch
    modifiedBy := .user
    modifiedByLabel := none
    activeAgent := none
    chatReferences := 0
    todoCount := 0
    lintHints := 0
    lineCount := 0
    changeFrequency := .cold })
  chrono := epochOnly }

theorem agrees_awareness : (queryAwareness "app" "src/a.rs").Agrees awareOutside idle :=
  (understood_iff awareOutside idle (queryAwareness "app" "src/a.rs") (by
    rintro t ⟨a, ha, rfl⟩
    cases ha
    rfl)).2 ⟨_, rfl⟩

/-- The server does not know the method that watches a path. -/
theorem not_agrees : ¬ ∀ (o : Outside) (s : ServerState) (call : Call),
    (∀ t ∈ call.instants o, o.chrono.parse (o.chrono.text t) = some t) → call.Agrees o s := by
  intro h
  have hwatch := h idleOutside idle (watch "/w/app") (fun t ht => absurd ht (Set.notMem_empty t))
  exact absurd hwatch.known (by decide)

end Call

end Client

end AmbientFs
