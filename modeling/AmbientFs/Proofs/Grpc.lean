import AmbientFs.Grpc
import AmbientFs.Proofs.AgentIsolation
import AmbientFs.Proofs.ReplyRule

/-!
# The two protocols

A query that JSON-RPC and gRPC can both express makes both build the same filter, and both build the
same awareness. They differ where there is nothing to answer with: JSON-RPC answers a failure of the
store with no events and a file without awareness with null, where gRPC fails
(`both_answer_or_lenient`).
-/

namespace AmbientFs

/-! ## The latest event of a file -/

/-- What a row is read as is of the project and the file that the row has. -/
theorem Row.of_toEvent {r : Row} {e : FileEvent} (h : r.toEvent = .ok e) :
    e.projectId = r.projectId ∧ e.filePath = r.filePath := by
  unfold toEvent at h
  split at h
  · cases h
  · split at h
    · cases h
    · split at h
      · cases h
      · cases h
        exact ⟨rfl, rfl⟩

/-- The latest event of a file is of the file. -/
theorem EventStore.of_getLatest {planner : Planner} {st : EventStore} {p f : String}
    {e : FileEvent} (h : st.getLatest planner p f = .ok (some e)) :
    e.projectId = p ∧ e.filePath = f := by
  unfold getLatest at h
  split at h
  · cases h
  · rename_i r rest hselect
    have hr : r ∈ st.select planner (latestFilter p f) := by
      rw [latestFilter, hselect]
      exact List.mem_cons_self
    have hmatch : (latestFilter p f).matches r = true := by
      unfold select at hr
      have hr := List.mem_of_mem_take hr
      rw [List.mem_insertionSort, (planner.perm _ _).mem_iff] at hr
      exact (List.mem_filter.1 hr).2
    rw [latestFilter_matches, Bool.and_eq_true, decide_eq_true_iff, decide_eq_true_iff] at hmatch
    rcases hevent : r.toEvent with err | e'
    · rw [hevent] at h
      cases h
    · rw [hevent] at h
      cases h
      have hof := Row.of_toEvent hevent
      exact ⟨hof.1.trans hmatch.1, hof.2.trans hmatch.2⟩

section Awareness

variable {ι : Type} {d : Disk ι} {planner : Planner} {storePath : PathBuf}
  {p f : String} {agent : Option String} {references : UInt32} {now : DateTime} {a : FileAwareness}

/-- The awareness of a file is of the file. -/
theorem Disk.of_buildAwareness
    (h : d.buildAwareness planner storePath p f agent references now = .ok (some a)) :
    a.filePath = f ∧ a.projectId = p ∧ a.activeAgent = agent := by
  unfold buildAwareness at h
  split at h
  · cases h
  · cases h
  · rename_i e hlatest
    have hof : e.projectId = p ∧ e.filePath = f := by
      unfold getLatest at hlatest
      split at hlatest
      · cases hlatest
      · split at hlatest
        · cases hlatest
        · rename_i hok
          cases hlatest
          exact EventStore.of_getLatest hok
    split at h
    · cases h
    · cases h
      exact ⟨hof.2, hof.1, rfl⟩

end Awareness

/-! ## The queries that both can express -/

open Json.Value (asStr asNumber)

/-- A query of events in both protocols. A limit is both a `usize` and an `int32`. -/
structure SharedQuery where
  request : Rpc.Request
  message : QueryEventsRequest
  members : List (String × JsonValue)
  params : paramsMap request.params = some members
  projectId : (members.lookup "project_id").bind asStr = message.projectId
  since : ((members.lookup "since").bind asNumber).bind JsonNumber.asI64 = message.since
  source : (members.lookup "source").bind asStr = message.source
  limit : (((members.lookup "limit").bind asNumber).bind JsonNumber.asU64).map
    (fun limit => (limit.toNat : ℤ)) = message.limit
  limit_lt : ∀ limit ∈ message.limit, limit < 2 ^ 31

/-- A query of the awareness of a file in both protocols. -/
structure SharedAwareness where
  request : Rpc.Request
  message : QueryAwarenessRequest
  members : List (String × JsonValue)
  params : request.params = some (.object members)
  projectId : stringParam members "project_id" = some message.projectId
  path : stringParam members "path" = some message.path

inductive SharedRequest
  | events (q : SharedQuery)
  | awareness (q : SharedAwareness)

/-- An event in JSON and as a message. -/
structure SameEvent (chrono : Chrono) (v : JsonValue) (m : FileEventMessage) : Prop where
  timestamp : ∃ t : DateTime, v.get "timestamp" = some (.string (chrono.text t)) ∧
    m.timestamp = t.timestamp
  eventType : v.get "event_type" = some (.string m.eventType)
  filePath : v.get "file_path" = some (.string m.filePath)
  projectId : v.get "project_id" = some (.string m.projectId)
  source : v.get "source" = some (.string m.source)
  sourceId : v.get "source_id" = some (.ofOption .string m.sourceId)
  machineId : v.get "machine_id" = some (.string m.machineId)
  contentHash : v.get "content_hash" = some (.ofOption .string m.contentHash)
  oldPath : v.get "old_path" = some (.ofOption .string m.oldPath)

theorem sameEvent_toValue (chrono : Chrono) (e : FileEvent) :
    SameEvent chrono (e.toValue chrono) (fileEventToMessage e) :=
  ⟨⟨e.timestamp, rfl, rfl⟩, rfl, rfl, rfl, rfl, rfl, rfl, rfl, rfl⟩

/-- Awareness in JSON and as a message, the fields that both have but for the lint hints. The counts
have the same 32 bits. The active agent is the same if nothing is new when it is asked for again. -/
structure SameAwareness (chrono : Chrono) (nothingNew : Prop) (v : JsonValue)
    (m : AwarenessResponse) : Prop where
  filePath : v.get "file_path" = some (.string m.filePath)
  projectId : v.get "project_id" = some (.string m.projectId)
  lastModified : v.get "last_modified" = m.lastModified.map .string
  modifiedBy : v.get "modified_by" = m.modifiedBy.map .string
  changeFrequency : v.get "change_frequency" = some (.string m.changeFrequency)
  todoCount : v.get "todo_count" = some (JsonValue.ofU32 m.todoCount.toUInt32)
  lineCount : v.get "line_count" = some (JsonValue.ofU32 m.lineCount.toUInt32)
  activeAgent : nothingNew → v.get "active_agent" = some (.ofOption .string m.activeAgent)

/-- Both fail, or both succeed with the same. -/
def BothAnswer {β : Type} (Same : JsonValue → β → Prop) (json : Option Rpc.Response)
    (grpc : Except QueryStatus β) : Prop :=
  ((∀ id v, json ≠ some (.ofResult id v)) ∧ ∀ m, grpc ≠ .ok m) ∨
    ∃ id v m, json = some (.ofResult id v) ∧ grpc = .ok m ∧ Same v m

namespace SharedQuery

variable (o : Outside) (q : SharedQuery)

/-- Both build the same filter. -/
theorem filter_eq (now : DateTime) : queryFilter now q.members = q.message.filter now := by
  have hlimit : ((((q.members.lookup "limit").bind asNumber).bind JsonNumber.asU64).map
      UInt64.toNat) = q.message.limit.map fun limit => (limit % 2 ^ 64).toNat := by
    rw [← q.limit, Option.map_map]
    congr 1
    funext limit
    have := limit.toNat_lt
    simp only [Function.comp_apply]
    omega
  rw [queryFilter, QueryEventsRequest.filter, q.projectId, q.since, q.source, hlimit]

def SameEvents (chrono : Chrono) (v : JsonValue) (messages : List FileEventMessage) : Prop :=
  ∃ items, v = .array items ∧ List.Forall₂ (SameEvent chrono) items messages

def Answered : Prop := BothAnswer (SameEvents o.chrono) (Rpc.handleQueryEvents o q.request)
  (queryEvents o.planner o.db o.now q.message)

/-- The store does not answer, and JSON-RPC answers with no events. -/
def Lenient : Prop :=
  (∃ f e, q.message.filter o.now = .ok f ∧ openAndQuery o.planner o.db f = .error e) ∧
    Rpc.handleQueryEvents o q.request = some (.ofResult q.request.id (.array [])) ∧
    queryEvents o.planner o.db o.now q.message = .error (.error .internal "query failed")

/-- What JSON-RPC answers, from the filter of the message. -/
theorem handleQueryEvents_eq : Rpc.handleQueryEvents o q.request =
    match q.message.filter o.now with
    | .error .overflow => none
    | .error (.invalidSource source) =>
      some (.ofError q.request.id (.invalidParams ("invalid source: " ++ source)))
    | .ok f =>
      let found := (openAndQuery o.planner o.db f).toOption.getD []
      some (.ofResult q.request.id (.array (found.map (·.toValue o.chrono)))) := by
  unfold Rpc.handleQueryEvents AmbientFs.handleQueryEvents
  rw [q.params, ← q.filter_eq]
  dsimp only
  rcases queryFilter o.now q.members with (source | _) | f
  · rfl
  · rfl
  · dsimp only
    rcases openAndQuery o.planner o.db f with e | events <;> rfl

theorem answered_or_lenient : q.Answered o ∨ q.Lenient o := by
  unfold Answered Lenient queryEvents
  rw [handleQueryEvents_eq]
  rcases q.message.filter o.now with (source | _) | f
  · refine .inl (.inl ⟨fun id v => ?_, fun m => ?_⟩)
    · simp [Rpc.Response.ofError, Rpc.Response.ofResult]
    · simp
  · refine .inl (.inl ⟨fun id v => ?_, fun m => ?_⟩)
    · simp
    · simp
  · dsimp only
    rcases hstore : openAndQuery o.planner o.db f with e | events
    · exact .inr ⟨⟨f, e, rfl, hstore⟩, rfl, rfl⟩
    · refine .inl (.inr ⟨_, _, _, rfl, rfl, _, rfl, ?_⟩)
      rw [show (Except.ok events).toOption.getD [] = events from rfl, List.forall₂_map_left_iff,
        List.forall₂_map_right_iff, List.forall₂_same]
      exact fun e _ => sameEvent_toValue o.chrono e

end SharedQuery

namespace SharedAwareness

variable {ι : Type} (o : Outside) (s : ServerState) (later : String → DateTime)
  (q : SharedAwareness)

/-- No agent gets stale, or is stale no more, from the one clock to the other. -/
def NothingNew : Prop := ∀ e ∈ s.agentTracker.agents.entries,
  e.2.isStale s.agentTracker.staleTimeout (o.clock e.1) =
    e.2.isStale s.agentTracker.staleTimeout (later e.1)

theorem NothingNew.getActiveAgent {o : Outside} {s : ServerState} {later : String → DateTime}
    (h : NothingNew o s later) (filePath : String) :
    s.getActiveAgent o o.clock filePath = s.getActiveAgent o later filePath := by
  unfold ServerState.getActiveAgent AgentTracker.getActiveAgent
  congr 1
  refine List.foldl_ext _ _ _ fun best e he => ?_
  simp only [AgentTracker.better, h e ((o.perm _).mem_iff.1 he)]

def Answered : Prop := BothAnswer (SameAwareness o.chrono (NothingNew o s later))
  (some (Rpc.handleQueryAwareness o q.request)) (queryAwareness o s later q.message)

/-- There is no awareness of the file, and JSON-RPC answers with null. -/
def Lenient : Prop :=
  Rpc.handleQueryAwareness o q.request = .ofResult q.request.id .null ∧
    (o.awareness q.message.projectId q.message.path = .ok none ∧
      queryAwareness o s later q.message =
        .error (.error .notFound "no awareness data found") ∨
    (∃ e, o.awareness q.message.projectId q.message.path = .error e) ∧
      queryAwareness o s later q.message =
        .error (.error .internal "failed to build awareness"))

theorem answered_or_lenient (d : Disk ι) (planner : Planner) (storePath : PathBuf) :
    q.Answered (o.onDisk s d planner storePath) s later ∨
      q.Lenient (o.onDisk s d planner storePath) s later := by
  unfold Answered Lenient queryAwareness
  rw [Rpc.handleQueryAwareness_eq q.params q.projectId q.path]
  rcases h : (o.onDisk s d planner storePath).awareness q.message.projectId q.message.path
    with e | _ | a
  · exact .inr ⟨rfl, .inr ⟨⟨e, rfl⟩, rfl⟩⟩
  · exact .inr ⟨rfl, .inl ⟨rfl, rfl⟩⟩
  · obtain ⟨hpath, hproject, hagent⟩ := Disk.of_buildAwareness h
    refine .inl (.inr ⟨_, _, _, rfl, rfl, ?_⟩)
    refine ⟨?_, ?_, rfl, rfl, rfl, rfl, rfl, fun hnew => ?_⟩
    · rw [← hpath]
      rfl
    · rw [← hproject]
      rfl
    · have hlater : a.activeAgent = s.getActiveAgent o later q.message.path :=
        hagent.trans (NothingNew.getActiveAgent hnew q.message.path)
      rw [show ServerState.getActiveAgent (o.onDisk s d planner storePath) s later
        q.message.path = a.activeAgent from hlater.symm]
      rfl

end SharedAwareness

namespace SharedRequest

def Answered (o : Outside) (s : ServerState) (later : String → DateTime) : SharedRequest → Prop
  | events q => q.Answered o
  | awareness q => q.Answered o s later

def Lenient (o : Outside) (s : ServerState) (later : String → DateTime) : SharedRequest → Prop
  | events q => q.Lenient o
  | awareness q => q.Lenient o s later

/-- Both protocols fail or both answer with the same, but where JSON-RPC has an empty result and
gRPC an error. -/
theorem both_answer_or_lenient {ι : Type} (o : Outside) (s : ServerState)
    (later : String → DateTime) (d : Disk ι) (planner : Planner) (storePath : PathBuf)
    (r : SharedRequest) : r.Answered (o.onDisk s d planner storePath) s later ∨
      r.Lenient (o.onDisk s d planner storePath) s later := by
  cases r with
  | events q => exact q.answered_or_lenient _
  | awareness q => exact q.answered_or_lenient o s later d planner storePath

open Rpc.ConnectionAudit (idle idleOutside)

/-- The last ten events of the user in a project within an hour. -/
def userEvents : SharedQuery where
  request := ⟨"2.0", "query_events", some (.object [("limit", .number (.posInt 10)),
    ("project_id", .string "app"), ("since", .number (.posInt 3600)),
    ("source", .string "user")]), .number 1⟩
  message := ⟨some "app", some 3600, some "user", some 10⟩
  members := [("limit", .number (.posInt 10)), ("project_id", .string "app"),
    ("since", .number (.posInt 3600)), ("source", .string "user")]
  params := rfl
  projectId := rfl
  since := rfl
  source := rfl
  limit := rfl
  limit_lt := by simp

/-- Of an empty file both find no events. -/
theorem both_answer_user : (events userEvents).Answered
    (idleOutside.onDisk idle AgentServer.oneFile .byId (.ofString "")) idle fun _ => .epoch := by
  refine (both_answer_or_lenient idleOutside idle (fun _ => .epoch) AgentServer.oneFile .byId
    (.ofString "") (events userEvents)).resolve_right ?_
  rintro ⟨⟨f, e, hf, herror⟩, -⟩
  cases hf
  cases herror

def unknownFile : SharedAwareness where
  request := ⟨"2.0", "query_awareness",
    some (.object [("path", .string "src/a.rs"), ("project_id", .string "app")]), .number 1⟩
  message := ⟨"app", "src/a.rs"⟩
  members := [("path", .string "src/a.rs"), ("project_id", .string "app")]
  params := rfl
  projectId := rfl
  path := rfl

/-- A file without events has null in the one protocol and an error in the other. -/
theorem not_both_answer : ¬ ∀ {ι : Type} (o : Outside) (s : ServerState)
    (later : String → DateTime) (d : Disk ι) (planner : Planner) (storePath : PathBuf)
    (r : SharedRequest), r.Answered (o.onDisk s d planner storePath) s later := by
  intro h
  rcases h idleOutside idle (fun _ => .epoch) AgentServer.oneFile .byId (.ofString "")
    (.awareness unknownFile) with ⟨hjson, -⟩ | ⟨id, v, m, -, hgrpc, -⟩
  · exact hjson (.number 1) .null rfl
  · cases hgrpc

end SharedRequest

end AmbientFs
