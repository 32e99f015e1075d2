import AmbientFs.GrpcService
import AmbientFs.Proofs.ReplyRule

/-!
# Changes in the two protocols

A change that is asked for over gRPC does to the state what it does when it is asked for in
JSON-RPC, and it is answered alike: the same result, or an error of the same kind. So it does not
matter which of the changes of a run come in over which protocol.
-/

namespace AmbientFs

/-- The status with which gRPC answers an error of JSON-RPC. -/
def ProtocolError.statusCode (e : ProtocolError) : Option StatusCode :=
  if e.code = -32602 ∨ e.code = -1004 then some .invalidArgument
  else if e.code = -1001 then some .notFound
  else if e.code = -1002 then some .alreadyExists
  else if e.code = -1003 ∨ e.code = -32603 then some .internal
  else none

/-- The result of JSON-RPC for a response. -/
def ChangeResponse.toValue : ChangeResponse → JsonValue
  | watching projectId => .object [("project_id", .string projectId), ("watching", .bool true)]
  | unwatched => .bool true
  | attributed => .object [("attributed", .bool true)]

/-- The parameters of a change, and the method that is asked for it. -/
inductive ChangeRequest.SameParams (members : List (String × JsonValue)) :
    ChangeRequest → String → Prop
  | watchProject (path : String) (h : stringParam members "path" = some path) :
      SameParams members (.watchProject path) "watch_project"
  | unwatchProject (projectId : String)
      (h : stringParam members "project_id" = some projectId) :
      SameParams members (.unwatchProject projectId) "unwatch_project"
  | «attribute» (req : AttributeRequest)
      (hfile : stringParam members "file_path" = some req.filePath)
      (hproject : stringParam members "project_id" = some req.projectId)
      (hsource : stringParam members "source" = some req.source)
      (hid : stringParam members "source_id" = req.sourceId) :
      SameParams members (.attribute req) "attribute"

/-- The same change in JSON-RPC, under any id and with any further members. -/
def ChangeRequest.Same (req : ChangeRequest) (rpc : Rpc.Request) : Prop :=
  ∃ members, rpc.params = some (.object members) ∧ req.SameParams members rpc.method

inductive ServerReply.Same : ServerReply → ServerReply → Prop
  | same (r : ServerReply) : Same r r
  | result (id : Rpc.Id) (response : ChangeResponse) :
      Same (.grpc (.ok response)) (.rpc (some (.ofResult id response.toValue)))
  | error (id : Rpc.Id) {status : Status} {e : ProtocolError}
      (h : e.statusCode = some status.code) :
      Same (.grpc (.error status)) (.rpc (some (.ofError id e)))

inductive ServerCall.Same : ServerCall → ServerCall → Prop
  | same (c : ServerCall) : Same c c
  | change (o : Outside) (ioError : String) (connection : ℕ) {req : ChangeRequest}
      {rpc : Rpc.Request} (h : req.Same rpc) :
      Same (.grpc o ioError req) (.rpc o connection rpc)

namespace GrpcService

variable (o : Outside) (s : ServerState) (subs : Rpc.Subscriptions) (ioError : String)
  {rpc : Rpc.Request} {members : List (String × JsonValue)}

/-- What both servers make of a change. -/
def Agrees (r : ServerState × Except Status ChangeResponse)
    (r' : ServerState × Rpc.Subscriptions × Option Rpc.Response) : Prop :=
  r'.1 = r.1 ∧ r'.2.1 = subs ∧ ServerReply.Same (.grpc r.2) (.rpc r'.2.2)

theorem agrees_error (id : Rpc.Id) {status : Status} {e : ProtocolError}
    (h : e.statusCode = some status.code) :
    Agrees subs (s, .error status) (s, subs, some (.ofError id e)) :=
  ⟨rfl, rfl, .error id h⟩

theorem handleRequest_watch (hmethod : rpc.method = "watch_project") :
    Rpc.handleRequest o s subs rpc =
      ((Rpc.handleWatchProject o s rpc).1, subs, some (Rpc.handleWatchProject o s rpc).2) := by
  unfold Rpc.handleRequest
  rw [hmethod]
  rfl

theorem watchProject_agrees {path : String} (hmethod : rpc.method = "watch_project")
    (hparams : rpc.params = some (.object members))
    (hpath : stringParam members "path" = some path) :
    Agrees subs (watchProject o s ioError path) (Rpc.handleRequest o s subs rpc) := by
  rw [handleRequest_watch o s subs hmethod]
  unfold watchProject Rpc.handleWatchProject Registry.validateWatch
  simp only [Rpc.Request.extractObjectParams, hparams, Option.bind_some, hpath]
  by_cases hexists : o.look.pathExists = false
  · rw [if_pos hexists, if_pos hexists]
    exact agrees_error s subs rpc.id rfl
  rw [if_neg hexists, if_neg hexists]
  by_cases hdir : o.look.isDir = false
  · rw [if_pos hdir, if_pos hdir]
    exact agrees_error s subs rpc.id rfl
  rw [if_neg hdir, if_neg hdir]
  rcases o.look.canonical with _ | canonical
  · exact agrees_error s subs rpc.id rfl
  simp only
  by_cases hwatching :
      (s.registry.projects canonical.generateProjectId).any (·.Same canonical) = true
  · rw [if_pos hwatching, if_pos hwatching]
    exact agrees_error s subs rpc.id rfl
  rw [if_neg hwatching, if_neg hwatching]
  by_cases hstarts : o.look.starts = false
  · rw [if_pos hstarts, if_pos hstarts]
    exact agrees_error s subs rpc.id rfl
  rw [if_neg hstarts, if_neg hstarts]
  rcases Watching.new.start.dropReceiver.watch canonical o.look.canonicalExists
    o.look.notifyError with e | watcher
  · exact agrees_error s subs rpc.id rfl
  · exact ⟨rfl, rfl, .result rpc.id (.watching canonical.generateProjectId)⟩

theorem unwatchProject_agrees {projectId : String} (hmethod : rpc.method = "unwatch_project")
    (hparams : rpc.params = some (.object members))
    (hproject : stringParam members "project_id" = some projectId) :
    Agrees subs (unwatchProject s projectId) (Rpc.handleRequest o s subs rpc) := by
  have hhandle : Rpc.handleRequest o s subs rpc =
      ((Rpc.handleUnwatchProject s rpc).1, subs, some (Rpc.handleUnwatchProject s rpc).2) := by
    unfold Rpc.handleRequest
    rw [hmethod]
    rfl
  rw [hhandle]
  unfold unwatchProject Rpc.handleUnwatchProject
  simp only [Rpc.Request.extractObjectParams, hparams, Option.bind_some, hproject]
  rcases s.registry.projects projectId with _ | path
  · exact agrees_error s subs rpc.id rfl
  · exact ⟨rfl, rfl, .result rpc.id .unwatched⟩

theorem attribute_agrees {req : AttributeRequest} (hmethod : rpc.method = "attribute")
    (hparams : rpc.params = some (.object members))
    (hfile : stringParam members "file_path" = some req.filePath)
    (hproject : stringParam members "project_id" = some req.projectId)
    (hsource : stringParam members "source" = some req.source)
    (hid : stringParam members "source_id" = req.sourceId) :
    Agrees subs («attribute» o s req) (Rpc.handleRequest o s subs rpc) := by
  have hhandle : Rpc.handleRequest o s subs rpc =
      ((Rpc.handleAttribute o s rpc).1, subs, some (Rpc.handleAttribute o s rpc).2) := by
    unfold Rpc.handleRequest
    rw [hmethod]
    rfl
  rw [hhandle]
  unfold «attribute» Rpc.handleAttribute EventServer.handleAttribute
  simp only [Rpc.Request.extractObjectParams, hparams, Option.map_some, hfile, hproject, hsource,
    hid]
  rcases Source.fromStr req.source with e | source
  · exact agrees_error s subs rpc.id rfl
  simp only
  by_cases hopens : o.writes.opens = true
  · rw [if_pos hopens, if_pos hopens]
    by_cases hinserts : o.writes.inserts = true
    · rw [if_pos hinserts, if_pos hinserts]
      exact ⟨rfl, rfl, .result rpc.id .attributed⟩
    · rw [if_neg hinserts, if_neg hinserts]
      exact agrees_error s subs rpc.id rfl
  · rw [if_neg hopens, if_neg hopens]
    exact agrees_error s subs rpc.id rfl

theorem change_agrees {req : ChangeRequest} (h : req.Same rpc) :
    Agrees subs (change o s ioError req) (Rpc.handleRequest o s subs rpc) := by
  obtain ⟨jsonrpc, method, params, id⟩ := rpc
  obtain ⟨members, hparams, hsame⟩ := h
  cases hsame with
  | watchProject path hpath => exact watchProject_agrees o s subs ioError rfl hparams hpath
  | unwatchProject projectId hproject => exact unwatchProject_agrees o s subs rfl hparams hproject
  | «attribute» req hfile hproject hsource hid =>
    exact attribute_agrees o s subs rfl hparams hfile hproject hsource hid

end GrpcService

/-- Servers that differ only in the protocols of their answers. -/
def Servers.Same (s s' : Servers) : Prop :=
  s.state = s'.state ∧ s.connections = s'.connections ∧
    List.Forall₂ ServerReply.Same s.replies s'.replies

theorem ServerReply.same_refl (replies : List ServerReply) :
    List.Forall₂ ServerReply.Same replies replies :=
  List.forall₂_same.2 fun r _ => .same r

theorem Servers.Same.step {s s' : Servers} {c c' : ServerCall} (h : s.Same s')
    (hc : ServerCall.Same c c') : (s.step c).Same (s'.step c') := by
  obtain ⟨hstate, hconnections, hreplies⟩ := h
  cases hc with
  | same c =>
    cases c with
    | rpc o connection req =>
      simp only [Servers.step, Servers.Same, hstate, hconnections]
      exact ⟨trivial, trivial, List.rel_append hreplies (ServerReply.same_refl _)⟩
    | grpc o ioError req =>
      simp only [Servers.step, Servers.Same, hstate, hconnections]
      exact ⟨trivial, trivial, List.rel_append hreplies (ServerReply.same_refl _)⟩
  | change o ioError connection hreq =>
    obtain ⟨hstate', hsubs, hreply⟩ := GrpcService.change_agrees o s'.state
      (s'.connections connection) ioError hreq
    simp only [Servers.step, Servers.Same, hstate, hconnections, hsubs, Function.update_eq_self]
    exact ⟨hstate'.symm, trivial, List.rel_append hreplies (.cons hreply .nil)⟩

/-- **Over every run of calls to both servers, any of the changes asked for over gRPC can be asked
for in JSON-RPC instead, on any connection: the state is the same in the end and every call is
answered alike.** -/
theorem Servers.changes_same {as as' : List ServerCall}
    (h : List.Forall₂ ServerCall.Same as as') (s : Servers) :
    (Run.after Servers.step s as).Same (Run.after Servers.step s as') := by
  refine Run.after_related Servers.Same (fun s s' c c' h hc => ?_) h
    ⟨rfl, rfl, ServerReply.same_refl s.replies⟩
  exact h.step hc

open Rpc.ConnectionAudit (idle idleOutside) in
theorem Servers.changes_same_attribute :
    (Run.after Servers.step ⟨idle, fun _ => ∅, []⟩
      [.grpc idleOutside "" (.attribute ⟨"src/a.rs", "app", "user", none⟩)]).Same
    (Run.after Servers.step ⟨idle, fun _ => ∅, []⟩
      [.rpc idleOutside 0 ⟨"2.0", "attribute", some (.object [("file_path", .string "src/a.rs"),
        ("project_id", .string "app"), ("source", .string "user")]), .number 1⟩]) :=
  Servers.changes_same (.cons (.change idleOutside "" 0
    ⟨_, rfl, .attribute _ (by decide) (by decide) (by decide) (by decide)⟩) .nil) _

end AmbientFs
