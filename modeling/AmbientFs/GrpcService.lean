import AmbientFs.Handlers

/-!
# Changes over gRPC

The requests of the gRPC server that change something, beside those of the socket server: both
servers share their state. What the sockets and the streams transport is not modelled.
-/

namespace AmbientFs

inductive StatusCode
  | invalidArgument
  | notFound
  | alreadyExists
  | internal
  deriving DecidableEq

structure Status where
  code : StatusCode
  message : String
  deriving DecidableEq

structure AttributeRequest where
  filePath : String
  projectId : String
  source : String
  sourceId : Option String

inductive ChangeRequest
  | watchProject (path : String)
  | unwatchProject (projectId : String)
  | «attribute» (req : AttributeRequest)

inductive ChangeResponse
  | watching (projectId : String)
  | unwatched
  | attributed
  deriving DecidableEq

namespace GrpcService

variable (o : Outside) (s : ServerState)

/-- `ioError` is the text of the error, if the path cannot be canonicalized. -/
def watchProject (ioError path : String) : ServerState × Except Status ChangeResponse :=
  if o.look.pathExists = false then
    (s, .error ⟨.invalidArgument, "path does not exist: " ++ path⟩)
  else if o.look.isDir = false then
    (s, .error ⟨.invalidArgument, "path is not a directory: " ++ path⟩)
  else
    match o.look.canonical with
    | none => (s, .error ⟨.invalidArgument, "cannot canonicalize path: " ++ ioError⟩)
    | some canonical =>
      let projectId := canonical.generateProjectId
      if (s.registry.projects projectId).any (·.Same canonical) then
        (s, .error ⟨.alreadyExists, "already watching: " ++ path⟩)
      else if o.look.starts = false then
        (s, .error ⟨.internal, "failed to start watcher for: " ++ path⟩)
      else
        match Watching.new.start.dropReceiver.watch canonical o.look.canonicalExists
          o.look.notifyError with
        | .error e => (s, .error ⟨.internal, "failed to watch " ++ path ++ ": " ++ e.message⟩)
        | .ok watcher =>
          ({ s with
            registry := (s.registry.addProject projectId canonical).addWatcher projectId watcher
            pending := s.pending ++ [.add projectId canonical] }, .ok (.watching projectId))

def unwatchProject (projectId : String) : ServerState × Except Status ChangeResponse :=
  match s.registry.projects projectId with
  | none => (s, .error ⟨.notFound, "project not found: " ++ projectId⟩)
  | some _ =>
    ({ s with
      registry := (s.registry.removeWatcher projectId).removeProject projectId
      pending := s.pending ++ [.remove projectId] }, .ok .unwatched)

def «attribute» (req : AttributeRequest) : ServerState × Except Status ChangeResponse :=
  match Source.fromStr req.source with
  | .error _ => (s, .error ⟨.invalidArgument, "invalid source: " ++ req.source⟩)
  | .ok source =>
    let event :=
      (FileEvent.new o.now .modified req.filePath req.projectId s.machineId).withSource source
    let event :=
      match req.sourceId with
      | some sourceId => event.withSourceId sourceId
      | none => event
    if o.writes.opens then
      if o.writes.inserts then
        ({ s with
          store := s.store.insert event
          subscriptions := s.subscriptions.broadcast (.event event) }, .ok .attributed)
      else (s, .error ⟨.internal, "attribute failed"⟩)
    else (s, .error ⟨.internal, "attribute failed"⟩)

def change (ioError : String) : ChangeRequest → ServerState × Except Status ChangeResponse
  | .watchProject path => watchProject o s ioError path
  | .unwatchProject projectId => unwatchProject s projectId
  | .attribute req => «attribute» o s req

end GrpcService

/-! ## Both servers -/

inductive ServerReply
  | rpc (response : Option Rpc.Response)
  | grpc (result : Except Status ChangeResponse)

/-- The servers with the connections to the socket, and what they have answered. -/
structure Servers where
  state : ServerState
  connections : ℕ → Rpc.Subscriptions
  replies : List ServerReply

inductive ServerCall
  /-- A request on a connection to the socket. -/
  | rpc (o : Outside) (connection : ℕ) (req : Rpc.Request)
  | grpc (o : Outside) (ioError : String) (req : ChangeRequest)

def Servers.step (s : Servers) : ServerCall → Servers
  | .rpc o connection req =>
    let r := Rpc.handleRequest o s.state (s.connections connection) req
    { state := r.1
      connections := Function.update s.connections connection r.2.1
      replies := s.replies ++ [.rpc r.2.2] }
  | .grpc o ioError req =>
    let r := GrpcService.change o s.state ioError req
    { s with
      state := r.1
      replies := s.replies ++ [.grpc r.2] }

end AmbientFs
