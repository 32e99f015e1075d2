import AmbientFs.Lib.Json
import AmbientFs.Lib.Run

/-!
# The transport of the Python client

A call holds the lock while it sends its request and reads one line, so the calls of a connection
follow each other and the lines that come in wait in the stream. A call that times out, is
cancelled or cannot write leaves the stream as it is. How a text is read as JSON, and the type of
its numbers, are parameters.
-/

namespace AmbientFs

variable {ν : Type}

/-- What a call raises. -/
inductive CallError (ν : Type)
  /-- The request was not written. -/
  | write
  | timeout
  | cancelled
  /-- A line that is too long or is not UTF-8. -/
  | line
  | invalidResponse (text : String)
  /-- What was read is not an object, or its error has no code or message. -/
  | lookup
  | daemonError (code message : Json.Value ν)

/-- What a call returns for the text of a line. -/
def parseResponse (loads : List Char → Option (Json.Value ν)) (responseLine : List Char) :
    Except (CallError ν) (Json.Value ν) :=
  let text := String.ofList responseLine
  match loads responseLine with
  | none => .error (.invalidResponse ("invalid json: " ++ text))
  | some (.object response) =>
    if (response.lookup "jsonrpc").bind Json.Value.asStr ≠ some "2.0" then
      .error (.invalidResponse ("missing jsonrpc version: " ++ text))
    else
      match response.lookup "error" with
      | some error =>
        match error.get "code", error.get "message" with
        | some code, some message => .error (.daemonError code message)
        | _, _ => .error .lookup
      | none =>
        match response.lookup "result" with
        | none => .error (.invalidResponse ("no result or error: " ++ text))
        | some result => .ok result
  | some _ => .error .lookup

/-- A call that is over, with the line it has read. -/
structure FinishedCall (ν : Type) where
  id : ℕ
  responseLine : Option (List Char)
  reply : Except (CallError ν) (Json.Value ν)

structure JsonRpcClient (ν : Type) where
  nextId : ℕ
  /-- The lines that have come in and were not read, without a text if reading them fails. -/
  stream : List (Option (List Char))
  /-- Whether the stream has ended after them. -/
  atEof : Bool
  /-- The request of the call that holds the lock and has written. -/
  calling : Option ℕ
  finished : List (FinishedCall ν)

inductive CallAction
  /-- A line comes in: a response, a notification or something else. -/
  | arrive (line : Option (List Char))
  | feedEof
  /-- The next call gets the lock and writes its request. -/
  | call (written : Bool)
  /-- The call reads a line. -/
  | readLine
  | timeout
  | cancel

namespace JsonRpcClient

def new : JsonRpcClient ν := ⟨1, [], false, none, []⟩

variable (c : JsonRpcClient ν)

/-- The call that holds the lock is over. -/
def finish (id : ℕ) (responseLine : Option (List Char))
    (reply : Except (CallError ν) (Json.Value ν)) : JsonRpcClient ν :=
  { c with calling := none, finished := c.finished ++ [⟨id, responseLine, reply⟩] }

def call (written : Bool) : JsonRpcClient ν :=
  match c.calling with
  | some _ => c
  | none =>
    let next := { c with nextId := c.nextId + 1 }
    if written then { next with calling := some c.nextId }
    else next.finish c.nextId none (.error .write)

def readLine (loads : List Char → Option (Json.Value ν)) : JsonRpcClient ν :=
  match c.calling, c.stream with
  | none, _ => c
  | some id, [] =>
    if c.atEof then
      c.finish id none (.error (.invalidResponse "connection closed by daemon"))
    else c
  | some id, none :: rest => { c with stream := rest }.finish id none (.error .line)
  | some id, some text :: rest =>
    { c with stream := rest }.finish id (some text) (parseResponse loads text)

/-- The call that waits for its line raises. -/
def giveUp (error : CallError ν) : JsonRpcClient ν :=
  match c.calling with
  | none => c
  | some id => c.finish id none (.error error)

def step (loads : List Char → Option (Json.Value ν)) (c : JsonRpcClient ν) :
    CallAction → JsonRpcClient ν
  | .arrive line => if c.atEof then c else { c with stream := c.stream ++ [line] }
  | .feedEof => { c with atEof := true }
  | .call written => c.call written
  | .readLine => c.readLine loads
  | .timeout => c.giveUp .timeout
  | .cancel => c.giveUp .cancelled

end JsonRpcClient

end AmbientFs
