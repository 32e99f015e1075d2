import AmbientFs.Handlers
import AmbientFs.Lib.Lines
import AmbientFs.Lib.Utf8

/-!
# A connection

The loop of a connection of the socket server. With subscriptions it first tries to receive once
from each of them, and then waits a little for a line; without, it waits for a line only. The lines
come from the client as bytes; a line that is not UTF-8 is an error of reading, which ends the
connection, and so does a panic. The client, the other connections and the event loop go on between
any two steps. Writing does not fail.
-/

namespace AmbientFs

namespace Rpc

inductive Written
  | response (r : Response)
  | notification (n : Notification)

def Written.asResponse : Written → Option Response
  | response r => some r
  | notification _ => none

/-- Where the loop of a connection is. -/
inductive Phase
  | top
  /-- The subscriptions it has not tried in this round. -/
  | polling (rest : List String)
  | selecting
  | ended
  deriving DecidableEq

structure Connection where
  server : ServerState
  subscriptions : Subscriptions
  phase : Phase
  /-- The lines the client has sent that have not been read. -/
  unread : List (List UInt8)
  /-- The client sends no more. -/
  closed : Bool
  written : List Written

inductive ConnectionAction
  /-- Other tasks change what the server has in memory, apart from the subscriptions. -/
  | other (s : ServerState)
  | publish (n : Notification)
  /-- Another connection subscribes or unsubscribes. -/
  | join (projectId : String)
  | leave (projectId : String)
  | send (line : List UInt8)
  | close
  /-- A round over the subscriptions begins, in the order of the map. -/
  | round (order : List String)
  | poll
  /-- The time for a line is over. -/
  | tick
  | read (o : Outside)
  | readError

namespace Connection

def new (s : ServerState) : Connection := ⟨s, ∅, .top, [], false, []⟩

variable (fromStr : List Char → Option JsonValue) (c : Connection)

def responses : List Response := c.written.filterMap Written.asResponse

/-- Whether the loop waits for a line: in the select, or with no subscriptions. -/
def Reads : Prop := c.phase = .selecting ∨ c.phase = .top ∧ c.subscriptions.keys = []

instance : Decidable c.Reads := inferInstanceAs (Decidable (_ ∨ _))

def round (order : List String) : Connection :=
  if c.phase = .top ∧ c.subscriptions.keys ≠ [] ∧ order.Perm c.subscriptions.keys then
    { c with phase := .polling order }
  else c

/-- Tries to receive from the next subscription. A channel that is closed loses its subscription,
and the loop starts again. -/
def poll : Connection :=
  match c.phase with
  | .polling [] => { c with phase := .selecting }
  | .polling (projectId :: rest) =>
    match c.subscriptions.lookup projectId with
    | none => { c with phase := .polling rest }
    | some receiver =>
      let r := (c.server.subscriptions.channels receiver.channel).tryRecv channelCapacity
        receiver.next
      let subscriptions := c.subscriptions.insert projectId { receiver with next := r.2 }
      match r.1 with
      | .ok n => { c with
          phase := .polling rest
          subscriptions := subscriptions
          written := c.written ++ [.notification n] }
      | .empty => { c with phase := .polling rest }
      | .lagged _ => { c with phase := .polling rest, subscriptions := subscriptions }
      | .closed => { c with phase := .top, subscriptions := c.subscriptions.erase projectId }
  | _ => c

/-- A line that is not blank, as a request if it is one. -/
def request (text : List Char) : Option (Option Request) :=
  let line := Lines.trim Lines.whiteSpace text
  if line = [] then none else some ((fromStr line).bind Request.fromValue)

/-- The request handling, which both branches of the loop have. -/
def handleLine (o : Outside) (text : List Char) : Connection :=
  match request fromStr text with
  | none => { c with phase := .top }
  | some none => { c with
      phase := .top
      written := c.written ++ [.response (.ofError .null .parseError)] }
  | some (some req) =>
    match handleRequest o c.server c.subscriptions req with
    | (server, subscriptions, some response) => { c with
        server := server
        subscriptions := subscriptions
        phase := .top
        written := c.written ++ [.response response] }
    | (_, _, none) => { c with phase := .ended }

/-- `next_line`, where it is waited for. -/
def read (o : Outside) : Connection :=
  if c.Reads then
    match c.unread with
    | [] => if c.closed then { c with phase := .ended } else c
    | line :: unread =>
      match Utf8.decode? line with
      | none => { c with phase := .ended, unread := unread }
      | some text => { c with unread := unread }.handleLine fromStr o text
  else c

def step (c : Connection) : ConnectionAction → Connection
  | .other s => { c with server := { s with subscriptions := c.server.subscriptions } }
  | .publish n => { c with server := { c.server with
      subscriptions := c.server.subscriptions.broadcast n } }
  | .join projectId => { c with server := { c.server with
      subscriptions := (c.server.subscriptions.subscribe projectId).1 } }
  | .leave projectId => { c with server := { c.server with
      subscriptions := c.server.subscriptions.unsubscribe projectId } }
  | .send line => if c.closed then c else { c with unread := c.unread ++ [line] }
  | .close => { c with closed := true }
  | .round order => c.round order
  | .poll => c.poll
  | .tick => if c.phase = .selecting then { c with phase := .top } else c
  | .read o => c.read fromStr o
  | .readError => if c.Reads then { c with phase := .ended } else c

end Connection

end Rpc

end AmbientFs
