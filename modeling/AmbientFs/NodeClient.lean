import AmbientFs.Lib.Run
import AmbientFs.NodeTransport

/-!
# The Node client

A request takes the next id, waits in the map of pending requests and sets a timeout. It ends with
its response, with its timeout, with an error of its write or when the transport is closed. What
happens to its promise is listed: the first of it counts. The numbers of JSON are rationals here.
-/

namespace AmbientFs

structure JsonRpcRequest where
  method : String
  params : Option (Json.Value ℚ)
  id : ℕ

structure NodeClient where
  transport : Transport ℚ
  /-- Whether there is a socket. -/
  socket : Bool
  requestId : ℕ
  /-- The requests whose timeout is set. -/
  timeouts : List ℚ
  /-- What has been written, and the requests whose write has not been called back. -/
  written : List JsonRpcRequest
  writing : List ℚ

namespace NodeClient

inductive Action
  | connect
  | close
  | request (method : String) (params : Option (Json.Value ℚ))
  | timeout (id : ℕ)
  /-- The write of a request is called back. -/
  | wrote (id : ℕ) (error : Option String)
  | data (bytes : List UInt8)

/-- The client sets no callback for notifications. -/
def new : NodeClient := ⟨.new [] false, false, 1, [], [], []⟩

/-- An error of the transport itself. -/
def failure (message code : String) : Settled ℚ :=
  .reject (some (.string message)) (some (.string code))

def notConnected : Settled ℚ := failure "daemon not connected" "NOT_CONNECTED"

variable (c : NodeClient)

/-- How the promise of a request ended. -/
def outcome (id : ℕ) : Option (Settled ℚ) := c.transport.settled.lookup (id : ℚ)

/-- Takes a request out of the map, clears its timeout and rejects it. -/
def fail (id : ℚ) (error : Settled ℚ) : NodeClient :=
  { c with
    transport := { c.transport with
      pending := c.transport.pending.filter (· ≠ id)
      settled := c.transport.settled ++ [(id, error)] }
    timeouts := c.timeouts.filter (· ≠ id) }

def close : NodeClient :=
  { c with
    transport := { c.transport with
      pending := []
      settled := c.transport.settled ++ c.transport.pending.map fun id => (id, notConnected) }
    timeouts := c.timeouts.filter (· ∉ c.transport.pending)
    socket := false }

/-- Without a socket the request fails at once, and takes no id. -/
def request (method : String) (params : Option (Json.Value ℚ)) : NodeClient :=
  if c.socket then { c with
    requestId := c.requestId + 1
    transport := { c.transport with pending := c.transport.pending ++ [(c.requestId : ℚ)] }
    timeouts := c.timeouts ++ [(c.requestId : ℚ)]
    written := c.written ++ [⟨method, params, c.requestId⟩]
    writing := c.writing ++ [(c.requestId : ℚ)] }
  else c

def timeout (id : ℕ) : NodeClient :=
  if (id : ℚ) ∈ c.timeouts then c.fail id (failure "operation timed out" "TIMEOUT") else c

/-- A write that fails rejects its request, whatever has happened to it. -/
def wrote (id : ℕ) (error : Option String) : NodeClient :=
  if (id : ℚ) ∈ c.writing then
    let c := { c with writing := c.writing.filter (· ≠ (id : ℚ)) }
    match error with
    | none => c
    | some error => c.fail id (failure ("write failed: " ++ error) "NOT_CONNECTED")
  else c

/-- The timeouts of the requests that are answered are cleared. -/
def data (parse : List Char → Option (Json.Value ℚ)) (bytes : List UInt8) : NodeClient :=
  if c.socket then
    let transport := c.transport.handleData parse bytes
    let answered := (transport.settled.drop c.transport.settled.length).map Prod.fst
    { c with transport := transport, timeouts := c.timeouts.filter (· ∉ answered) }
  else c

def step (parse : List Char → Option (Json.Value ℚ)) (c : NodeClient) : Action → NodeClient
  | .connect => { c with socket := true }
  | .close => c.close
  | .request method params => c.request method params
  | .timeout id => c.timeout id
  | .wrote id error => c.wrote id error
  | .data bytes => c.data parse bytes

end NodeClient

end AmbientFs
