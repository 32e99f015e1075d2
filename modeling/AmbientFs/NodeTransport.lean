import AmbientFs.Lib.Json
import AmbientFs.Lib.Lines
import AmbientFs.Lib.Utf8

/-!
# The transport of the Node client

The socket hands over chunks of bytes. Each is decoded and added to the buffer, and what the
buffer has up to its last line feed is handled line by line. How a text is read as JSON, and the
type of its numbers, are parameters.
-/

namespace AmbientFs

/-- What `String.prototype.trim` removes. -/
def jsWhiteSpace (c : Char) : Bool :=
  (Lines.whiteSpace c && c.toNat ≠ 0x85) || c.toNat = 0xfeff

section Truthy

variable {ν : Type} [DecidableEq ν] [Zero ν]

/-- Whether a value counts as true. -/
def isTruthy : Json.Value ν → Bool
  | .null => false
  | .bool b => b
  | .number n => n ≠ 0
  | .string s => s ≠ ""
  | .array _ => true
  | .object _ => true

end Truthy

/-- A message that is handed on. -/
inductive Dispatched (ν : Type)
  | response (msg : Json.Value ν)
  | notification (msg : Json.Value ν)

/-- How a request ends. -/
inductive Settled (ν : Type)
  | resolve (result : Option (Json.Value ν))
  | reject (message code : Option (Json.Value ν))

structure Transport (ν : Type) where
  /-- The requests that wait, by their ids. -/
  pending : List ν
  /-- Whether there is a callback for notifications. -/
  notificationCallback : Bool
  buffer : List Char
  dispatched : List (Dispatched ν)
  settled : List (ν × Settled ν)

namespace Transport

variable {ν : Type} [DecidableEq ν] [Zero ν]

def new (pending : List ν) (notificationCallback : Bool) : Transport ν :=
  ⟨pending, notificationCallback, [], [], []⟩

variable (t : Transport ν)

def handleResponse (id : ν) (response : Json.Value ν) : Transport ν :=
  let t := { t with dispatched := t.dispatched ++ [.response response] }
  if id ∉ t.pending then t
  else
    let settled := match response.get "error" with
      | some error =>
        if isTruthy error then .reject (error.get "message") (error.get "code")
        else .resolve (response.get "result")
      | none => .resolve (response.get "result")
    { t with
      pending := t.pending.filter (· ≠ id)
      settled := t.settled ++ [(id, settled)] }

def notify (msg : Json.Value ν) : Transport ν :=
  if t.notificationCallback then { t with dispatched := t.dispatched ++ [.notification msg] }
  else t

/-- A text that is not JSON, or is JSON but has no members, is logged or left. -/
def handleLine (parse : List Char → Option (Json.Value ν)) (t : Transport ν) (line : List Char) :
    Transport ν :=
  if Lines.trim jsWhiteSpace line = [] then t
  else
    match parse line with
    | some (.object msg) =>
      match msg.lookup "id" with
      | some (.number id) => t.handleResponse id (.object msg)
      | _ => if (msg.lookup "method").isSome then t.notify (.object msg) else t
    | _ => t

def handleData (parse : List Char → Option (Json.Value ν)) (t : Transport ν)
    (data : List UInt8) : Transport ν :=
  let lines := (t.buffer ++ Utf8.decode data).splitOn '\n'
  { lines.dropLast.foldl (handleLine parse) t with buffer := lines.getLast?.getD [] }

/-- The chunks of a connection. -/
def receive (parse : List Char → Option (Json.Value ν)) (t : Transport ν)
    (chunks : List (List UInt8)) : Transport ν := chunks.foldl (handleData parse) t

end Transport

/-- A message as it is written: a text of one line that is not blank. -/
structure MessageText where
  text : List Char
  oneLine : '\n' ∉ text
  notBlank : Lines.trim jsWhiteSpace text ≠ []

/-- The bytes of the messages, each with a line feed after it. -/
def sentBytes (messages : List MessageText) : List UInt8 :=
  Utf8.encode (Lines.terminated (messages.map (·.text)))

end AmbientFs
