import AmbientFs.Rpc

/-!
# The messages of the protocol

Requests and responses with all that their types have, as the derived codecs write and read them. A
number is in the range of its type, and the keys of an object are different.
-/

namespace AmbientFs

open Json.Value (asStr asNumber asOption)

def Params.toValue : Params → JsonValue
  | array items => .array items
  | object members => .object members

/-- The value as an `i32`. -/
def JsonValue.asI32 (v : JsonValue) : Option { n : ℤ // -2 ^ 31 ≤ n ∧ n < 2 ^ 31 } :=
  (v.asNumber.bind JsonNumber.asI64).bind fun n => if h : _ then some ⟨n, h⟩ else none

namespace Rpc

/-- A number is an `i64`. -/
def Id.InRange : Id → Prop
  | number n => -2 ^ 63 ≤ n ∧ n < 2 ^ 63
  | _ => True

instance Id.decidableInRange : DecidablePred InRange
  | number n => inferInstanceAs (Decidable (-2 ^ 63 ≤ n ∧ n < 2 ^ 63))
  | null => .isTrue trivial
  | string _ => .isTrue trivial

end Rpc

namespace Protocol

open Rpc (Id)

structure Request extends Rpc.Request where
  id_inRange : id.InRange
  nodup_params : ∀ members, params = some (.object members) → (members.map Prod.fst).Nodup

/-- Parameters that are absent are not written. -/
def Request.toValue (req : Request) : JsonValue := .object (
  [("jsonrpc", .string req.jsonrpc), ("method", .string req.method)] ++
  (req.params.map fun params => ("params", params.toValue)).toList ++
  [("id", req.id.toValue)])

/-- JSON-RPC error object. -/
structure Error where
  code : { n : ℤ // -2 ^ 31 ≤ n ∧ n < 2 ^ 31 }
  message : String
  data : Option JsonValue

namespace Error

def toValue (e : Error) : JsonValue := .object (
  [("code", JsonValue.ofI64 e.code), ("message", .string e.message)] ++
  (e.data.map fun data => ("data", data)).toList)

def fromValue (v : JsonValue) : Option Error := do
  let fields ← v.fieldsOnce ["code", "message", "data"]
  let code ← (fields "code").bind JsonValue.asI32
  let message ← (fields "message").bind asStr
  let data ← asOption some (fields "data")
  return ⟨code, message, data⟩

end Error

structure Response where
  jsonrpc : String
  result : Option JsonValue
  error : Option Error
  id : { id : Id // id.InRange }

namespace Response

/-- A successful response. -/
def ofResult (id : { id : Id // id.InRange }) (result : JsonValue) : Response :=
  ⟨"2.0", some result, none, id⟩

def isSuccess (r : Response) : Bool := r.error.isNone && r.result.isSome

def toValue (r : Response) : JsonValue := .object (
  [("jsonrpc", .string r.jsonrpc)] ++
  (r.result.map fun result => ("result", result)).toList ++
  (r.error.map fun error => ("error", error.toValue)).toList ++
  [("id", r.id.1.toValue)])

/-- A negative number is an `i64` where it is read. -/
def fromValue (v : JsonValue) : Option Response := do
  let fields ← v.fieldsOnce ["jsonrpc", "result", "error", "id"]
  let jsonrpc ← (fields "jsonrpc").bind asStr
  let result ← asOption some (fields "result")
  let error ← asOption Error.fromValue (fields "error")
  let id ← (fields "id").bind Id.fromValue
  if h : id.InRange then return ⟨jsonrpc, result, error, ⟨id, h⟩⟩ else none

end Response

end Protocol

end AmbientFs
