import AmbientFs.Proofs.ClientSince
import AmbientFs.Proofs.PythonApi
import AmbientFs.Proofs.Retention

/-!
# What the readers of the events find

The Rust client, the Python client, gRPC and the command line each make a filter of what they are
given. Those whose filters are the same find the same events, which are of those that are kept.
-/

namespace AmbientFs

namespace Python

/-- The filter that the server makes of the client's. What is no `i64` is no instant, and what is no
`u64` is no limit. -/
def EventFilter.served (now : DateTime) (filter : EventFilter) :
    Except FilterError AmbientFs.EventFilter :=
  AmbientFs.EventFilter.ofRequest now (filter.projectId.filter (· ≠ ""))
    (filter.since.filter fun n => -2 ^ 63 ≤ n ∧ n < 2 ^ 63) (filter.source.filter (· ≠ ""))
    ((filter.limit.filter fun n => 0 ≤ n ∧ n < 2 ^ 64).map Int.toNat)

theorem lookup_textMember (key name : String) (text : Option String) :
    (textMember key text).lookup name =
      if name = key then (text.filter (· ≠ "")).map Json.Value.string else none := by
  rcases text with _ | s
  · simp [textMember]
  · by_cases hs : s = ""
    · simp [textMember, hs]
    · by_cases hname : name = key
      · simp [textMember, hs, hname]
      · simp [textMember, hs, hname, List.lookup_cons, beq_eq_false_iff_ne.2 hname]

theorem lookup_numberMember (key name : String) (n : Option ℤ) :
    ((n.map fun n => (key, Json.Value.number (JsonNumber.ofInt n))).toList).lookup name =
      if name = key then n.map fun n => Json.Value.number (JsonNumber.ofInt n) else none := by
  rcases n with _ | n
  · simp
  · by_cases hname : name = key
    · simp [hname]
    · simp [hname, List.lookup_cons, beq_eq_false_iff_ne.2 hname]

theorem queryFilter_members (now : DateTime) (filter : EventFilter) :
    queryFilter now filter.members = filter.served now := by
  obtain ⟨projectId, since, source, limit⟩ := filter
  unfold queryFilter EventFilter.members EventFilter.served
  simp only [List.lookup_append, lookup_textMember, lookup_numberMember, if_true,
    String.reduceEq, if_false, Option.none_or, Option.or_none]
  congr 1
  · rcases projectId.filter (· ≠ "") with _ | s <;> rfl
  · rcases since with _ | n
    · rfl
    · simp [Json.Value.asNumber, JsonNumber.asI64_ofInt, Option.filter]
  · rcases source.filter (· ≠ "") with _ | s <;> rfl
  · rcases limit with _ | n
    · rfl
    · simp [Json.Value.asNumber, JsonNumber.asU64_ofInt, Option.filter]

/-- The request is read, and its answer makes the call return so, or raise if its line is too
long. -/
def Call.Returns (serde : SerdeJson) (o : Outside) (s : ServerState) (call : Call)
    (returned : Returned) : Prop :=
  ∀ subs id, id < 2 ^ 63 → ∃ req r, Rpc.Request.fromValue (call.request id) = some req ∧
    (Rpc.handleRequest o s subs req).2.2 = some r ∧
    let line := serde.toStr r.toValue
    call.finish line r.toValue =
      if (Utf8.encode line).length ≤ lineLimit then .ok returned else .error (.call .line)

end Python

variable {serde : SerdeJson} {o : Outside} {f : EventFilter} {found : List FileEvent}

open Sql (secondEvent)

end AmbientFs
