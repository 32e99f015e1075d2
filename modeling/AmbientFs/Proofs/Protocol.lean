import AmbientFs.Protocol

/-!
# What comes out of a message

A request is read as it was written, and a response with its nulls for absent: the codec reads a
field that is null as it reads one that is missing.
-/

namespace AmbientFs

open Json.Value (asOption)

/-- A null counts as absent. -/
def dropNull : Option JsonValue → Option JsonValue
  | some .null => none
  | o => o

theorem dropNull_eq_self {o : Option JsonValue} : dropNull o = o ↔ o ≠ some .null := by
  rcases o with _ | v
  · simp [dropNull]
  · cases v <;> simp [dropNull]

theorem asOption_some_eq (o : Option JsonValue) : asOption some o = some (dropNull o) := by
  rcases o with _ | v
  · rfl
  · cases v <;> rfl

theorem asI64_ofI64 {n : ℤ} (h : n < 2 ^ 63) :
    (JsonValue.ofI64 n).asNumber.bind JsonNumber.asI64 = some n := by
  unfold JsonValue.ofI64
  split_ifs with hn
  · have hlt : n.toNat < 2 ^ 63 := by omega
    have hnat : (UInt64.ofNat n.toNat).toNat = n.toNat := by
      rw [UInt64.toNat_ofNat']
      omega
    simp only [Json.Value.asNumber, Option.bind_some, JsonNumber.asI64, hnat, if_pos hlt]
    rw [Int.toNat_of_nonneg hn]
  · rfl

theorem Params.asOption_toValue {params : Params}
    (h : ∀ members, params = .object members → (members.map Prod.fst).Nodup) :
    asOption Params.fromValue (some params.toValue) = some (some params) := by
  cases params with
  | array items => rfl
  | object members =>
    rw [Params.toValue, asOption, Params.fromValue, lastMembers_of_nodup (h members rfl)]
    · rfl
    · simp

theorem JsonValue.asI32_ofI64 (code : { n : ℤ // -2 ^ 31 ≤ n ∧ n < 2 ^ 31 }) :
    (JsonValue.ofI64 code).asI32 = some code := by
  have hlt : (code : ℤ) < 2 ^ 63 := by
    have := code.2.2
    omega
  unfold JsonValue.asI32
  rw [asI64_ofI64 hlt, Option.bind_some, dif_pos code.2]

namespace Rpc

theorem Id.fromValue_toValue {id : Id} (h : id.InRange) : Id.fromValue id.toValue = some id := by
  cases id with
  | null => rfl
  | string s => rfl
  | number n =>
    have hread := asI64_ofI64 h.2
    unfold JsonValue.ofI64 at hread
    exact congrArg (Option.map number) hread

end Rpc

namespace Protocol

theorem Request.fromValue_toValue (req : Request) :
    Rpc.Request.fromValue req.toValue = some req.toRequest := by
  obtain ⟨⟨jsonrpc, method, params, id⟩, hid, hparams⟩ := req
  have hcount : ∀ names : List String, names.Nodup →
      ¬ ∃ name ∈ Rpc.Request.fieldNames, 1 < names.count name := by
    rintro names hnames ⟨name, -, hcount⟩
    have hle := List.nodup_iff_count_le_one.1 hnames name
    omega
  unfold Rpc.Request.fromValue toValue
  rcases params with _ | params
  · have hread : asOption Params.fromValue none = some none := rfl
    simp [hcount, List.lookup_cons, Rpc.Request.fromFields, Rpc.Id.fromValue_toValue hid, hread]
  · have hread := Params.asOption_toValue fun members h => hparams members (congrArg some h)
    simp [hcount, List.lookup_cons, Rpc.Request.fromFields, Rpc.Id.fromValue_toValue hid, hread]

theorem Error.fromValue_toValue (e : Error) :
    fromValue e.toValue = some { e with data := dropNull e.data } := by
  obtain ⟨code, message, data⟩ := e
  unfold fromValue toValue
  rcases data with _ | data
  · rw [Json.Value.fieldsOnce_object (by simp)]
    simp [List.lookup_cons, JsonValue.asI32_ofI64, asOption_some_eq]
  · rw [Json.Value.fieldsOnce_object (by simp)]
    simp [List.lookup_cons, JsonValue.asI32_ofI64, asOption_some_eq]

theorem Error.asOption_toValue (error : Option Error) :
    asOption fromValue (error.map toValue) =
      some (error.map fun e => { e with data := dropNull e.data }) := by
  rcases error with _ | e
  · rfl
  · exact congrArg (Option.map some) e.fromValue_toValue

theorem Response.fromValue_toValue (r : Response) : fromValue r.toValue = some { r with
    result := dropNull r.result
    error := r.error.map fun e => { e with data := dropNull e.data } } := by
  obtain ⟨jsonrpc, result, error, ⟨id, hid⟩⟩ := r
  have herror := Error.asOption_toValue error
  unfold fromValue toValue
  rcases result with _ | result <;> rcases error with _ | error <;>
    rw [Json.Value.fieldsOnce_object (by simp)] <;>
    simp only [Option.map_none, Option.map_some] at herror <;>
    simp [List.lookup_cons, herror, asOption_some_eq, Rpc.Id.fromValue_toValue hid, hid]

theorem Response.fromValue_toValue_eq_self (r : Response) : fromValue r.toValue = some r ↔
    r.result ≠ some .null ∧ ∀ e, r.error = some e → e.data ≠ some .null := by
  rw [r.fromValue_toValue]
  obtain ⟨jsonrpc, result, error, id⟩ := r
  simp only [Option.some.injEq, Response.mk.injEq, true_and, and_true, dropNull_eq_self]
  refine and_congr_right fun _ => ?_
  rcases error with _ | ⟨code, message, data⟩
  · simp
  · simp [dropNull_eq_self]

/-- What the server writes is written so. -/
theorem Response.toValue_eq (r : Response) (h : r.jsonrpc = "2.0")
    (hdata : ∀ e, r.error = some e → e.data = none) : r.toValue =
      (⟨r.result, r.error.map fun e => ⟨e.code, e.message⟩, r.id⟩ : Rpc.Response).toValue := by
  obtain ⟨jsonrpc, result, error, id⟩ := r
  unfold toValue Rpc.Response.toValue
  rcases error with _ | ⟨code, message, data⟩
  · simp only at h
    simp [h]
  · simp only [Option.some.injEq, forall_eq'] at h hdata
    simp [h, hdata, Error.toValue, ProtocolError.toValue]

theorem codec_iff (req : Request) (r : Response) :
    Rpc.Request.fromValue req.toValue = some req.toRequest ∧
      (Response.fromValue r.toValue = some r ↔
        r.result ≠ some .null ∧ ∀ e, r.error = some e → e.data ≠ some .null) :=
  ⟨req.fromValue_toValue, r.fromValue_toValue_eq_self⟩

/-- The answer about a file without events. -/
def nullResult : Response := .ofResult ⟨.number 1, by decide⟩ .null

/-- It is a success, and none when it is read. -/
theorem not_codec : Response.fromValue nullResult.toValue ≠ some nullResult ∧
    nullResult.isSuccess = true ∧
    (Response.fromValue nullResult.toValue).map Response.isSuccess = some false := by
  refine ⟨fun h => ?_, rfl, ?_⟩
  · exact (nullResult.fromValue_toValue_eq_self.1 h).1 rfl
  · rw [nullResult.fromValue_toValue]
    rfl

end Protocol

end AmbientFs
