import AmbientFs.PythonApi
import AmbientFs.Proofs.ClientApi

/-!
# What the Python client makes of the server's answers

Events, awareness and trees come out of the client with the data that the server has. A project
that the server watches is an exception, for the path that its answer does not have, and so is null
for a file that has no awareness, and every answer whose line is too long for the stream's reader.
-/

namespace AmbientFs

namespace JsonNumber

theorem toNat_ofNat {n : ℤ} (hpos : 0 ≤ n) (hu64 : n < 2 ^ 64) :
    (UInt64.ofNat n.toNat).toNat = n.toNat := by
  have hlt : n.toNat < 2 ^ 64 := by omega
  exact UInt64.toNat_ofNat_of_lt' hlt

theorem asI64_ofInt (n : ℤ) :
    (ofInt n).asI64 = if -2 ^ 63 ≤ n ∧ n < 2 ^ 63 then some n else none := by
  unfold ofInt
  by_cases hpos : 0 ≤ n
  · rw [if_pos hpos]
    by_cases hu64 : n < 2 ^ 64
    · rw [if_pos hu64, asI64, toNat_ofNat hpos hu64, Int.toNat_of_nonneg hpos]
      exact if_congr (by omega) rfl rfl
    · have hnot : ¬ (-2 ^ 63 ≤ n ∧ n < 2 ^ 63) := by omega
      rw [if_neg hu64, if_neg hnot]
      rfl
  · rw [if_neg hpos]
    by_cases hi64 : -2 ^ 63 ≤ n
    · have hboth : -2 ^ 63 ≤ n ∧ n < 2 ^ 63 := by omega
      rw [if_pos hi64, if_pos hboth]
      rfl
    · rw [if_neg hi64, if_neg fun hboth => hi64 hboth.1]
      rfl

theorem asU64_ofInt (n : ℤ) :
    (ofInt n).asU64.map UInt64.toNat = if 0 ≤ n ∧ n < 2 ^ 64 then some n.toNat else none := by
  unfold ofInt
  by_cases hpos : 0 ≤ n
  · rw [if_pos hpos]
    by_cases hu64 : n < 2 ^ 64
    · have hboth : 0 ≤ n ∧ n < 2 ^ 64 := ⟨hpos, hu64⟩
      rw [if_pos hu64, if_pos hboth, asU64, Option.map_some, toNat_ofNat hpos hu64]
    · have hnot : ¬ (0 ≤ n ∧ n < 2 ^ 64) := fun h => hu64 h.2
      rw [if_neg hu64, if_neg hnot]
      rfl
  · have hnot : ¬ (0 ≤ n ∧ n < 2 ^ 64) := fun h => hpos h.1
    rw [if_neg hpos, if_neg hnot]
    split_ifs <;> rfl

end JsonNumber

namespace Python

/-! ## The data of the server -/

def FileEvent.ofEvent (chrono : Chrono) (e : AmbientFs.FileEvent) : FileEvent where
  timestamp := .string (chrono.text e.timestamp)
  eventType := e.eventType
  filePath := .string e.filePath
  projectId := .string e.projectId
  source := e.source
  sourceId := .ofOption .string e.sourceId
  machineId := .string e.machineId
  contentHash := .ofOption .string e.contentHash
  oldPath := .ofOption .string e.oldPath

def FileAwareness.ofAwareness (chrono : Chrono) (a : AmbientFs.FileAwareness) :
    FileAwareness where
  filePath := .string a.filePath
  projectId := .string a.projectId
  lastModified := .string (chrono.text a.lastModified)
  modifiedBy := a.modifiedBy
  modifiedByLabel := .ofOption .string a.modifiedByLabel
  activeAgent := .ofOption .string a.activeAgent
  chatReferences := JsonValue.ofU32 a.chatReferences
  todoCount := JsonValue.ofU32 a.todoCount
  lintHints := JsonValue.ofU32 a.lintHints
  lineCount := JsonValue.ofU32 a.lineCount
  changeFrequency := a.changeFrequency

mutual

def TreeNode.ofNode : AmbientFs.TreeNode → TreeNode
  | ⟨name, path, isDir, children⟩ =>
    .mk (.string name) (.string path) (.bool isDir) (TreeNode.ofNodes children)

def TreeNode.ofNodes : List AmbientFs.TreeNode → List TreeNode
  | [] => []
  | n :: ns => TreeNode.ofNode n :: TreeNode.ofNodes ns

end

/-! ## Decoding -/

mutual

theorem decodeTreeNode_toValue : ∀ n : AmbientFs.TreeNode,
    decodeTreeNode n.toValue = .ok (.ofNode n)
  | ⟨name, path, isDir, children⟩ => by
    have ih := decodeTreeNodes_toValues children
    simp only [AmbientFs.TreeNode.toValue, decodeTreeNode, decodeChildren, if_true, ih]
    rfl

theorem decodeTreeNodes_toValues : ∀ ns : List AmbientFs.TreeNode,
    decodeTreeNodes (AmbientFs.TreeNode.toValues ns) = .ok (TreeNode.ofNodes ns)
  | [] => rfl
  | n :: ns => by
    have hn := decodeTreeNode_toValue n
    have hns := decodeTreeNodes_toValues ns
    simp only [AmbientFs.TreeNode.toValues, decodeTreeNodes, hn, hns]
    rfl

end

theorem keys_textMember (key : String) (text : Option String) :
    ((textMember key text).map Prod.fst).Sublist [key] := by
  unfold textMember
  split
  · split_ifs <;> simp
  · simp

namespace Call

theorem nodup_params (call : Call) : (call.params.map Prod.fst).Nodup := by
  cases call with
  | queryEvents filter =>
    rcases filter with _ | ⟨projectId, since, source, limit⟩
    · exact List.nodup_nil
    · have hnumber : ∀ (key : String) (n : Option ℤ), ((n.map fun n =>
          (key, Json.Value.number (JsonNumber.ofInt n))).toList.map Prod.fst).Sublist [key] := by
        rintro key (_ | n) <;> simp
      have hkeys := (((keys_textMember "project_id" projectId).append
        (hnumber "since" since)).append (keys_textMember "source" source)).append
        (hnumber "limit" limit)
      simp only [params, EventFilter.members, Option.map_some, Option.getD_some, List.map_append]
      exact (by decide : ["project_id", "since", "source", "limit"].Nodup).sublist hkeys
  | «attribute» projectId filePath source sourceId =>
    have hkeys := (List.Sublist.refl ["project_id", "file_path", "source"]).append
      (keys_textMember "source_id" sourceId)
    simp only [params, List.map_append]
    exact (by decide : ["project_id", "file_path", "source", "source_id"].Nodup).sublist hkeys
  | _ => simp [params]

/-- The request as the server has it. -/
def sent (call : Call) (id : ℕ) : Rpc.Request :=
  ⟨"2.0", call.method, some (.object call.params), .number id⟩

theorem fromValue_request (call : Call) {id : ℕ} (h : id < 2 ^ 63) :
    Rpc.Request.fromValue (call.request id) = some (call.sent id) := by
  have hcount : ¬ ∃ name ∈ Rpc.Request.fieldNames,
      1 < (["jsonrpc", "method", "params", "id"] : List String).count name := by
    decide
  have hparams : Params.fromValue (.object call.params) = some (.object call.params) := by
    rw [Params.fromValue, lastMembers_of_nodup call.nodup_params]
  have hid : (JsonNumber.ofInt id).asI64 = some (id : ℤ) := by
    rw [JsonNumber.asI64_ofInt, if_pos (by omega)]
  unfold request Rpc.Request.fromValue
  simp only [List.map_cons, List.map_nil]
  rw [if_neg hcount]
  simp only [List.lookup_cons, String.reduceBEq]
  simp only [Rpc.Request.fromFields, Json.Value.asOption, hparams, Option.map_some,
    Option.getD_some, Rpc.Id.fromValue, hid]
  rfl

/-! ## Answers -/

/-- What is raised for an error of the server. -/
def refused (e : ProtocolError) : Except Error Returned :=
  .error (.call (.daemonError (JsonValue.ofI64 e.code) (.string e.message)))

/-- What a call returns or raises, if it is answered by a line that is not too long. -/
def expected (o : Outside) (s : ServerState) : Call → Option (Except Error Returned)
  | watchProject path =>
    match s.registry.validateWatch (some path) o.look with
    | .error e => some (refused e)
    | .ok _ => some (.error (.keyError "watched_path"))
  | unwatchProject projectId =>
    match s.registry.projects projectId with
    | none => some (refused (.projectNotFound projectId))
    | some _ => some (.ok .none)
  | queryEvents filter =>
    match handleQueryEvents o.planner o.db o.now
      (some (.object ((filter.map EventFilter.members).getD []))) with
    | .events found => some (.ok (.events (found.map (.ofEvent o.chrono))))
    | .error e => some (refused e)
    | .panicked => none
  | queryAwareness projectId path =>
    match o.awareness projectId path with
    | .ok (some a) => some (.ok (.awareness (.ofAwareness o.chrono a)))
    | .ok none => some (.error .typeError)
    | .error _ => some (.error .typeError)
  | queryTree projectId =>
    match s.registry.trees projectId with
    | none => some (refused (.projectNotFound projectId))
    | some tree => some (.ok (.tree (.ofNode tree.root)))
  | .attribute projectId filePath source sourceId =>
    match (s.toEventServer.handleAttribute (some ⟨some filePath, some projectId, some source,
      sourceId.filter (· ≠ "")⟩) s.machineId o.now o.writes).2 with
    | .error e => some (refused e)
    | .ok _ => some (.ok .none)
  | queryAgents => some (.ok (.agents
      ((s.agentTracker.getAllAgents o.clock (o.visit s.agentTracker.agents.entries)).map
        AgentState.toValue)))

end Call

end Python

end AmbientFs
