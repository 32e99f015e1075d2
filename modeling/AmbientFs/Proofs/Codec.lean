import AmbientFs.Codec

/-!
# What the client makes of a notification

Events, awareness and analyses come out of the client as they went into the server, if instants and
values are read back as they were written. A tree patch does not: the server puts it in a member of
its own, and the client takes all other members for the patch (`ofLine_line_iff`).
-/

namespace AmbientFs

open Json.Value (asStr asOption)

@[simp] theorem JsonValue.asU32_ofU32 (n : UInt32) : (JsonValue.ofU32 n).asU32 = some n := by
  have h : n.toUInt64.toNat < 2 ^ 32 := by
    rw [UInt32.toNat_toUInt64]
    exact n.toNat_lt
  simp only [ofU32, asU32, Json.Value.asNumber, Option.bind_some, JsonNumber.asU64, if_pos h]
  simp

@[simp] theorem EventType.fromValue_asStr (t : EventType) :
    EventType.fromValue (.string t.asStr) = some t := by
  simp [EventType.fromValue, EventType.fromStr_asStr, Except.toOption]

@[simp] theorem Source.fromValue_asStr (s : Source) :
    Source.fromValue (.string s.asStr) = some s := by
  simp [Source.fromValue, Source.fromStr_asStr, Except.toOption]

@[simp] theorem ChangeFrequency.fromValue_asStr (f : ChangeFrequency) :
    ChangeFrequency.fromValue (.string f.asStr) = some f := by
  cases f <;> rfl

section Structs

variable {chrono : Chrono}

theorem FileEvent.fromValue_toValue {e : FileEvent}
    (h : chrono.parse (chrono.text e.timestamp) = some e.timestamp) :
    fromValue chrono (e.toValue chrono) = some e := by
  unfold fromValue toValue
  rw [Json.Value.fields_object, Option.bind_eq_bind, Option.bind_some]
  simp only [List.lookup_cons, String.reduceBEq]
  simp only [Option.bind_some, DateTime.fromValue, Json.Value.asStr_string, h,
    EventType.fromValue_asStr, Source.fromValue_asStr, Json.Value.asOption_asStr]
  rfl

theorem FileAwareness.fromValue_toValue {a : FileAwareness}
    (h : chrono.parse (chrono.text a.lastModified) = some a.lastModified) :
    fromValue chrono (a.toValue chrono) = some a := by
  unfold fromValue toValue
  rw [Json.Value.fields_object, Option.bind_eq_bind, Option.bind_some]
  simp only [List.lookup_cons, String.reduceBEq]
  simp only [Option.bind_some, DateTime.fromValue, Json.Value.asStr_string, h,
    Source.fromValue_asStr, Json.Value.asOption_asStr, JsonValue.asU32_ofU32,
    ChangeFrequency.fromValue_asStr]
  rfl

end Structs

/-- The instants in a notification. -/
def Notification.instants : Notification → List DateTime
  | event e => [e.timestamp]
  | awarenessChanged _ _ awareness => [awareness.lastModified]
  | analysisComplete .. => []
  | treePatch .. => []

/-- The client's notification of the same kind and content. -/
def Notification.toClient : Notification → Client.Notification
  | event e => .event e
  | awarenessChanged projectId filePath awareness =>
    .awarenessChanged ⟨projectId, filePath, awareness⟩
  | analysisComplete projectId filePath lineCount todoCount =>
    .analysisComplete ⟨projectId, filePath, lineCount, todoCount⟩
  | treePatch projectId patch => .treePatch ⟨projectId, patch.toValue⟩

/-- The client's notification, with a patch as the value of its only member. -/
def Notification.received : Notification → Client.Notification
  | treePatch projectId patch => .treePatch ⟨projectId, .object [("patch", patch.toValue)]⟩
  | n => n.toClient

theorem Notification.received_eq_toClient (n : Notification) :
    n.received = n.toClient ↔ ∀ projectId patch, n ≠ .treePatch projectId patch := by
  cases n with
  | treePatch projectId patch =>
    have hne : (.object [("patch", patch.toValue)] : JsonValue) ≠ patch.toValue := by
      cases patch <;> simp [TreePatch.toValue]
    simp [received, toClient, hne]
  | _ => simp [received]

namespace Client

variable {chrono : Chrono} {serde : SerdeJson} {n : AmbientFs.Notification}

theorem Notification.fromValue_params (method : String) (params : JsonValue) :
    fromValue chrono (.object [("method", .string method), ("params", params)]) =
      match method with
      | "event" => (FileEvent.fromValue chrono params).map event
      | "awareness_changed" => (AwarenessChangedParams.fromValue chrono params).map awarenessChanged
      | "analysis_complete" => (AnalysisCompleteParams.fromValue params).map analysisComplete
      | "tree_patch" => (TreePatchParams.fromValue params).map treePatch
      | _ => none := by
  rfl

theorem Notification.ofRaw_params (h : ∀ t ∈ n.instants, chrono.parse (chrono.text t) = some t) :
    ofRaw chrono ⟨n.method, n.params chrono⟩ = some n.received := by
  unfold ofRaw
  rw [fromValue_params]
  cases n with
  | event e =>
    have he := FileEvent.fromValue_toValue (h e.timestamp (by simp [Notification.instants]))
    simp only [AmbientFs.Notification.method, AmbientFs.Notification.params, he]
    rfl
  | awarenessChanged projectId filePath awareness =>
    have ha := FileAwareness.fromValue_toValue
      (h awareness.lastModified (by simp [Notification.instants]))
    simp only [AmbientFs.Notification.method, AmbientFs.Notification.params,
      AwarenessChangedParams.fromValue, Json.Value.fields_object, Option.bind_eq_bind,
      Option.bind_some, List.lookup_cons, String.reduceBEq, ha]
    rfl
  | analysisComplete projectId filePath lineCount todoCount =>
    simp only [AmbientFs.Notification.method, AmbientFs.Notification.params,
      AnalysisCompleteParams.fromValue, Json.Value.fields_object, Option.bind_eq_bind,
      Option.bind_some, List.lookup_cons, String.reduceBEq, JsonValue.asU32_ofU32]
    rfl
  | treePatch projectId patch => rfl

/-- The line a notification is sent on, read by the client. -/
theorem Notification.ofLine_line
    (hserde : AmbientFsClient.message serde.fromStr (n.line chrono serde) =
      some (n.rpcNotification chrono))
    (h : ∀ t ∈ n.instants, chrono.parse (chrono.text t) = some t) :
    ofLine chrono serde (n.line chrono serde) = some n.received := by
  have hid : responseId (n.rpcNotification chrono) = none := rfl
  have hraw : notification (n.rpcNotification chrono) = some ⟨n.method, n.params chrono⟩ := rfl
  simp only [ofLine, hserde, Option.bind_eq_bind, Option.bind_some, hid, hraw, ofRaw_params h]

/-- If the text and the instants are read back, every notification but a tree patch comes out as it
went in. -/
theorem ofLine_line_iff (chrono : Chrono) (serde : SerdeJson) (n : AmbientFs.Notification)
    (hserde : AmbientFsClient.message serde.fromStr (n.line chrono serde) =
      some (n.rpcNotification chrono))
    (h : ∀ t ∈ n.instants, chrono.parse (chrono.text t) = some t) :
    Notification.ofLine chrono serde (n.line chrono serde) = some n.toClient ↔
      ∀ projectId patch, n ≠ .treePatch projectId patch := by
  rw [Notification.ofLine_line hserde h, Option.some.injEq, n.received_eq_toClient]

/-- A text that is written for a value and read as it. -/
def textOf (text : String) (v : JsonValue) : SerdeJson where
  toStr := fun _ => text.toList
  fromStr := fun s => if s = text.toList then some v else none

/-- The text of an object has no blanks at its ends. -/
theorem message_textOf {text : String} {v : JsonValue} (hfirst : text.toList.head? = some '\x7b')
    (hlast : text.toList.getLast? = some '\x7d') :
    AmbientFsClient.message (textOf text v).fromStr ((textOf text v).toStr v ++ ['\n']) =
      some v := by
  have hne : text.toList ≠ [] := List.isSome_head?.1 (by rw [hfirst]; rfl)
  have htrim : Lines.trim Lines.whiteSpace (text.toList ++ ['\n']) = text.toList := by
    rw [Lines.trim_append_blank (by decide)]
    exact Lines.trim_of_ends hfirst hlast (by decide) (by decide)
  unfold AmbientFsClient.message textOf
  simp only [htrim, if_neg hne, if_true]

def epochOnly : Chrono where
  text := fun _ => "1970-01-01T00:00:00Z"
  parse := fun s => if s = "1970-01-01T00:00:00Z" then some .epoch else none

def createdEvent : FileEvent := .new .epoch .created "src/a.rs" "app" "m"

def createdText : String := "\x7b\"jsonrpc\":\"2.0\",\"method\":\"event\",\"params\":" ++
  "\x7b\"content_hash\":null,\"event_type\":\"created\",\"file_path\":\"src/a.rs\"," ++
  "\"machine_id\":\"m\",\"old_path\":null,\"project_id\":\"app\",\"source\":\"user\"," ++
  "\"source_id\":null,\"timestamp\":\"1970-01-01T00:00:00Z\"\x7d\x7d"

theorem message_createdText {v : JsonValue} : AmbientFsClient.message (textOf createdText v).fromStr
    ((textOf createdText v).toStr v ++ ['\n']) = some v := by
  apply message_textOf
  all_goals
    unfold createdText
    simp only [String.toList_append, List.head?_append, List.getLast?_append]
    decide +kernel

theorem ofLine_line_created :
    Notification.ofLine epochOnly
      (textOf createdText (AmbientFs.Notification.rpcNotification epochOnly (.event createdEvent)))
      (AmbientFs.Notification.line epochOnly (textOf createdText
        (AmbientFs.Notification.rpcNotification epochOnly (.event createdEvent)))
        (.event createdEvent)) = some (.event createdEvent) :=
  (ofLine_line_iff epochOnly _ (.event createdEvent) message_createdText
    (by simp [Notification.instants, epochOnly, createdEvent, FileEvent.new])).2 (by simp)

def removal : AmbientFs.Notification := .treePatch "app" (.remove "src/a.rs")

def removalText : String := "\x7b\"jsonrpc\":\"2.0\",\"method\":\"tree_patch\"," ++
  "\"params\":\x7b\"patch\":\x7b\"op\":\"remove\",\"path\":\"src/a.rs\"\x7d," ++
  "\"project_id\":\"app\"\x7d\x7d"

theorem message_removalText {v : JsonValue} : AmbientFsClient.message (textOf removalText v).fromStr
    ((textOf removalText v).toStr v ++ ['\n']) = some v := by
  apply message_textOf
  all_goals
    unfold removalText
    simp only [String.toList_append, List.head?_append, List.getLast?_append]
    decide +kernel

/-- A tree patch comes out of the client inside another object. -/
theorem not_ofLine_line : ¬ ∀ (chrono : Chrono) (serde : SerdeJson) (n : AmbientFs.Notification),
    AmbientFsClient.message serde.fromStr (n.line chrono serde) =
      some (n.rpcNotification chrono) →
    (∀ t ∈ n.instants, chrono.parse (chrono.text t) = some t) →
    Notification.ofLine chrono serde (n.line chrono serde) = some n.toClient := by
  intro h
  have hserde : AmbientFsClient.message
      (textOf removalText (removal.rpcNotification epochOnly)).fromStr
      (removal.line epochOnly (textOf removalText (removal.rpcNotification epochOnly))) =
        some (removal.rpcNotification epochOnly) := message_removalText
  have htimes : ∀ t ∈ removal.instants, epochOnly.parse (epochOnly.text t) = some t := by
    simp [removal, Notification.instants]
  have heq := h epochOnly _ removal hserde htimes
  rw [Notification.ofLine_line hserde htimes, Option.some.injEq,
    Notification.received_eq_toClient] at heq
  exact heq _ _ rfl

end Client

end AmbientFs
