import AmbientFs.Proofs.Connection
import AmbientFs.Proofs.DatabaseOrder

/-!
# One response for each line

What the loop writes for each line against what it should: a response with the line's id for each
line that is not blank, and by the rule of JSON-RPC none for a request without an id. A line that
is not UTF-8 ends the connection, and so does a query of events since an instant out of range.
-/

namespace AmbientFs

namespace Rpc

namespace ConnectionAudit

variable (fromStr : List Char → Option JsonValue)

/-- The id of a line that is not blank, which is null if the line is no request. -/
def lineId (line : List UInt8) : Option Id :=
  match Utf8.decode? line with
  | none => some .null
  | some text => (Connection.request fromStr text).map fun
    | none => .null
    | some req => req.id

/-- The id with which a line is to be answered, if it is: a notification is not. -/
def replyId (line : List UInt8) : Option Id :=
  match Utf8.decode? line with
  | none => some .null
  | some text => (Connection.request fromStr text).bind fun
    | none => some .null
    | some req => if req.isNotification then none else some req.id

/-- The line that is read is UTF-8, and its request satisfies a condition. -/
def ReadsLine (P : DateTime → Request → Prop) (a : ConnectionAudit) (x : ConnectionAction) : Prop :=
  ∀ o line, x = .read o → a.conn.takes = some line →
    ∃ text, Utf8.decode? line = some text ∧
      ∀ req, Connection.request fromStr text = some (some req) → P o.now req

variable {fromStr} {a : ConnectionAudit} {x : ConnectionAction}

theorem answersAs_lineId : AnswersAs fromStr (lineId fromStr) a x ↔
    a.ReadsLine fromStr (fun now req => req.panics now = false) x := by
  refine forall₂_congr fun o line => forall₂_congr fun _ _ => ?_
  unfold answerId lineId
  rcases Utf8.decode? line with _ | text
  · simp
  · rcases hreq : Connection.request fromStr text with _ | _ | req
    · simp [hreq]
    · simp [hreq]
    · cases hp : req.panics o.now <;> simp [hreq, hp]

theorem answersAs_replyId : AnswersAs fromStr (replyId fromStr) a x ↔
    a.ReadsLine fromStr (fun now req => req.panics now = req.isNotification) x := by
  refine forall₂_congr fun o line => forall₂_congr fun _ _ => ?_
  unfold answerId replyId
  rcases Utf8.decode? line with _ | text
  · simp
  · rcases hreq : Connection.request fromStr text with _ | _ | req
    · simp [hreq]
    · simp [hreq]
    · cases hp : req.panics o.now <;> cases hn : req.isNotification <;> simp [hreq, hp, hn]

/-- There is one response for each line that is not blank, notifications do not matter for them and
the loop comes back to the next line, for as long as every line that is read is UTF-8 and no request
makes the connection's task panic. -/
theorem one_each_iff (fromStr : List Char → Option JsonValue) (s : ServerState)
    (xs : List ConnectionAction) :
    Run.Always (step fromStr) (start s)
      (fun a => a.Keeps (lineId fromStr) ∧ a.Unaffected fromStr s ∧ a.conn.ComesBack fromStr) xs ↔
    Run.Steps (step fromStr) (start s)
      (ReadsLine fromStr fun now req => req.panics now = false) xs := by
  have hkeeps := always_keeps_iff fromStr s (lineId fromStr) xs
  simp only [Run.Steps, answersAs_lineId] at hkeeps
  refine Iff.trans ⟨fun h pre hpre => (h pre hpre).1, fun h pre hpre => ?_⟩ hkeeps
  exact ⟨h pre hpre, unaffected s pre, Connection.comesBack _⟩

/-- A line is answered by the rule exactly if it is UTF-8 and is no request, or a request that has
an id and does not make the task panic or has none and does. -/
theorem reply_rule_iff (fromStr : List Char → Option JsonValue) (s : ServerState)
    (xs : List ConnectionAction) :
    Run.Always (step fromStr) (start s) (Keeps (replyId fromStr)) xs ↔
    Run.Steps (step fromStr) (start s)
      (ReadsLine fromStr fun now req => req.panics now = req.isNotification) xs := by
  have hkeeps := always_keeps_iff fromStr s (replyId fromStr) xs
  simp only [Run.Steps, answersAs_replyId] at hkeeps
  exact hkeeps

/-- A reader that knows one text. -/
def readsOnly (text : String) (v : JsonValue) : List Char → Option JsonValue :=
  fun s => if s = text.toList then some v else none

/-- A server that has just started, and a client that has sent a line. -/
def idle : ServerState := ⟨⟨.new, .new, .new, []⟩, .withDefaultTimeout, [], "m"⟩

def idleOutside : Outside where
  now := .epoch
  clock := fun _ => .epoch
  visit := id
  perm := fun _ => .refl _
  look := ⟨false, false, none, true, false, none⟩
  planner := Sql.rowidOrder
  db := .empty
  awareness := fun _ _ => .ok none
  writes := ⟨true, true⟩
  activityError := ""
  chrono := ⟨fun _ => "1970-01-01T00:00:00Z", fun _ => none⟩

theorem takes_send (line : List UInt8) :
    (Run.after (step fromStr) (start idle) [.send line]).conn.takes = some line := by
  rfl

/-- A run in which the client's only line is read. -/
theorem readsLine_of_steps {P : DateTime → Request → Prop} {text : String} {v : JsonValue}
    {req : Request} (hfirst : text.toList.head? = some '\x7b')
    (hlast : text.toList.getLast? = some '\x7d') (hreq : Request.fromValue v = some req)
    (h : Run.Steps (step (readsOnly text v)) (start idle) (ReadsLine (readsOnly text v) P)
      [.send (Utf8.encode text.toList), .read idleOutside]) : P .epoch req := by
  obtain ⟨text', hdecode, hP⟩ := h [.send (Utf8.encode text.toList)] (.read idleOutside)
    List.prefix_rfl idleOutside _ rfl (takes_send _)
  have htext : text' = text.toList := by
    have := (Utf8.decode?_eq_some (s := text.toList)).2 rfl
    rw [hdecode] at this
    exact Option.some.inj this
  have htrim : Lines.trim Lines.whiteSpace text.toList = text.toList :=
    Lines.trim_of_ends hfirst hlast (by decide) (by decide)
  have hne : text.toList ≠ [] := List.isSome_head?.1 (by rw [hfirst]; rfl)
  refine hP req ?_
  rw [htext, Connection.request, htrim, if_neg hne, readsOnly, if_pos rfl, Option.bind_some, hreq]

def lateQueryText : String := "\x7b\"jsonrpc\":\"2.0\",\"method\":\"query_events\"," ++
  "\"params\":\x7b\"since\":9223372036854775807\x7d,\"id\":1\x7d"

def lateQuery : JsonValue := .object [
  ("jsonrpc", .string "2.0"),
  ("method", .string "query_events"),
  ("params", .object [("since", .number (.posInt 9223372036854775807))]),
  ("id", .number (.posInt 1))]

/-- A query of events since an instant out of range has no response. -/
theorem not_one_each : ¬ ∀ (fromStr : List Char → Option JsonValue) (s : ServerState)
    (xs : List ConnectionAction), Run.Always (step fromStr) (start s)
      (fun a => a.Keeps (lineId fromStr) ∧ a.Unaffected fromStr s ∧ a.conn.ComesBack fromStr)
      xs := by
  intro h
  have hkeeps := (always_keeps_iff _ _ _ _).1 fun pre hpre =>
    (h (readsOnly lateQueryText lateQuery) idle
      [.send (Utf8.encode lateQueryText.toList), .read idleOutside] pre hpre).1
  simp only [Run.Steps, answersAs_lineId] at hkeeps
  have hpanics := readsLine_of_steps (by decide +kernel) (by decide +kernel) rfl hkeeps
  exact absurd hpanics (by decide)

def notificationText : String := "\x7b\"jsonrpc\":\"2.0\",\"method\":\"subscribe\"," ++
  "\"params\":\x7b\"project_id\":\"app\"\x7d\x7d"

def subscribeNotification : JsonValue := .object [
  ("jsonrpc", .string "2.0"),
  ("method", .string "subscribe"),
  ("params", .object [("project_id", .string "app")])]

/-- A request without an id is answered. -/
theorem not_reply_rule : ¬ ∀ (fromStr : List Char → Option JsonValue) (s : ServerState)
    (xs : List ConnectionAction),
      Run.Always (step fromStr) (start s) (Keeps (replyId fromStr)) xs := by
  intro h
  have hkeeps := (always_keeps_iff _ _ _ _).1 (h
    (readsOnly notificationText subscribeNotification) idle
    [.send (Utf8.encode notificationText.toList), .read idleOutside])
  simp only [Run.Steps, answersAs_replyId] at hkeeps
  have hpanics := readsLine_of_steps (by decide +kernel) (by decide +kernel) rfl hkeeps
  exact absurd hpanics (by decide)

end ConnectionAudit

end Rpc

end AmbientFs
