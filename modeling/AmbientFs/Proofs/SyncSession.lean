import AmbientFs.Lib.Run
import AmbientFs.Sync
import AmbientFs.Proofs.Store

/-!
# When received events are stored

One run of `sync_peer` against the stream of one peer. What has been received is in the store only
once the stream has ended without an error: until then the history that has been read is in the
batch, and an error drops the batch.
-/

namespace AmbientFs

/-! ## What each step does -/

namespace EventStore

/-- A row for the event's file at the event's time, as one of the event's machine. -/
def Holds (s : EventStore) (e : FileEvent) : Prop :=
  ∃ r ∈ s.rows, r.projectId = e.projectId ∧ r.filePath = e.filePath ∧
    r.machineId = e.machineId ∧ r.timestamp = e.timestamp.toRfc3339

instance (s : EventStore) (e : FileEvent) : Decidable (s.Holds e) :=
  inferInstanceAs (Decidable (∃ r ∈ s.rows, _))

theorem Has.holds {s : EventStore} {e : FileEvent} (h : s.Has e) : s.Holds e := by
  obtain ⟨r, hr, hre⟩ := h
  refine ⟨r, hr, ?_⟩
  rw [hre]
  exact ⟨rfl, rfl, rfl, rfl⟩

theorem has_insertBatch {s : EventStore} {es : List FileEvent} {e : FileEvent} (h : e ∈ es) :
    (s.insertBatch es).Has e := by
  obtain ⟨i, rfl⟩ := List.mem_iff_get.1 h
  exact ⟨_, exists_mem_insertBatch i.2, rfl⟩

theorem Holds.mono {s s' : EventStore} (hs : ∀ r ∈ s.rows, r ∈ s'.rows) {e : FileEvent}
    (h : s.Holds e) : s'.Holds e := by
  obtain ⟨r, hr, he⟩ := h
  exact ⟨r, hs r hr, he⟩

theorem Has.mono {s s' : EventStore} (hs : ∀ r ∈ s.rows, r ∈ s'.rows) {e : FileEvent}
    (h : s.Has e) : s'.Has e := by
  obtain ⟨r, hr, he⟩ := h
  exact ⟨r, hs r hr, he⟩

end EventStore

namespace SyncManager

variable {planner : Planner} {machineId : String} {m : SyncManager} {r : SyncRound}

/-- The check finds an event only where there is one. -/
theorem holds_of_eventExists {e : FileEvent} (h : m.eventExists planner e = true) :
    m.store.Holds e := by
  unfold eventExists at h
  rcases hs : DateTime.ofNanos (e.timestamp.nanos - nanosPerSec) with _ | since
  · rw [hs] at h
    cases h
  rw [hs] at h
  dsimp only at h
  rcases hq : m.store.query planner
    { projectId := e.projectId, filePath := e.filePath, since := since } with err | es
  · rw [hq] at h
    cases h
  rw [hq] at h
  obtain ⟨e', he', hmatch⟩ := List.any_eq_true.1 h
  obtain ⟨htime, hpath, hmachine⟩ := of_decide_eq_true hmatch
  obtain ⟨row, hrow, hm, hre, -⟩ := EventStore.mem_of_query rfl hq he'
  refine ⟨row, hrow, ?_, ?_, ?_, ?_⟩
  · unfold EventFilter.matches at hm
    simp only [Bool.and_eq_true, Option.all_some, decide_eq_true_eq] at hm
    exact hm.1.1.1
  · rw [hre]
    exact hpath
  · rw [hre]
    exact hmachine
  · rw [hre, ← htime]
    rfl

theorem onStream_cases (m : SyncManager) (f : SyncStream → SyncStream) :
    m.onStream f = m ∨ ∃ r, m.round = some r ∧ r.outcome = .running ∧
      m.onStream f = { m with round := some { r with stream := f r.stream } } := by
  unfold onStream
  rcases hr : m.round with _ | r
  · exact .inl rfl
  · dsimp only
    split_ifs with hrun
    · exact .inr ⟨r, rfl, hrun, rfl⟩
    · exact .inl rfl

theorem fail_cases (m : SyncManager) :
    m.fail = m ∨ ∃ r, m.round = some r ∧ r.outcome = .running ∧
      m.fail = { m with round := some { r with outcome := .failed } } := by
  unfold fail
  rcases hr : m.round with _ | r
  · exact .inl rfl
  · dsimp only
    split_ifs with hrun
    · exact .inr ⟨r, rfl, hrun, rfl⟩
    · exact .inl rfl

theorem ending_eq_some (h : m.ending = some r) : m.round = some r ∧ r.outcome = .running ∧
    r.stream.producer = .ended ∧ r.stream.queue = [] := by
  unfold ending at h
  obtain ⟨hr, hp⟩ := Option.filter_eq_some_iff.1 h
  exact ⟨hr, of_decide_eq_true hp⟩

/-- The state of a run that has read one more message. -/
def read (r : SyncRound) (x : Sent) (queue : List Sent) : SyncRound :=
  { r with stream := { r.stream with queue := queue }, received := r.received ++ [x] }

theorem reading_eq_some {x : Sent} (h : m.reading = some (r, x)) :
    ∃ r₀ queue, m.round = some r₀ ∧ r₀.outcome = .running ∧ r₀.stream.producer ≠ .sending ∧
      r₀.stream.queue = x :: queue ∧ r = read r₀ x queue := by
  unfold reading at h
  rcases hr : m.round with _ | r₀
  · rw [hr] at h
    cases h
  rw [hr] at h
  dsimp only at h
  split_ifs at h with hrun
  rcases hq : r₀.stream.queue with _ | ⟨y, queue⟩
  · rw [hq] at h
    cases h
  · rw [hq] at h
    cases h
    exact ⟨r₀, queue, rfl, hrun.1, hrun.2, hq, rfl⟩

theorem take_cases (planner : Planner) (machineId : String) (m : SyncManager) (r : SyncRound)
    (x : Sent) :
    (x.message.machineId = machineId ∧ m.take planner machineId r x = r) ∨
    (x.message.machineId ≠ machineId ∧ messageToFileEvent x.message machineId = none ∧
      m.take planner machineId r x = { r with outcome := .failed }) ∨
    ∃ e, x.message.machineId ≠ machineId ∧ messageToFileEvent x.message machineId = some e ∧
      ((m.eventExists planner e = true ∧ m.take planner machineId r x = r) ∨
        (m.eventExists planner e = false ∧
          m.take planner machineId r x = { r with newEvents := r.newEvents ++ [(x.row, e)] })) := by
  unfold take
  by_cases hown : x.message.machineId = machineId
  · exact .inl ⟨hown, if_pos hown⟩
  rw [if_neg hown]
  rcases he : messageToFileEvent x.message machineId with _ | e
  · exact .inr (.inl ⟨hown, rfl, rfl⟩)
  · refine .inr (.inr ⟨e, hown, rfl, ?_⟩)
    dsimp only
    cases hex : m.eventExists planner e with
    | true => exact .inl ⟨rfl, if_pos rfl⟩
    | false => exact .inr ⟨rfl, if_neg (by decide)⟩

end SyncManager

/-! ## The stream -/

namespace SyncRound

/-- The history is what is received, in the channel or to be sent first. -/
structure Flow (r : SyncRound) : Prop where
  flow : r.history <+: r.received ++ r.stream.queue ++ r.stream.toSend
  returned : r.stream.producer ≠ .sending → r.history <+: r.received ++ r.stream.queue

variable {r : SyncRound}

theorem flow_start (peer : PeerConfig) (server : String) (since : ℤ) (history : List Sent) :
    (start peer server since history).Flow := by
  refine ⟨?_, fun h => absurd rfl h⟩
  show history <+: [] ++ [] ++ history
  exact List.prefix_rfl

theorem Flow.send (h : r.Flow) : ({ r with stream := r.stream.send } : SyncRound).Flow := by
  unfold SyncStream.send
  rcases hs : r.stream.toSend with _ | ⟨x, rest⟩
  · exact ⟨h.flow, h.returned⟩
  · dsimp only
    split_ifs
    · refine ⟨?_, fun hp => ?_⟩
      · have := h.flow
        rw [hs] at this
        show r.history <+: r.received ++ (r.stream.queue ++ [x]) ++ rest
        simpa using this
      · show r.history <+: r.received ++ (r.stream.queue ++ [x])
        rw [← List.append_assoc]
        exact (h.returned hp).trans (List.prefix_append _ _)
    · exact ⟨h.flow, h.returned⟩

theorem Flow.handOver (h : r.Flow) : ({ r with stream := r.stream.handOver } : SyncRound).Flow := by
  unfold SyncStream.handOver
  split_ifs with hp
  · refine ⟨h.flow, fun _ => ?_⟩
    have := h.flow
    rwa [hp.2, List.append_nil] at this
  · exact ⟨h.flow, h.returned⟩

theorem Flow.publish (h : r.Flow) (x : Sent) :
    ({ r with stream := r.stream.publish x } : SyncRound).Flow := by
  unfold SyncStream.publish
  split_ifs
  · refine ⟨?_, h.returned⟩
    show r.history <+: r.received ++ r.stream.queue ++ (r.stream.toSend ++ [x])
    rw [← List.append_assoc]
    exact h.flow.trans (List.prefix_append _ _)
  · exact ⟨h.flow, h.returned⟩

theorem Flow.close (h : r.Flow) : ({ r with stream := r.stream.close } : SyncRound).Flow := by
  unfold SyncStream.close
  split_ifs with hp
  · have hret := h.returned (by rw [hp]; decide)
    refine ⟨?_, fun _ => hret⟩
    show r.history <+: r.received ++ r.stream.queue ++ []
    rwa [List.append_nil]
  · exact ⟨h.flow, h.returned⟩

theorem Flow.read (h : r.Flow) {x : Sent} {queue : List Sent} (hq : r.stream.queue = x :: queue) :
    (SyncManager.read r x queue).Flow := by
  refine ⟨?_, fun hp => ?_⟩
  · have := h.flow
    rw [hq] at this
    show r.history <+: r.received ++ [x] ++ queue ++ r.stream.toSend
    simpa using this
  · have := h.returned hp
    rw [hq] at this
    show r.history <+: r.received ++ [x] ++ queue
    simpa using this

/-- Who has received as many messages as the history has received the history. -/
theorem Flow.prefix_received (h : r.Flow) (hlen : r.history.length ≤ r.received.length) :
    r.history <+: r.received := by
  refine List.prefix_of_prefix_length_le h.flow ?_ hlen
  rw [List.append_assoc]
  exact List.prefix_append _ _

end SyncRound

/-! ## One run -/

/-- A run of `sync_peer` that began with a store. -/
structure Session (machineId : String) (s₀ : EventStore) (history : List Sent)
    (store : EventStore) (r : SyncRound) : Prop where
  history : r.history = history
  flow : r.Flow
  kept : r.outcome ≠ .done → store = s₀
  /-- A message of another machine is in the batch, if there was nothing for it in the store. -/
  taken : r.outcome ≠ .failed → ∀ x ∈ r.received, x.message.machineId ≠ machineId →
    ∃ e, messageToFileEvent x.message machineId = some e ∧
      (s₀.Holds e ∨ (x.row, e) ∈ r.newEvents)
  done : r.outcome = .done → ∀ x ∈ r.newEvents, store.Has x.2

namespace Session

variable {planner : Planner} {machineId : String} {s₀ : EventStore} {history : List Sent}
  {m : SyncManager} {r : SyncRound}

theorem of_stream {f : SyncStream → SyncStream} (h : Session machineId s₀ history m.store r)
    (hf : ({ r with stream := f r.stream } : SyncRound).Flow) :
    Session machineId s₀ history m.store { r with stream := f r.stream } :=
  ⟨h.history, hf, h.kept, h.taken, h.done⟩

theorem take (h : Session machineId s₀ history m.store r) (hrun : r.outcome = .running) {x : Sent}
    {queue : List Sent} (hq : r.stream.queue = x :: queue) :
    Session machineId s₀ history m.store
      (m.take planner machineId (SyncManager.read r x queue) x) := by
  have hstore : m.store = s₀ := h.kept (by rw [hrun]; decide)
  have hflow := h.flow.read hq
  have hold : ∀ l : List (ℕ × FileEvent), (∀ y ∈ r.newEvents, y ∈ l) → ∀ y ∈ r.received,
      y.message.machineId ≠ machineId → ∃ e, messageToFileEvent y.message machineId = some e ∧
        (s₀.Holds e ∨ (y.row, e) ∈ l) := by
    intro l hl y hy hown
    obtain ⟨e, he, hin⟩ := h.taken (by rw [hrun]; decide) y hy hown
    exact ⟨e, he, hin.imp_right (hl _)⟩
  have hdone : r.outcome ≠ .done := by rw [hrun]; decide
  rcases m.take_cases planner machineId (SyncManager.read r x queue) x with
    ⟨hown, heq⟩ | ⟨-, -, heq⟩ | ⟨e, hown, he, ⟨hex, heq⟩ | ⟨-, heq⟩⟩
  · rw [heq]
    refine ⟨h.history, hflow, fun _ => hstore, fun _ y hy hne => ?_, fun hd => absurd hd hdone⟩
    rcases List.mem_append.1 hy with hy | hy
    · exact hold _ (fun _ => id) y hy hne
    · rw [List.mem_singleton.1 hy] at hne
      exact absurd hown hne
  · rw [heq]
    exact ⟨h.history, ⟨hflow.flow, hflow.returned⟩, fun _ => hstore, fun hf => absurd rfl hf,
      fun hd => by cases hd⟩
  · rw [heq]
    refine ⟨h.history, hflow, fun _ => hstore, fun _ y hy hne => ?_, fun hd => absurd hd hdone⟩
    rcases List.mem_append.1 hy with hy | hy
    · exact hold _ (fun _ => id) y hy hne
    · rw [List.mem_singleton.1 hy]
      refine ⟨e, he, .inl ?_⟩
      rw [← hstore]
      exact SyncManager.holds_of_eventExists hex
  · rw [heq]
    refine ⟨h.history, ⟨hflow.flow, hflow.returned⟩, fun _ => hstore, fun _ y hy hne => ?_,
      fun hd => absurd hd hdone⟩
    rcases List.mem_append.1 hy with hy | hy
    · exact hold _ (fun _ => List.mem_append_left _) y hy hne
    · rw [List.mem_singleton.1 hy]
      exact ⟨e, he, .inr (List.mem_append_right _ List.mem_cons_self)⟩

/-- A step of either end. -/
theorem step (h : Session machineId s₀ history m.store r) (hr : m.round = some r)
    (a : SessionAction) : ∃ r', (m.sessionStep planner machineId a).round = some r' ∧
      Session machineId s₀ history (m.sessionStep planner machineId a).store r' := by
  have hstream : ∀ f : SyncStream → SyncStream,
      ({ r with stream := f r.stream } : SyncRound).Flow →
      ∃ r', (m.onStream f).round = some r' ∧
        Session machineId s₀ history (m.onStream f).store r' := by
    intro f hf
    rcases m.onStream_cases f with heq | ⟨r', hr', -, heq⟩
    · rw [heq]
      exact ⟨r, hr, h⟩
    · rw [hr] at hr'
      cases hr'
      rw [heq]
      exact ⟨_, rfl, h.of_stream hf⟩
  cases a with
  | send => exact hstream _ h.flow.send
  | handOver => exact hstream _ h.flow.handOver
  | publish x => exact hstream _ (h.flow.publish x)
  | closeStream => exact hstream _ h.flow.close
  | receive =>
    show ∃ r', (m.receive planner machineId).round = some r' ∧
      Session machineId s₀ history (m.receive planner machineId).store r'
    unfold SyncManager.receive
    rcases hread : m.reading with _ | ⟨r', x⟩
    · exact ⟨r, hr, h⟩
    · obtain ⟨r₀, queue, hr₀, hrun, -, hq, rfl⟩ := SyncManager.reading_eq_some hread
      rw [hr] at hr₀
      cases hr₀
      exact ⟨_, rfl, h.take hrun hq⟩
  | finish now =>
    show ∃ r', (m.finish now).round = some r' ∧ Session machineId s₀ history (m.finish now).store r'
    unfold SyncManager.finish
    rcases hend : m.ending with _ | r'
    · exact ⟨r, hr, h⟩
    · obtain ⟨hr', hrun, -⟩ := SyncManager.ending_eq_some hend
      rw [hr] at hr'
      cases hr'
      refine ⟨_, rfl, h.history, ⟨h.flow.flow, h.flow.returned⟩, fun hd => absurd rfl hd,
        fun _ => h.taken (by rw [hrun]; decide), fun _ x hx => ?_⟩
      exact EventStore.has_insertBatch (List.mem_map_of_mem hx)
  | fail =>
    show ∃ r', m.fail.round = some r' ∧ Session machineId s₀ history m.fail.store r'
    rcases m.fail_cases with heq | ⟨r', hr', hrun, heq⟩
    · rw [heq]
      exact ⟨r, hr, h⟩
    · rw [hr] at hr'
      cases hr'
      rw [heq]
      exact ⟨_, rfl, h.history, ⟨h.flow.flow, h.flow.returned⟩,
        fun _ => h.kept (by rw [hrun]; decide), fun hf => absurd rfl hf, fun hd => by cases hd⟩

variable (planner) in
theorem run (h : Session machineId s₀ history m.store r) (hr : m.round = some r)
    (as : List SessionAction) :
    ∃ r', (Run.after (SyncManager.sessionStep planner machineId) m as).round = some r' ∧
      Session machineId s₀ history
        (Run.after (SyncManager.sessionStep planner machineId) m as).store r' := by
  induction as using List.reverseRecOn with
  | nil => exact ⟨r, hr, h⟩
  | append_singleton as a ih =>
    obtain ⟨r', hr', h'⟩ := ih
    rw [Run.after_snoc]
    exact h'.step hr' a

end Session

theorem session_start (machineId : String) (s₀ : EventStore) (peer : PeerConfig) (server : String)
    (since : ℤ) (history : List Sent) :
    Session machineId s₀ history s₀ (.start peer server since history) :=
  ⟨rfl, SyncRound.flow_start .., fun _ => rfl, fun _ _ h => (nomatch h), fun h => (nomatch h)⟩

/-- A daemon that has just asked a peer for events and is answered with a history. -/
def SyncManager.asking (m : SyncManager) (peer : PeerConfig) (server : String) (since : ℤ)
    (history : List Sent) : SyncManager :=
  { m with round := some (.start peer server since history) }

/-- A message whose event the store has a row for. -/
def EventStore.Known (s : EventStore) (machineId : String) (msg : FileEventMessage) : Prop :=
  ∃ e, messageToFileEvent msg machineId = some e ∧ s.Holds e

/-- A message whose event is in the store. -/
def EventStore.Stored (s : EventStore) (machineId : String) (msg : FileEventMessage) : Prop :=
  ∃ e, messageToFileEvent msg machineId = some e ∧ s.Has e

/-- Every event of the history that is another machine's, and that the store had no row for, is
in the store. -/
def HistoryStored (machineId : String) (s₀ s : EventStore) (history : List Sent) : Prop :=
  ∀ x ∈ history, x.message.machineId ≠ machineId → ¬ s₀.Known machineId x.message →
    s.Stored machineId x.message

theorem historyStored_iff (planner : Planner) (machineId : String) (m : SyncManager)
    (peer : PeerConfig) (server : String) (since : ℤ) (history : List Sent)
    (as : List SessionAction) (r : SyncRound)
    (hr : (Run.after (SyncManager.sessionStep planner machineId)
      (m.asking peer server since history) as).round = some r)
    (hall : history.length ≤ r.received.length) :
    HistoryStored machineId m.store (Run.after (SyncManager.sessionStep planner machineId)
      (m.asking peer server since history) as).store history ↔
    r.outcome = .done ∨
      ∀ x ∈ history, x.message.machineId = machineId ∨ m.store.Known machineId x.message := by
  obtain ⟨r', hr', h⟩ := Session.run planner (m := m.asking peer server since history)
    (session_start machineId m.store peer server since history) rfl as
  rw [hr] at hr'
  cases hr'
  constructor
  · intro hstored
    by_cases hd : r.outcome = .done
    · exact .inl hd
    · refine .inr fun x hx => ?_
      by_contra hn
      rw [not_or] at hn
      obtain ⟨e, he, hhas⟩ := hstored x hx hn.1 hn.2
      rw [h.kept hd] at hhas
      exact hn.2 ⟨e, he, hhas.holds⟩
  · rintro (hd | hnone) x hx hown hnew
    · have hreceived := h.flow.prefix_received (by rw [h.history]; exact hall)
      rw [h.history] at hreceived
      obtain ⟨e, he, hh | hbatch⟩ := h.taken (by rw [hd]; decide) x (hreceived.subset hx) hown
      · exact (hnew ⟨e, he, hh⟩).elim
      · exact ⟨e, he, h.done hd (x.row, e) hbatch⟩
    · rcases hnone x hx with heq | hk
      · exact absurd heq hown
      · exact absurd hk hnew

def sampleMessage : FileEventMessage :=
  ⟨100, "created", "f", "p", "user", none, "b", none, none⟩

def sampleClock : Clock := ⟨⟨200000000000, by decide⟩, by decide, by decide +kernel⟩

def sampleRun (as : List SessionAction) : SyncManager :=
  Run.after (SyncManager.sessionStep .byId "a")
    ((SyncManager.new []).asking ⟨"b:1", "p"⟩ "b" 0 [⟨1, sampleMessage⟩]) as

/-- The history has been read and the stream has ended. -/
theorem historyStored_ended : HistoryStored "a" .new
    (sampleRun [.send, .handOver, .receive, .closeStream, .finish sampleClock]).store
    [⟨1, sampleMessage⟩] := by
  have hround : (sampleRun [.send, .handOver, .receive, .closeStream,
      .finish sampleClock]).round.map (fun r => (r.received.length, r.outcome)) =
      some (1, .done) := by decide +kernel
  obtain ⟨r, hr, hpair⟩ := Option.map_eq_some_iff.1 hround
  have hlen := congrArg Prod.fst hpair
  have hdone := congrArg Prod.snd hpair
  exact (historyStored_iff .byId "a" (.new []) ⟨"b:1", "p"⟩ "b" 0 [⟨1, sampleMessage⟩]
    [.send, .handOver, .receive, .closeStream, .finish sampleClock] r hr hlen.ge).2 (.inl hdone)

/-- The history has been read and the stream goes on. -/
theorem not_historyStored_live :
    ((sampleRun [.send, .handOver, .receive]).round.map (·.received) = some [⟨1, sampleMessage⟩]) ∧
    ¬ HistoryStored "a" .new (sampleRun [.send, .handOver, .receive]).store
      [⟨1, sampleMessage⟩] := by
  refine ⟨by decide, fun h => ?_⟩
  have hknown : ¬ EventStore.new.Known "a" sampleMessage := by
    rintro ⟨_, -, r, hr, -⟩
    cases hr
  obtain ⟨_, -, r, hr, -⟩ := h ⟨1, sampleMessage⟩ List.mem_cons_self (by decide) hknown
  cases hr

end AmbientFs
