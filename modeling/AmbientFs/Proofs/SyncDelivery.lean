import AmbientFs.Proofs.SyncNetwork

/-!
# What completed runs store

The network with a record of what each run reads and what completed runs have delivered. The check
drops an event only if the store has a row for its file in its second, and a completed run stores
all it did not drop.
-/

namespace AmbientFs

instance (s : EventStore) (machineId : String) (msg : FileEventMessage) :
    Decidable (s.Known machineId msg) :=
  decidable_of_iff ((messageToFileEvent msg machineId).any (fun e => decide (s.Holds e)) = true) (by
    unfold EventStore.Known
    cases messageToFileEvent msg machineId <;> simp)

/-- A message a run has read, and whether it was then the daemon's own or had a row in the
daemon's store. -/
structure Receipt where
  sent : Sent
  held : Bool

structure SyncAudit where
  net : Network
  /-- What the last run of each daemon has read. -/
  log : String → List Receipt
  /-- What each daemon's completed runs have read, with the machine it came from. -/
  delivered : String → List (String × Receipt)
  /-- The machine and the row that the event of a machine's row was first recorded by. -/
  origin : String → ℕ → String × ℕ

namespace SyncAudit

def start (stores : String → EventStore) (peers : String → List PeerConfig) : SyncAudit where
  net := fun a => { SyncManager.new (peers a) with store := stores a }
  log := fun _ => []
  delivered := fun _ => []
  origin := Prod.mk

variable (planner : Planner) (host : String → Option String) (s : SyncAudit)

def receipt (a : String) (x : Sent) : Receipt :=
  ⟨x, decide (x.message.machineId = a ∨ (s.net a).store.Known a x.message)⟩

def nextLog : SyncAction → String → List Receipt
  | .startSync a peer =>
    match s.net.request planner host a peer with
    | none => s.log
    | some _ => Function.update s.log a []
  | .receive a =>
    match (s.net a).reading with
    | none => s.log
    | some (_, x) => Function.update s.log a (s.log a ++ [s.receipt a x])
  | _ => s.log

def nextDelivered : SyncAction → String → List (String × Receipt)
  | .finish a _ =>
    match (s.net a).ending with
    | none => s.delivered
    | some r => Function.update s.delivered a (s.delivered a ++ (s.log a).map (r.server, ·))
  | _ => s.delivered

/-- A row that sync inserts has the origin of the row its message was made from. -/
def nextOrigin : SyncAction → String → ℕ → String × ℕ
  | .record a _ _ =>
    Function.update s.origin a (Function.update (s.origin a) ((s.net a).store.lastId + 1)
      (a, (s.net a).store.lastId + 1))
  | .finish a _ =>
    match (s.net a).ending with
    | none => s.origin
    | some r => Function.update s.origin a fun id =>
      match r.newEvents[id - ((s.net a).store.lastId + 1)]? with
      | some (row, _) =>
        if (s.net a).store.lastId < id then s.origin r.server row else s.origin a id
      | none => s.origin a id
  | _ => s.origin

def step (act : SyncAction) : SyncAudit where
  net := s.net.step planner host act
  log := s.nextLog planner host act
  delivered := s.nextDelivered act
  origin := s.nextOrigin act

/-! ## The records -/

variable {planner host s} {b : String} {act : SyncAction}

theorem nextLog_of_quiet (h : s.net.Quiet planner host b act) :
    s.nextLog planner host act b = s.log b := by
  unfold nextLog
  cases act with
  | startSync a peer =>
    dsimp only
    rcases hr : s.net.request planner host a peer with _ | r
    · rfl
    · have hne : b ≠ a := fun he => by
        rw [h he.symm] at hr
        cases hr
      exact Function.update_of_ne hne ..
  | receive a =>
    dsimp only
    rcases hr : (s.net a).reading with _ | ⟨r, x⟩
    · rfl
    · have hne : b ≠ a := fun he => by
        rw [h he.symm] at hr
        cases hr
      exact Function.update_of_ne hne ..
  | _ => rfl

theorem nextLog_of_request {peer : PeerConfig} {r : SyncRound}
    (h : s.net.request planner host b peer = some r) :
    s.nextLog planner host (.startSync b peer) b = [] := by
  unfold nextLog
  simp only [h]
  exact Function.update_self ..

theorem nextLog_of_reading {r : SyncRound} {x : Sent} (h : (s.net b).reading = some (r, x)) :
    s.nextLog planner host (.receive b) b = s.log b ++ [s.receipt b x] := by
  unfold nextLog
  simp only [h]
  exact Function.update_self ..

/-- What a run has in its hands. -/
structure RunSound (host : String → Option String) (n : Network) (b : String)
    (log : List Receipt) (r : SyncRound) : Prop where
  peer : r.peer ∈ (n b).peers ∧ host r.peer.addr = some r.server
  pending : ∀ x ∈ r.stream.queue ++ r.stream.toSend, n.MadeFrom r.server x
  logged : ∀ ρ ∈ log, n.MadeFrom r.server ρ.sent
  batch : ∀ y ∈ r.newEvents, ∃ x, x.row = y.1 ∧ n.MadeFrom r.server x ∧
    x.message.machineId ≠ b ∧ messageToFileEvent x.message b = some y.2
  taken : r.outcome = .running → ∀ ρ ∈ log, ρ.sent.message.machineId ≠ b →
    ∃ e, messageToFileEvent ρ.sent.message b = some e ∧
      ((n b).store.Holds e ∨ (ρ.sent.row, e) ∈ r.newEvents) ∧
      (ρ.held = false → (ρ.sent.row, e) ∈ r.newEvents)

structure Sound (host : String → Option String) (s : SyncAudit) : Prop where
  run : ∀ b r, (s.net b).round = some r → RunSound host s.net b (s.log b) r
  delivered : ∀ b, ∀ d ∈ s.delivered b, s.net.MadeFrom d.1 d.2.sent ∧
    (d.2.sent.message.machineId ≠ b → ∃ e, messageToFileEvent d.2.sent.message b = some e ∧
      (s.net b).store.Holds e ∧ (d.2.held = false → (s.net b).store.Has e))

theorem RunSound.mono {n : Network} {log : List Receipt} {r : SyncRound}
    (h : RunSound host n b log r) (act : SyncAction) :
    RunSound host (n.step planner host act) b log r := by
  refine ⟨⟨by rw [Network.peers_step]; exact h.peer.1, h.peer.2⟩,
    fun x hx => (h.pending x hx).step act, fun ρ hρ => (h.logged ρ hρ).step act,
    fun y hy => ?_, fun hrun ρ hρ hne => ?_⟩
  · obtain ⟨x, hrow, hmade, hx⟩ := h.batch y hy
    exact ⟨x, hrow, hmade.step act, hx⟩
  · obtain ⟨e, he, hin, hnew⟩ := h.taken hrun ρ hρ hne
    exact ⟨e, he, hin.imp_left (EventStore.Holds.mono fun _ => Network.rows_step act), hnew⟩

theorem RunSound.read {n : Network} {log : List Receipt} {r : SyncRound} {x : Sent}
    {queue : List Sent} {ρ : Receipt} (h : RunSound host n b log r)
    (hrun : r.outcome = .running) (hq : r.stream.queue = x :: queue) (hρ : ρ.sent = x)
    (hheld : ρ.held = decide (x.message.machineId = b ∨ (n b).store.Known b x.message)) :
    RunSound host n b (log ++ [ρ]) ((n b).take planner b (SyncManager.read r x queue) x) := by
  have hpending : ∀ y ∈ queue ++ r.stream.toSend, n.MadeFrom r.server y := fun y hy =>
    h.pending y (by rw [hq]; exact List.mem_cons_of_mem _ hy)
  have hmade : n.MadeFrom r.server x := h.pending x (by rw [hq]; exact List.mem_cons_self)
  have hlogged : ∀ ρ' ∈ log ++ [ρ], n.MadeFrom r.server ρ'.sent := by
    intro ρ' hρ'
    rcases List.mem_append.1 hρ' with hρ' | hρ'
    · exact h.logged ρ' hρ'
    · rw [List.mem_singleton.1 hρ', hρ]
      exact hmade
  rcases (n b).take_cases planner b (SyncManager.read r x queue) x with
    ⟨hown, heq⟩ | ⟨-, -, heq⟩ | ⟨e, hown, he, ⟨hex, heq⟩ | ⟨hex, heq⟩⟩
  · rw [heq]
    refine ⟨h.peer, hpending, hlogged, h.batch, fun _ ρ' hρ' hne => ?_⟩
    rcases List.mem_append.1 hρ' with hρ' | hρ'
    · exact h.taken hrun ρ' hρ' hne
    · rw [List.mem_singleton.1 hρ', hρ] at hne
      exact absurd hown hne
  · rw [heq]
    exact ⟨h.peer, hpending, hlogged, h.batch, fun hr => (nomatch hr)⟩
  · rw [heq]
    refine ⟨h.peer, hpending, hlogged, h.batch, fun _ ρ' hρ' hne => ?_⟩
    rcases List.mem_append.1 hρ' with hρ' | hρ'
    · exact h.taken hrun ρ' hρ' hne
    · have hholds := SyncManager.holds_of_eventExists hex
      rw [List.mem_singleton.1 hρ', hρ]
      refine ⟨e, he, .inl hholds, fun hf => ?_⟩
      rw [hheld, decide_eq_false_iff_not] at hf
      exact absurd (.inr ⟨e, he, hholds⟩) hf
  · rw [heq]
    refine ⟨h.peer, hpending, hlogged, fun y hy => ?_, fun _ ρ' hρ' hne => ?_⟩
    · rcases List.mem_append.1 hy with hy | hy
      · exact h.batch y hy
      · rw [List.mem_singleton.1 hy]
        exact ⟨x, rfl, hmade, hown, he⟩
    · rcases List.mem_append.1 hρ' with hρ' | hρ'
      · obtain ⟨e', he', hin, hnew⟩ := h.taken hrun ρ' hρ' hne
        exact ⟨e', he', hin.imp_right (List.mem_append_left _),
          fun hf => List.mem_append_left _ (hnew hf)⟩
      · rw [List.mem_singleton.1 hρ', hρ]
        have hin : (x.row, e) ∈ r.newEvents ++ [(x.row, e)] :=
          List.mem_append_right _ List.mem_cons_self
        exact ⟨e, he, .inr hin, fun _ => hin⟩

theorem sound_start (stores : String → EventStore) (peers : String → List PeerConfig) :
    Sound host (start stores peers) :=
  ⟨fun _ _ h => (nomatch h), fun _ _ h => (nomatch h)⟩

theorem Sound.run_step (h : s.Sound host) (act : SyncAction) {r : SyncRound}
    (hr : ((s.step planner host act).net b).round = some r) :
    RunSound host s.net b (s.nextLog planner host act b) r := by
  have hc := Network.step_change planner host s.net b act
  have hnet : (s.step planner host act).net b = s.net.step planner host act b := rfl
  rw [hnet] at hr
  generalize s.net.step planner host act b = m at hc hr
  cases hc with
  | quiet hq _ _ _ hround =>
    rw [nextLog_of_quiet hq]
    exact h.run b r (hround ▸ hr)
  | stream hq _ _ _ hround hround' hpending =>
    rw [hround'] at hr
    cases hr
    rw [nextLog_of_quiet hq]
    have hold := h.run b _ hround
    refine ⟨hold.peer, fun x hx => ?_, hold.logged, hold.batch, hold.taken⟩
    rcases hpending x hx with hx | hx
    · exact hold.pending x hx
    · exact hx
  | failed hround =>
    cases hr
    have hold := h.run b _ hround
    exact ⟨hold.peer, hold.pending, hold.logged, hold.batch, fun hr => (nomatch hr)⟩
  | recorded => exact h.run b r hr
  | @started peer r' hreq =>
    cases hr
    obtain ⟨-, hpeer, server, since, history, hhost, rfl, hmade⟩ := Network.request_eq_some hreq
    rw [nextLog_of_request hreq]
    exact ⟨⟨hpeer, hhost⟩, hmade, fun _ h => (nomatch h), fun _ h => (nomatch h),
      fun _ _ h => (nomatch h)⟩
  | @read r' x hread =>
    cases hr
    obtain ⟨r₀, queue, hround, hrun, -, hq, rfl⟩ := SyncManager.reading_eq_some hread
    rw [nextLog_of_reading hread]
    exact (h.run b r₀ hround).read hrun hq rfl rfl
  | finished hend =>
    rw [Network.finish_of_ending hend] at hr
    cases hr
    have hold := h.run b _ (SyncManager.ending_eq_some hend).1
    exact ⟨hold.peer, hold.pending, hold.logged, hold.batch, fun hr => (nomatch hr)⟩

/-- A daemon's run that ends delivers what it has read. -/
theorem nextDelivered_cases (act : SyncAction) {d : String × Receipt}
    (hd : d ∈ s.nextDelivered act b) : d ∈ s.delivered b ∨
      ∃ now r, act = .finish b now ∧ (s.net b).ending = some r ∧ d.1 = r.server ∧
        d.2 ∈ s.log b := by
  unfold nextDelivered at hd
  cases act with
  | finish a now =>
    dsimp only at hd
    rcases hend : (s.net a).ending with _ | r
    · rw [hend] at hd
      exact .inl hd
    rw [hend] at hd
    by_cases hb : b = a
    · subst hb
      dsimp only at hd
      rw [Function.update_self] at hd
      rcases List.mem_append.1 hd with hd | hd
      · exact .inl hd
      · obtain ⟨ρ, hρ, rfl⟩ := List.mem_map.1 hd
        exact .inr ⟨now, r, rfl, hend, rfl, hρ⟩
    · dsimp only at hd
      rw [Function.update_of_ne hb] at hd
      exact .inl hd
  | _ => exact .inl hd

theorem Sound.step (h : s.Sound host) (act : SyncAction) :
    (s.step planner host act).Sound host := by
  refine ⟨fun b r hr => (h.run_step act hr).mono act, fun b d hd => ?_⟩
  rcases nextDelivered_cases act hd with hd | ⟨now, r, rfl, hend, hserver, hlog⟩
  · obtain ⟨hmade, hstored⟩ := h.delivered b d hd
    refine ⟨hmade.step act, fun hne => ?_⟩
    obtain ⟨e, he, hholds, hhas⟩ := hstored hne
    exact ⟨e, he, hholds.mono fun _ => Network.rows_step act,
      fun hf => (hhas hf).mono fun _ => Network.rows_step act⟩
  · obtain ⟨hround, hrun, -⟩ := SyncManager.ending_eq_some hend
    have hold := h.run b r hround
    have hstore : ((s.step planner host (.finish b now)).net b).store =
        (s.net b).store.insertBatch (r.newEvents.map Prod.snd) := by
      show (Function.update s.net b _ b).store = _
      rw [Function.update_self, Network.finish_of_ending hend]
    refine ⟨?_, fun hne => ?_⟩
    · rw [hserver]
      exact (hold.logged _ hlog).step _
    · obtain ⟨e, he, hin, hnew⟩ := hold.taken hrun _ hlog hne
      have hhas : (d.2.sent.row, e) ∈ r.newEvents →
          ((s.step planner host (.finish b now)).net b).store.Has e := fun hin => by
        rw [hstore]
        exact EventStore.has_insertBatch (List.mem_map_of_mem hin)
      refine ⟨e, he, ?_, fun hf => hhas (hnew hf)⟩
      rcases hin with hholds | hin
      · exact hholds.mono fun _ => Network.rows_step _
      · exact (hhas hin).holds

variable (planner host) in
theorem sound_after (stores : String → EventStore) (peers : String → List PeerConfig)
    (as : List SyncAction) :
    (Run.after (SyncAudit.step planner host) (start stores peers) as).Sound host := by
  induction as using List.reverseRecOn with
  | nil => exact sound_start stores peers
  | append_singleton as a ih =>
    rw [Run.after_snoc]
    exact ih.step a

end SyncAudit

/-! ## Two events -/

/-- A row for the message's file in its second. -/
def Row.For (row : Row) (msg : FileEventMessage) : Prop :=
  row.projectId = msg.projectId ∧ row.filePath = msg.filePath ∧
    ∃ t, DateTime.timestampOpt msg.timestamp = some t ∧ row.timestamp = t.toRfc3339

theorem messageToFileEvent_eq_some {msg : FileEventMessage} {machineId : String} {e : FileEvent}
    (h : messageToFileEvent msg machineId = some e) : e.projectId = msg.projectId ∧
      e.filePath = msg.filePath ∧ e.machineId = machineId ∧
      DateTime.timestampOpt msg.timestamp = some e.timestamp := by
  unfold messageToFileEvent at h
  split at h
  · rename_i hopt
    rcases msg with ⟨_, _, _, _, _, _ | sid, _, _ | hash, _ | old⟩ <;> cases h <;>
      exact ⟨rfl, rfl, rfl, hopt⟩
  · cases h

theorem EventStore.Holds.for {s : EventStore} {msg : FileEventMessage} {machineId : String}
    {e : FileEvent} (h : s.Holds e) (he : messageToFileEvent msg machineId = some e) :
    ∃ row ∈ s.rows, row.For msg := by
  obtain ⟨hproject, hpath, -, ht⟩ := messageToFileEvent_eq_some he
  obtain ⟨row, hrow, hp, hf, -, htext⟩ := h
  exact ⟨row, hrow, hp.trans hproject, hf.trans hpath, e.timestamp, ht, htext⟩

/-- Rows for two messages that differ in the file or the second are two rows. -/
theorem Network.MadeFrom.ne_of_for {n : Network} {server server' : String} {x y : Sent}
    {row row' : Row} (hx : n.MadeFrom server x) (hy : n.MadeFrom server' y)
    (hrow : row.For x.message) (hrow' : row'.For y.message)
    (h : x.message.projectId ≠ y.message.projectId ∨ x.message.filePath ≠ y.message.filePath ∨
      x.message.timestamp ≠ y.message.timestamp) : row ≠ row' := by
  obtain ⟨rx, hrx, -, ex, hex, hmx⟩ := hx
  obtain ⟨ry, hry, -, ey, hey, hmy⟩ := hy
  have hyx := (EventStore.eq_toRow hrx hex).2.trunc
  have hyy := (EventStore.eq_toRow hry hey).2.trunc
  obtain ⟨hp, hf, t, ht, htext⟩ := hrow
  obtain ⟨hp', hf', t', ht', htext'⟩ := hrow'
  rintro rfl
  rcases h with h | h | h
  · exact h (hp.symm.trans hp')
  · exact h (hf.symm.trans hf')
  · have htx : t = ex.timestamp.trunc := by
      rw [hmx] at ht
      simpa [fileEventToMessage] using ht.symm
    have hty : t' = ey.timestamp.trunc := by
      rw [hmy] at ht'
      simpa [fileEventToMessage] using ht'.symm
    have heq : ex.timestamp.trunc = ey.timestamp.trunc :=
      DateTime.toRfc3339_injective hyx hyy (by rw [← htx, ← hty, ← htext, ← htext'])
    apply h
    rw [hmx, hmy]
    show ex.timestamp.timestamp = ey.timestamp.timestamp
    rw [← DateTime.timestamp_trunc ex.timestamp, heq, DateTime.timestamp_trunc]

namespace SyncAudit

variable (planner : Planner) (host : String → Option String)

/-- What completed runs have read of other machines' events is stored, and two events that differ
in the file or the second are stored apart. -/
theorem delivered_apart (stores : String → EventStore) (peers : String → List PeerConfig)
    (as : List SyncAction) (a : String) :
    (∀ d ∈ (Run.after (step planner host) (start stores peers) as).delivered a,
      d.2.sent.message.machineId ≠ a →
      (∃ row ∈ ((Run.after (step planner host) (start stores peers) as).net a).store.rows,
        row.For d.2.sent.message) ∧
      (d.2.held = false →
        ∃ e, messageToFileEvent d.2.sent.message a = some e ∧
        ((Run.after (step planner host) (start stores peers) as).net a).store.Has e)) ∧
    (∀ d ∈ (Run.after (step planner host) (start stores peers) as).delivered a,
      ∀ d' ∈ (Run.after (step planner host) (start stores peers) as).delivered a,
      d.2.sent.message.machineId ≠ a → d'.2.sent.message.machineId ≠ a →
      (d.2.sent.message.projectId ≠ d'.2.sent.message.projectId ∨
        d.2.sent.message.filePath ≠ d'.2.sent.message.filePath ∨
        d.2.sent.message.timestamp ≠ d'.2.sent.message.timestamp) →
      ∃ row ∈ ((Run.after (step planner host) (start stores peers) as).net a).store.rows,
      ∃ row' ∈ ((Run.after (step planner host) (start stores peers) as).net a).store.rows,
        row ≠ row' ∧ row.For d.2.sent.message ∧ row'.For d'.2.sent.message) ∧
    (∀ e, ((Run.after (step planner host) (start stores peers) as).net a).eventExists planner e =
        true →
      ∃ row ∈ ((Run.after (step planner host) (start stores peers) as).net a).store.rows,
        row.projectId = e.projectId ∧ row.filePath = e.filePath ∧
        row.timestamp = e.timestamp.toRfc3339) := by
  have h := sound_after planner host stores peers as
  refine ⟨fun d hd hne => ?_, fun d hd d' hd' hne hne' hdiff => ?_, fun e he => ?_⟩
  · obtain ⟨-, hstored⟩ := h.delivered a d hd
    obtain ⟨e, he, hholds, hhas⟩ := hstored hne
    exact ⟨hholds.for he, fun hf => ⟨e, he, hhas hf⟩⟩
  · obtain ⟨hmade, hstored⟩ := h.delivered a d hd
    obtain ⟨hmade', hstored'⟩ := h.delivered a d' hd'
    obtain ⟨e, he, hholds, -⟩ := hstored hne
    obtain ⟨e', he', hholds', -⟩ := hstored' hne'
    obtain ⟨row, hrow, hfor⟩ := hholds.for he
    obtain ⟨row', hrow', hfor'⟩ := hholds'.for he'
    exact ⟨row, hrow, row', hrow', hmade.ne_of_for hmade' hfor hfor' hdiff, hfor, hfor'⟩
  · obtain ⟨row, hrow, hp, hf, -, htext⟩ := SyncManager.holds_of_eventExists he
    exact ⟨row, hrow, hp, hf, htext⟩

end SyncAudit

/-! ## A second event of a second -/

def sampleEvent (eventType : EventType) : FileEvent :=
  .new .epoch eventType "f" "p" ""

/-- The clock some milliseconds after the hundredth second. -/
def clockAfter (millis : ℕ) (h : millis < 1000) : Clock where
  time := ⟨100000000000 + 1000000 * millis, by unfold minSecs maxSecs nanosPerSec; omega⟩
  afterEpoch := by
    show (0 : ℤ) ≤ 100000000000 + 1000000 * millis
    omega
  fourDigitYear := by
    rw [DateTime.fourDigitYear_iff]
    unfold DateTime.timestamp nanosPerSec
    dsimp only
    omega

/-- Machine a asks machine b, where a file is created and, after the first run, modified in the
same second. -/
def sameSecond : SyncAudit :=
  Run.after (SyncAudit.step .byId fun _ => some "b")
    (.start (fun _ => .new) fun a => if a = "a" then [⟨"b:1", "p"⟩] else [])
    [.record "b" (clockAfter 100 (by decide)) (sampleEvent .created),
      .startSync "a" ⟨"b:1", "p"⟩, .send "a", .handOver "a", .receive "a", .closeStream "a",
      .finish "a" (clockAfter 300 (by decide)),
      .record "b" (clockAfter 500 (by decide)) (sampleEvent .modified),
      .startSync "a" ⟨"b:1", "p"⟩, .send "a", .send "a", .handOver "a", .receive "a",
      .receive "a", .closeStream "a", .finish "a" (clockAfter 700 (by decide))]

theorem not_stored_sameSecond :
    (∃ d ∈ sameSecond.delivered "a", d.2.sent.message.machineId = "b" ∧
      d.2.sent.message.eventType = "modified") ∧
    ∀ row ∈ (sameSecond.net "a").store.rows, row.eventType ≠ "modified" := by
  decide +kernel

end AmbientFs
