import AmbientFs.Proofs.SyncSession

/-!
# Steps of a network

What one step changes at each daemon, and what messages are made from. Rows are only added, so a
message that was made from a row of a store stays so.
-/

namespace AmbientFs

namespace Network

variable (planner : Planner) (host : String → Option String) (n : Network)

/-- The message of a row there is at the server. -/
def MadeFrom (server : String) (x : Sent) : Prop :=
  ∃ row ∈ (n server).store.rows, row.id = x.row ∧
    ∃ e, row.toEvent = .ok e ∧ x.message = fileEventToMessage e

/-- The action does nothing with the store or the run of a daemon that the audits record. -/
def Quiet (b : String) : SyncAction → Prop
  | .record a _ _ => a ≠ b
  | .startSync a peer => a = b → n.request planner host a peer = none
  | .receive a => a = b → (n a).reading = none
  | .finish a _ => a = b → (n a).ending = none
  | _ => True

/-- What an action can do to a daemon. -/
inductive Change (b : String) : SyncAction → SyncManager → Prop
  | quiet {act : SyncAction} {m : SyncManager} : n.Quiet planner host b act →
    m.store = (n b).store → m.peers = (n b).peers → m.lastSync = (n b).lastSync →
    m.round = (n b).round → Change b act m
  | stream {act : SyncAction} {m : SyncManager} {r : SyncRound} {s : SyncStream} :
    n.Quiet planner host b act →
    m.store = (n b).store → m.peers = (n b).peers → m.lastSync = (n b).lastSync →
    (n b).round = some r → m.round = some { r with stream := s } →
    (∀ x ∈ s.queue ++ s.toSend, x ∈ r.stream.queue ++ r.stream.toSend ∨ n.MadeFrom r.server x) →
    Change b act m
  | failed {r : SyncRound} : (n b).round = some r → r.outcome = .running →
    Change b (.fail b) { n b with round := some { r with outcome := .failed } }
  | recorded {now : Clock} {e : FileEvent} : Change b (.record b now e) ((n b).record b now e)
  | started {peer : PeerConfig} {r : SyncRound} : n.request planner host b peer = some r →
    Change b (.startSync b peer) { n b with round := some r }
  | read {r : SyncRound} {x : Sent} : (n b).reading = some (r, x) →
    Change b (.receive b) { n b with round := some ((n b).take planner b r x) }
  | finished {r : SyncRound} {now : Clock} : (n b).ending = some r →
    Change b (.finish b now) ((n b).finish now)

variable {planner host n} {b : String}

theorem Change.refl {act : SyncAction} (h : n.Quiet planner host b act) :
    Change planner host n b act (n b) :=
  .quiet h rfl rfl rfl rfl

/-- A step of another daemon. -/
theorem change_update {a : String} {act : SyncAction} {m : SyncManager}
    (hself : Change planner host n a act m) (hother : a ≠ b → n.Quiet planner host b act) :
    Change planner host n b act (Function.update n a m b) := by
  by_cases hb : b = a
  · subst hb
    rw [Function.update_self]
    exact hself
  · rw [Function.update_of_ne hb]
    exact .refl (hother (Ne.symm hb))

theorem change_onStream {act : SyncAction} {m : SyncManager} {f : SyncStream → SyncStream}
    (hq : n.Quiet planner host b act) (hstore : m.store = (n b).store)
    (hpeers : m.peers = (n b).peers) (hsync : m.lastSync = (n b).lastSync)
    (hround : m.round = (n b).round)
    (hf : ∀ r, (n b).round = some r → ∀ x ∈ (f r.stream).queue ++ (f r.stream).toSend,
      x ∈ r.stream.queue ++ r.stream.toSend ∨ n.MadeFrom r.server x) :
    Change planner host n b act (m.onStream f) := by
  rcases m.onStream_cases f with heq | ⟨r, hr, -, heq⟩
  · rw [heq]
    exact .quiet hq hstore hpeers hsync hround
  · rw [heq]
    rw [hround] at hr
    exact .stream hq hstore hpeers hsync hr rfl (hf r hr)

/-! ## The streams' contents -/

theorem mem_send {s : SyncStream} {x : Sent} (h : x ∈ s.send.queue ++ s.send.toSend) :
    x ∈ s.queue ++ s.toSend := by
  unfold SyncStream.send at h
  rcases hs : s.toSend with _ | ⟨y, rest⟩
  · rw [hs] at h
    simpa [hs] using h
  · rw [hs] at h
    dsimp only at h
    split_ifs at h
    · simpa using h
    · simpa [hs] using h

theorem mem_handOver {s : SyncStream} {x : Sent} (h : x ∈ s.handOver.queue ++ s.handOver.toSend) :
    x ∈ s.queue ++ s.toSend := by
  unfold SyncStream.handOver at h
  split_ifs at h <;> exact h

theorem mem_close {s : SyncStream} {x : Sent} (h : x ∈ s.close.queue ++ s.close.toSend) :
    x ∈ s.queue ++ s.toSend := by
  unfold SyncStream.close at h
  split_ifs at h
  · exact List.mem_append_left _ (by simpa using h)
  · exact h

theorem mem_publish {s : SyncStream} {x y : Sent}
    (h : x ∈ (s.publish y).queue ++ (s.publish y).toSend) : x ∈ s.queue ++ s.toSend ∨ x = y := by
  unfold SyncStream.publish at h
  split_ifs at h
  · simp only [List.mem_append, List.mem_singleton] at h ⊢
    tauto
  · exact .inl h

/-! ## Requests -/

theorem madeFrom_history {server : String} {projectId : String} {since : DateTime}
    {history : List Sent}
    (h : (n server).store.history planner projectId since = .ok history) {x : Sent}
    (hx : x ∈ history) : n.MadeFrom server x := by
  unfold EventStore.history at h
  obtain ⟨row, hrow, hx⟩ := (mem_of_mapM_ok h).1 hx
  obtain ⟨hrow, -⟩ := (EventStore.mem_select_of_no_limit rfl).1 hrow
  cases he : row.toEvent with
  | error err =>
    rw [he] at hx
    cases hx
  | ok e =>
    rw [he] at hx
    cases hx
    exact ⟨row, hrow, rfl, e, he, rfl⟩

theorem request_eq_some {peer : PeerConfig} {r : SyncRound}
    (h : n.request planner host b peer = some r) :
    (n b).busy = false ∧ peer ∈ (n b).peers ∧ ∃ server since history,
      host peer.addr = some server ∧ r = .start peer server since history ∧
      ∀ x ∈ history, n.MadeFrom server x := by
  unfold request at h
  dsimp only at h
  split_ifs at h with hbusy
  rw [not_or, Bool.not_eq_true, not_not] at hbusy
  rcases hhost : host peer.addr with _ | server
  · rw [hhost] at h
    cases h
  rcases ht : DateTime.timestampOpt ((n b).sinceTimestamp peer.addr) with _ | t
  · rw [hhost, ht] at h
    cases h
  rw [hhost, ht] at h
  dsimp only at h
  rcases hh : (n server).store.history planner peer.projectId t with err | history
  · rw [hh] at h
    cases h
  · rw [hh] at h
    cases h
    exact ⟨hbusy.1, hbusy.2, server, _, history, rfl, rfl, fun x hx => madeFrom_history hh hx⟩

/-! ## One step -/

theorem unpublishedEvent_eq_some {a : String} {id : ℕ} {e : FileEvent}
    (h : n.unpublishedEvent a id = some e) : n.MadeFrom a ⟨id, fileEventToMessage e⟩ := by
  unfold unpublishedEvent at h
  split_ifs at h
  rcases hrow : (n a).store.rows.find? (·.id = id) with _ | row
  · rw [hrow] at h
    cases h
  rw [hrow] at h
  dsimp only at h
  have hid := List.find?_some hrow
  cases he : row.toEvent with
  | error err =>
    rw [he] at h
    cases h
  | ok e' =>
    rw [he] at h
    cases h
    exact ⟨row, List.mem_of_find?_eq_some hrow, of_decide_eq_true hid, e, he, rfl⟩

theorem publish_change (a : String) (id : ℕ) :
    Change planner host n b (.publish a id) (n.publish a id b) := by
  have hq : n.Quiet planner host b (.publish a id) := trivial
  unfold publish
  rcases he : n.unpublishedEvent a id with _ | e
  · exact .refl hq
  dsimp only
  set m := if b = a then { n b with unpublished := (n b).unpublished.erase id } else n b with hm
  have hround : m.round = (n b).round := by
    rw [hm]
    split_ifs <;> rfl
  refine change_onStream hq (by rw [hm]; split_ifs <;> rfl) (by rw [hm]; split_ifs <;> rfl)
    (by rw [hm]; split_ifs <;> rfl) hround fun r hr x hx => ?_
  rw [hround, hr] at hx
  split_ifs at hx with hto
  · rcases mem_publish hx with hx | rfl
    · exact .inl hx
    · have hserver : r.server = a := (of_decide_eq_true hto).1
      rw [hserver]
      exact .inr (unpublishedEvent_eq_some he)
  · exact .inl hx

variable (planner host n b) in
theorem step_change (act : SyncAction) :
    Change planner host n b act (n.step planner host act b) := by
  have hstream : ∀ (a : String) (act : SyncAction) (f : SyncStream → SyncStream),
      (∀ b, n.Quiet planner host b act) →
      (∀ s x, x ∈ (f s).queue ++ (f s).toSend → x ∈ s.queue ++ s.toSend) →
      Change planner host n b act (Function.update n a ((n a).onStream f) b) :=
    fun a act f hq hf => change_update
      (change_onStream (hq a) rfl rfl rfl rfl fun r _ x hx => .inl (hf _ x hx)) fun _ => hq b
  cases act with
  | record a now e => exact change_update .recorded id
  | publish a id => exact publish_change a id
  | startSync a peer =>
    show Change planner host n b _ (n.startSync planner host a peer b)
    unfold startSync
    rcases hr : n.request planner host a peer with _ | r
    · exact .refl fun _ => hr
    · exact change_update (.started hr) fun hne he => absurd he hne
  | send a => exact hstream a _ _ (fun _ => trivial) fun _ _ => mem_send
  | handOver a => exact hstream a _ _ (fun _ => trivial) fun _ _ => mem_handOver
  | closeStream a => exact hstream a _ _ (fun _ => trivial) fun _ _ => mem_close
  | receive a =>
    refine change_update ?_ fun hne he => absurd he hne
    unfold SyncManager.receive
    rcases hr : (n a).reading with _ | ⟨r, x⟩
    · exact .refl fun _ => hr
    · exact .read hr
  | finish a now =>
    refine change_update ?_ fun hne he => absurd he hne
    rcases hr : (n a).ending with _ | r
    · have hsame : (n a).finish now = n a := by
        unfold SyncManager.finish
        rw [hr]
      rw [hsame]
      exact .refl fun _ => hr
    · exact .finished hr
  | fail a =>
    refine change_update ?_ fun _ => trivial
    rcases (n a).fail_cases with heq | ⟨r, hr, hrun, heq⟩
    · rw [heq]
      exact .refl trivial
    · rw [heq]
      exact .failed hr hrun

theorem finish_of_ending {m : SyncManager} {r : SyncRound} (h : m.ending = some r) (now : Clock) :
    m.finish now = { m with
      store := m.store.insertBatch (r.newEvents.map Prod.snd)
      lastSync := Function.update m.lastSync r.peer.addr (some now.time.timestamp)
      round := some { r with outcome := .done }
      unpublished := m.unpublished ++
        (List.range r.newEvents.length).map (m.store.lastId + 1 + ·) } := by
  unfold SyncManager.finish
  rw [h]

/-- Rows are only added. -/
theorem rows_step (act : SyncAction) {row : Row} (h : row ∈ (n b).store.rows) :
    row ∈ (n.step planner host act b).store.rows := by
  have hc := step_change planner host n b act
  generalize n.step planner host act b = m at hc
  cases hc with
  | quiet _ hstore => rwa [hstore]
  | stream _ hstore => rwa [hstore]
  | failed => exact h
  | recorded => exact EventStore.mem_insert.2 (.inl h)
  | started => exact h
  | read => exact h
  | finished hend =>
    rw [finish_of_ending hend]
    exact EventStore.mem_insertBatch_of_mem h

/-- A row that is new is of a local event or of a run that has ended. -/
theorem rows_cases (act : SyncAction) {row : Row}
    (h : row ∈ (n.step planner host act b).store.rows) : row ∈ (n b).store.rows ∨
      (∃ now e, act = .record b now e ∧ row = FileEvent.toRow
        { e with timestamp := now.time, machineId := b } ((n b).store.lastId + 1)) ∨
      ∃ now r, act = .finish b now ∧ (n b).ending = some r ∧
        ∃ y ∈ r.newEvents, row = y.2.toRow row.id ∧ (n b).store.lastId < row.id := by
  have hc := step_change planner host n b act
  generalize n.step planner host act b = m at hc h
  cases hc with
  | quiet _ hstore => exact .inl (hstore ▸ h)
  | stream _ hstore => exact .inl (hstore ▸ h)
  | failed => exact .inl h
  | started => exact .inl h
  | read => exact .inl h
  | recorded =>
    rcases EventStore.mem_insert.1 h with h | h
    · exact .inl h
    · exact .inr (.inl ⟨_, _, rfl, h⟩)
  | finished hend =>
    rw [finish_of_ending hend] at h
    rcases EventStore.mem_insertBatch h with h | ⟨i, hi, rfl⟩
    · exact .inl h
    · obtain ⟨y, hy, hye⟩ := List.mem_map.1 (List.get_mem _ ⟨i, hi⟩)
      refine .inr (.inr ⟨_, _, rfl, hend, y, hy, by rw [hye]; rfl, ?_⟩)
      show (n b).store.lastId < (n b).store.lastId + 1 + i
      omega

theorem since_finish {m : SyncManager} {r : SyncRound} (h : m.ending = some r) (now : Clock)
    (addr : String) : (m.finish now).sinceTimestamp addr =
      if addr = r.peer.addr then now.time.timestamp else m.sinceTimestamp addr := by
  rw [finish_of_ending h]
  unfold SyncManager.sinceTimestamp
  by_cases haddr : addr = r.peer.addr
  · simp [haddr]
  · simp [haddr]

variable (planner host n b) in
/-- The time the next request asks from changes only with a run that has ended. -/
theorem since_cases (act : SyncAction) (addr : String) :
    (n.step planner host act b).sinceTimestamp addr = (n b).sinceTimestamp addr ∨
      ∃ now r, act = .finish b now ∧ (n b).ending = some r ∧ addr = r.peer.addr ∧
        (n.step planner host act b).sinceTimestamp addr = now.time.timestamp := by
  have hc := step_change planner host n b act
  generalize n.step planner host act b = m at hc
  have hsame : ∀ m : SyncManager, m.lastSync = (n b).lastSync →
      m.sinceTimestamp addr = (n b).sinceTimestamp addr := by
    intro m hm
    unfold SyncManager.sinceTimestamp
    rw [hm]
  cases hc with
  | quiet _ _ _ hsync => exact .inl (hsame m hsync)
  | stream _ _ _ hsync => exact .inl (hsame m hsync)
  | @finished r now hend =>
    rw [since_finish hend]
    split_ifs with haddr
    · exact .inr ⟨now, r, rfl, hend, haddr, rfl⟩
    · exact .inl rfl
  | _ => exact .inl rfl

variable (planner host n b) in
theorem peers_step (act : SyncAction) : (n.step planner host act b).peers = (n b).peers := by
  have hc := step_change planner host n b act
  generalize n.step planner host act b = m at hc
  cases hc with
  | quiet _ _ hpeers => exact hpeers
  | stream _ _ hpeers => exact hpeers
  | finished hend => rw [finish_of_ending hend]
  | _ => rfl

theorem MadeFrom.step {server : String} {x : Sent} (h : n.MadeFrom server x) (act : SyncAction) :
    (n.step planner host act).MadeFrom server x := by
  obtain ⟨row, hrow, hx⟩ := h
  exact ⟨row, rows_step act hrow, hx⟩

end Network

end AmbientFs
