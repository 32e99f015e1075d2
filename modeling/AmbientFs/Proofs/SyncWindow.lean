import AmbientFs.Proofs.SyncOrigin

/-!
# The window of a request

The time a request asks from is kept for an address, whatever the project, and taken from the
asking daemon's clock when a run ends. Events that the peer has and no completed run has read stay
in the window exactly if no clock that is read then, and no event that comes later, is out of
step with it.
-/

namespace AmbientFs

namespace SyncAudit

variable (planner : Planner) (host : String → Option String)

/-- A completed run of the daemon has read the message of a row. -/
def Delivered (s : SyncAudit) (a server : String) (id : ℕ) : Prop :=
  ∃ d ∈ s.delivered a, d.1 = server ∧ d.2.sent.row = id

/-- The next request for a project does not ask from a time after an event that the peer has and
no completed run has read. -/
def Covers (s : SyncAudit) : Prop :=
  ∀ a, ∀ peer ∈ (s.net a).peers, ∀ server, host peer.addr = some server →
    ∀ row ∈ (s.net server).store.rows, row.projectId = peer.projectId →
    ¬ s.Delivered a server row.id → ∀ e, row.toEvent = .ok e →
    (s.net a).sinceTimestamp peer.addr * nanosPerSec ≤ e.timestamp.nanos

/-- No daemon that asks the machine for the project asks from later than the time. -/
def Expected (s : SyncAudit) (server projectId : String) (t : DateTime) : Prop :=
  ∀ a, ∀ peer ∈ (s.net a).peers, host peer.addr = some server → peer.projectId = projectId →
    (s.net a).sinceTimestamp peer.addr * nanosPerSec ≤ t.nanos

/-- A new event is not before the time that is asked from, and the clock at the end of a run is
not after an event the peer has, in any project asked for at this address, that has not been
read. -/
def Timely (s : SyncAudit) : SyncAction → Prop
  | .record b now e => s.Expected host b e.projectId now.time
  | .finish a now => ∀ r, (s.net a).ending = some r →
      (∀ y ∈ r.newEvents, s.Expected host a y.2.projectId y.2.timestamp) ∧
      ∀ peer ∈ (s.net a).peers, peer.addr = r.peer.addr →
        ∀ row ∈ (s.net r.server).store.rows, row.projectId = peer.projectId →
        ¬ s.Delivered a r.server row.id → (∀ ρ ∈ s.log a, ρ.sent.row ≠ row.id) →
        ∀ e, row.toEvent = .ok e → now.time.timestamp * nanosPerSec ≤ e.timestamp.nanos
  | _ => True

variable {planner host} {s : SyncAudit} {a b server : String} {act : SyncAction} {id : ℕ}

theorem Delivered.step (h : s.Delivered a server id) (act : SyncAction) :
    (s.step planner host act).Delivered a server id := by
  obtain ⟨d, hd, hrow⟩ := h
  refine ⟨d, ?_, hrow⟩
  show d ∈ s.nextDelivered act a
  unfold nextDelivered
  cases act with
  | finish c now =>
    dsimp only
    rcases hend : (s.net c).ending with _ | r
    · exact hd
    · by_cases hc : a = c
      · subst hc
        simp only [Function.update_self]
        exact List.mem_append_left _ hd
      · simp only [Function.update_of_ne hc]
        exact hd
  | _ => exact hd

/-- The end of a run delivers what it has read. -/
theorem delivered_finish {r : SyncRound} {now : Clock} (hend : (s.net a).ending = some r) :
    (s.step planner host (.finish a now)).Delivered a server id ↔
      s.Delivered a server id ∨ r.server = server ∧ ∃ ρ ∈ s.log a, ρ.sent.row = id := by
  have hnext : (s.step planner host (.finish a now)).delivered a =
      s.delivered a ++ (s.log a).map (r.server, ·) := by
    show s.nextDelivered (.finish a now) a = _
    unfold nextDelivered
    simp only [hend]
    exact Function.update_self ..
  unfold Delivered
  rw [hnext]
  constructor
  · rintro ⟨d, hd, hserver, hid⟩
    rcases List.mem_append.1 hd with hd | hd
    · exact .inl ⟨d, hd, hserver, hid⟩
    · obtain ⟨ρ, hρ, rfl⟩ := List.mem_map.1 hd
      exact .inr ⟨hserver, ρ, hρ, hid⟩
  · rintro (⟨d, hd, hrow⟩ | ⟨rfl, ρ, hρ, rfl⟩)
    · exact ⟨d, List.mem_append_left _ hd, hrow⟩
    · exact ⟨_, List.mem_append_right _ (List.mem_map_of_mem hρ), rfl, rfl⟩

/-- What is delivered has a row. -/
theorem Ranged.id_le (h : s.Ranged host) (hd : s.Delivered a server id) :
    id ≤ (s.net server).store.lastId := by
  obtain ⟨d, hd, rfl, rfl⟩ := hd
  obtain ⟨row, hrow, hid, -⟩ := (h.sound.delivered a d hd).1
  rw [← hid]
  exact (s.net d.1).store.id_le row hrow

/-- A row that is new is not delivered. -/
theorem Ranged.not_delivered (h : s.Ranged host) (hid : (s.net b).store.lastId < id) :
    ¬ (s.step planner host act).Delivered a b id := by
  rintro ⟨d, hd, rfl, rfl⟩
  rcases nextDelivered_cases act hd with hd | ⟨now, r, -, hend, hserver, hlog⟩
  · have := h.id_le ⟨d, hd, rfl, rfl⟩
    omega
  · obtain ⟨row, hrow, hrid, -⟩ :=
      (h.sound.run a r (SyncManager.ending_eq_some hend).1).logged _ hlog
    rw [← hserver] at hrow
    have := (s.net d.1).store.id_le row hrow
    omega

/-- A run against the daemon itself stores nothing. -/
theorem Ranged.newEvents_self (h : s.Ranged host) {r : SyncRound}
    (hround : (s.net a).round = some r) (hself : r.server = a) : r.newEvents = [] := by
  by_contra hne
  obtain ⟨y, hy⟩ := List.exists_mem_of_ne_nil _ hne
  obtain ⟨x, -, hmade, hxne, -⟩ := (h.sound.run a r hround).batch y hy
  exact hxne ((h.message hmade).1.trans hself)

theorem covers_step (h : s.Ranged host) (hc : s.Covers host) (ht : s.Timely host act) :
    (s.step planner host act).Covers host := by
  intro a peer hpeer server hhost row hrow hproject hnew e he
  have hpeers : peer ∈ (s.net a).peers := by
    rw [← Network.peers_step planner host s.net a act]
    exact hpeer
  have hold : ¬ s.Delivered a server row.id := fun hd => hnew (hd.step act)
  rcases Network.since_cases planner host s.net a act peer.addr with
    hsince | ⟨now, r, rfl, hend, haddr, hsince⟩
  · show (s.net.step planner host act a).sinceTimestamp peer.addr * _ ≤ _
    rw [hsince]
    rcases Network.rows_cases act hrow with hrow | ⟨now, e', rfl, rfl⟩ |
      ⟨now, r, rfl, hend, y, hy, hrowy, -⟩
    · exact hc a peer hpeers server hhost row hrow hproject hold e he
    · obtain ⟨rfl, -⟩ := FileEvent.eq_of_toEvent_toRow he
      exact ht a peer hpeers hhost hproject.symm
    · rw [hrowy] at he hproject
      obtain ⟨rfl, -⟩ := FileEvent.eq_of_toEvent_toRow he
      exact (ht r hend).1 y hy a peer hpeers hhost hproject.symm
  · show (s.net.step planner host (.finish a now) a).sinceTimestamp peer.addr * _ ≤ _
    rw [hsince]
    obtain ⟨hround, -⟩ := SyncManager.ending_eq_some hend
    have hserver : r.server = server := by
      have := (h.sound.run a r hround).peer.2
      rw [← haddr, hhost] at this
      exact (Option.some.inj this).symm
    subst hserver
    rcases Network.rows_cases _ hrow with hrow | ⟨_, _, hact, -⟩ | ⟨_, r', hact, hend', y, hy, -⟩
    · refine (ht r hend).2 peer hpeers haddr row hrow hproject hold (fun ρ hρ hid => ?_) e he
      exact hnew ((delivered_finish hend).2 (.inr ⟨rfl, ρ, hρ, hid⟩))
    · cases hact
    · obtain ⟨hself, -⟩ := SyncAction.finish.inj hact
      rw [← hself, hend] at hend'
      cases hend'
      rw [h.newEvents_self hround hself.symm] at hy
      cases hy

/-- A new row, and a daemon that asks for it from later. -/
theorem Ranged.not_covers_of_row (h : s.Ranged host) {e : FileEvent} (id : ℕ)
    (hrow : e.toRow id ∈ ((s.step planner host act).net b).store.rows)
    (hid : (s.net b).store.lastId < id) (ht : e.timestamp.OnClock)
    (hsince : ∀ a, ∀ peer ∈ (s.net a).peers, host peer.addr = some b →
      ((s.step planner host act).net a).sinceTimestamp peer.addr =
        (s.net a).sinceTimestamp peer.addr)
    (hlate : ¬ s.Expected host b e.projectId e.timestamp) :
    ¬ (s.step planner host act).Covers host := by
  intro hc
  apply hlate
  intro a peer hpeer hhost hproject
  have hpeers : peer ∈ ((s.step planner host act).net a).peers := by
    show peer ∈ (s.net.step planner host act a).peers
    rw [Network.peers_step]
    exact hpeer
  have hre : (e.toRow id).toEvent = .ok e := FileEvent.toEvent_toRow ht.2 _
  have hrproject : (e.toRow id).projectId = peer.projectId := hproject.symm
  rw [← hsince a peer hpeer hhost]
  exact hc a peer hpeers b hhost _ hrow hrproject (h.not_delivered hid) e hre

theorem Ranged.not_covers (h : s.Ranged host) (ht : ¬ s.Timely host act) :
    ¬ (s.step planner host act).Covers host := by
  cases act with
  | record b now e =>
    refine h.not_covers_of_row (b := b) (e := { e with timestamp := now.time, machineId := b })
      ((s.net b).store.lastId + 1) ?_ (Nat.lt_succ_self _) now.onClock (fun a peer _ _ => ?_) ht
    · show _ ∈ (Function.update s.net b _ b).store.rows
      rw [Function.update_self]
      exact EventStore.mem_insert.2 (.inr rfl)
    · rcases Network.since_cases planner host s.net a (.record b now e) peer.addr with
        heq | ⟨_, _, hact, -⟩
      · exact heq
      · cases hact
  | finish a now =>
    simp only [Timely, not_forall] at ht
    obtain ⟨r, hend, ht⟩ := ht
    obtain ⟨hround, -⟩ := SyncManager.ending_eq_some hend
    have hnet : (s.step planner host (.finish a now)).net a = (s.net a).finish now :=
      Function.update_self ..
    rw [not_and_or] at ht
    rcases ht with ht | ht
    · simp only [not_forall] at ht
      obtain ⟨y, hy, hlate⟩ := ht
      obtain ⟨x, -, hmade, -, hconv⟩ := (h.sound.run a r hround).batch y hy
      obtain ⟨i, hi⟩ := List.mem_iff_get.1 (List.mem_map_of_mem (f := Prod.snd) hy)
      have hother : r.server ≠ a := fun hself => by
        rw [h.newEvents_self hround hself] at hy
        cases hy
      refine h.not_covers_of_row (b := a) (e := y.2) ((s.net a).store.lastId + 1 + i) ?_ ?_
        ((h.message hmade).2 a y.2 hconv).1 (fun c peer hpeer hhost => ?_) hlate
      · rw [hnet, Network.finish_of_ending hend, ← hi]
        exact EventStore.exists_mem_insertBatch i.2
      · show (s.net a).store.lastId < (s.net a).store.lastId + 1 + i
        omega
      · rcases Network.since_cases planner host s.net c (.finish a now) peer.addr with
          heq | ⟨_, r', hact, hend', haddr, -⟩
        · exact heq
        · obtain ⟨rfl, -⟩ := SyncAction.finish.inj hact
          rw [hend] at hend'
          cases hend'
          have := (h.sound.run a r hround).peer.2
          rw [← haddr, hhost] at this
          exact absurd (Option.some.inj this).symm hother
    · intro hc
      apply ht
      intro peer hpeer haddr row hrow hproject hold hunread e he
      have hpeers : peer ∈ ((s.step planner host (.finish a now)).net a).peers := by
        show peer ∈ (s.net.step planner host (.finish a now) a).peers
        rw [Network.peers_step]
        exact hpeer
      have hhost : host peer.addr = some r.server := by
        rw [haddr]
        exact (h.sound.run a r hround).peer.2
      have hsince : ((s.step planner host (.finish a now)).net a).sinceTimestamp peer.addr =
          now.time.timestamp := by
        rw [hnet, Network.since_finish hend, if_pos haddr]
      rw [← hsince]
      refine hc a peer hpeers r.server hhost row (Network.rows_step _ hrow) hproject (fun hd => ?_)
        e he
      rcases (delivered_finish hend).1 hd with hd | ⟨-, ρ, hρ, hid⟩
      · exact hold hd
      · exact hunread ρ hρ hid
  | _ => exact absurd trivial ht

/-- Undelivered events stay in the window throughout a run exactly if every step is timely. -/
theorem always_covers_iff (planner : Planner) (host : String → Option String)
    (peers : String → List PeerConfig) (as : List SyncAction) :
    Run.Always (step planner host) (start (fun _ => .new) peers) (Covers host) as ↔
      Run.Steps (step planner host) (start (fun _ => .new) peers) (Timely host) as :=
  Run.always_iff_steps (I := fun s => s.Ranged host ∧ s.Covers host)
    ⟨ranged_start peers, fun _ _ _ _ _ _ h => (nomatch h)⟩ (fun _ h => h.2)
    (fun _ act h ht => ⟨h.1.step act, covers_step h.1 h.2 ht⟩) fun _ _ h ht => h.1.not_covers ht

variable (a b) in
theorem not_covers_of_early (peer : PeerConfig) (hhost : host peer.addr = some b)
    (hpeer : peer ∈ (s.net a).peers) (hnone : (s.delivered a).isEmpty = true)
    (hearly : ∃ row ∈ (s.net b).store.rows, row.projectId = peer.projectId ∧
      (row.toEvent.toOption.any fun e => decide
        (e.timestamp.nanos < (s.net a).sinceTimestamp peer.addr * nanosPerSec)) = true) :
    ¬ s.Covers host := by
  intro hc
  obtain ⟨row, hrow, hproject, hany⟩ := hearly
  cases he : row.toEvent with
  | error err =>
    rw [he] at hany
    cases hany
  | ok e =>
    rw [he] at hany
    have hlt : e.timestamp.nanos < (s.net a).sinceTimestamp peer.addr * nanosPerSec :=
      of_decide_eq_true hany
    have hle := hc a peer hpeer b hhost row hrow hproject
      (by rintro ⟨d, hd, -⟩; rw [List.isEmpty_iff.1 hnone] at hd; cases hd) e he
    exact absurd hlt (not_lt.2 hle)

/-- Two projects are asked for at one address, and the run for the first of them ends. -/
theorem not_covers_two_projects : ¬ Run.Always (step .byId fun _ => some "b")
    (start (fun _ => .new) fun a => if a = "a" then [⟨"b:1", "q"⟩, ⟨"b:1", "p"⟩] else [])
    (Covers fun _ => some "b")
    [.record "b" (clockAfter 0 (by decide)) (sampleEvent .created), .startSync "a" ⟨"b:1", "q"⟩,
      .handOver "a", .closeStream "a", .finish "a" sampleClock] := by
  intro h
  exact not_covers_of_early "a" "b" ⟨"b:1", "p"⟩ rfl (by decide +kernel) (by decide +kernel)
    (by decide +kernel) (h _ List.prefix_rfl)

end SyncAudit

end AmbientFs
