import AmbientFs.Proofs.GatewayDelivery

/-!
# The routing table

A daemon registers anew each time it connects, and a connection it has already is not replaced. The
end of a stream removes what the table has for the project and the machine of the first event on
it. A stream has the connections its machine registered before it opened and after the stream it
had opened before that one; what the end of a stream removes need not be those.
-/

namespace AmbientFs

open Mpsc

namespace GatewayServer

variable {g : GatewayServer}

/-- The table has at most one connection per project and machine. -/
def Unique (g : GatewayServer) : Prop := ∀ p, ((g.connections p).map (·.machineId)).Nodup

/-- No channel is that of two connections for one project. -/
def OwnChannels (g : GatewayServer) : Prop := ∀ p, ((g.connections p).map (·.tx)).Nodup

theorem connections_unregisterDaemon (g : GatewayServer) (projectId machineId p : String) :
    (g.unregisterDaemon projectId machineId).connections p =
      if p = projectId then (g.connections p).filter (·.machineId ≠ machineId)
      else g.connections p := by
  unfold unregisterDaemon
  by_cases hp : p = projectId
  · rw [if_pos hp, hp]
    exact Function.update_self ..
  · rw [if_neg hp]
    exact Function.update_of_ne hp ..

theorem connections_registerDaemon (g : GatewayServer) (projectId machineId : String) (tx now : ℕ)
    (p : String) : (g.registerDaemon projectId machineId tx now).connections p =
      if p = projectId then g.connections p ++ [.new machineId tx now] else g.connections p := by
  unfold registerDaemon
  by_cases hp : p = projectId
  · rw [if_pos hp, hp]
    exact Function.update_self ..
  · rw [if_neg hp]
    exact Function.update_of_ne hp ..

/-- Seeing a daemon changes neither the machine nor the channel of a connection. -/
theorem map_connections_seen {α : Type*} (g : GatewayServer) (projectId sender : String) (now : ℕ)
    {f : DaemonConnection → α} (hf : ∀ c, f (c.updateLastSeen now) = f c) (p : String) :
    ((g.seen projectId sender now).connections p).map f = (g.connections p).map f := by
  unfold seen
  by_cases hp : p = projectId
  · rw [hp]
    dsimp only
    rw [Function.update_self, List.map_map]
    refine List.map_congr_left fun c _ => ?_
    rw [Function.comp_apply]
    split_ifs
    · exact hf c
    · rfl
  · dsimp only
    rw [Function.update_of_ne hp]

/-- An event gets into a channel at most once. -/
theorem sendToOthers_sent_le (sender : String) (event : FileEventMessage) (ch : ℕ) :
    ∀ (conns : List DaemonConnection) (channels : Channels), (conns.map (·.tx)).Nodup →
      ((sendToOthers sender event conns channels).1 ch).sent.length ≤
        (channels ch).sent.length + 1
  | [], _, _ => Nat.le_succ _
  | c :: conns, channels, h => by
    obtain ⟨hc, hrest⟩ := List.nodup_cons.1 h
    unfold sendToOthers
    split_ifs
    · exact sendToOthers_sent_le sender event ch conns channels hrest
    · split
      · exact sendToOthers_sent_le sender event ch conns channels hrest
      · rename_i ch' hsend
        dsimp only
        by_cases hch : ch = c.tx
        · rw [hch, sendToOthers_of_not_mem _ _ _ _ fun c' hc' he =>
            hc (List.mem_map.2 ⟨c', hc', he⟩), Function.update_self]
          rw [Channel.sent_of_trySend hsend, List.length_append, List.length_singleton]
        · refine (sendToOthers_sent_le sender event ch conns _ hrest).trans_eq ?_
          rw [Function.update_of_ne hch]

end GatewayServer

/-- A registration of a machine, with its channel and the channel of the stream it belongs to once
there is one. -/
structure Registration where
  machine : String
  tx : ℕ
  stream : Option ℕ

/-- The gateway with the registrations made so far. -/
structure GatewayLedger where
  service : GatewayService
  registrations : List Registration

namespace GatewayLedger

def start : GatewayLedger := ⟨.new, []⟩

/-- A machine's registrations so far go to the stream it opens. -/
def step (s : GatewayLedger) (a : GatewayAction) : GatewayLedger where
  service := s.service.step a
  registrations := match a with
    | .register projectId machineId =>
      if projectId = "" ∨ machineId = "" then s.registrations
      else s.registrations ++ [⟨machineId, s.service.made, none⟩]
    | .relay k daemon =>
      match s.service.relays k with
      | some _ => s.registrations
      | none => s.registrations.map fun g =>
        if g.machine = daemon ∧ g.stream = none then { g with stream := some s.service.made } else g
    | _ => s.registrations

/-- A connection belongs to the stream with this channel. -/
def Belongs (s : GatewayLedger) (c : DaemonConnection) (outbound : ℕ) : Prop :=
  ∃ g ∈ s.registrations, g.tx = c.tx ∧ g.stream = some outbound

instance (s : GatewayLedger) (c : DaemonConnection) (outbound : ℕ) :
    Decidable (s.Belongs c outbound) :=
  inferInstanceAs (Decidable (∃ g ∈ s.registrations, _))

/-- The end of a stream removes the connections that belong to it and no others. -/
def ClosesOwn (s : GatewayLedger) : GatewayAction → Prop
  | .close k => ∀ r, s.service.relays k = some r →
    ∀ p, ∀ c ∈ s.service.server.connections p,
      c ∉ (s.step (.close k)).service.server.connections p ↔ s.Belongs c r.outbound
  | _ => True

/-- How many events have been sent on a machine's connections for a project. -/
def sentTo (channels : Channels) (conns : List DaemonConnection) (machine : String) : ℕ :=
  ((conns.filter (·.machineId = machine)).map fun c => (channels c.tx).sent.length).sum

/-- An event is sent at most once to a machine. -/
def SendsOnce (s : GatewayLedger) : GatewayAction → Prop
  | .message k event => ∀ machine,
    sentTo (s.step (.message k event)).service.channels
        (s.service.server.connections event.projectId) machine ≤
      sentTo s.service.channels (s.service.server.connections event.projectId) machine + 1
  | _ => True

def Tidy (as : List GatewayAction) : Prop :=
  Run.Always step start (fun s => s.service.server.Unique) as ∧
    Run.Steps step start ClosesOwn as ∧ Run.Steps step start SendsOnce as

/-- A machine registers for a project only while it has no connection for it. -/
def RegistersNew (s : GatewayLedger) : GatewayAction → Prop
  | .register projectId machineId => projectId = "" ∨ machineId = "" ∨
    ∀ c ∈ s.service.server.connections projectId, c.machineId ≠ machineId
  | _ => True

/-- A stream that ends has the connections for the project and the machine of its first event, and
no others. -/
def NamesOwn (s : GatewayLedger) : GatewayAction → Prop
  | .close k => ∀ r, s.service.relays k = some r →
    ∀ p, ∀ c ∈ s.service.server.connections p,
      s.Belongs c r.outbound ↔ r.identity = some (p, c.machineId)
  | _ => True

variable {s : GatewayLedger}

theorem connections_close {g : GatewayService} {k : ℕ} {r : Relay} (hr : g.relays k = some r)
    (p : String) : (g.step (.close k)).server.connections p =
      (g.server.connections p).filter fun c => r.identity ≠ some (p, c.machineId) := by
  show (g.close k).server.connections p = _
  unfold GatewayService.close
  rw [hr]
  dsimp only
  rcases hid : r.identity with _ | ⟨projectId, machineId⟩
  · exact (List.filter_eq_self.2 fun c _ => by simp).symm
  · dsimp only
    rw [GatewayServer.connections_unregisterDaemon]
    split_ifs with hp
    · rw [hp]
      exact List.filter_congr fun c _ => by simp [eq_comm]
    · exact (List.filter_eq_self.2 fun c _ => by simp [Ne.symm hp]).symm

theorem step_close_none {g : GatewayService} {k : ℕ} (hk : g.relays k = none) :
    g.step (.close k) = g := by
  show g.close k = g
  unfold GatewayService.close
  rw [hk]

theorem closesOwn_iff (a : GatewayAction) : s.ClosesOwn a ↔ s.NamesOwn a := by
  cases a with
  | close k =>
    refine forall₂_congr fun r hr => forall₃_congr fun p c hc => ?_
    have hmem : c ∉ (s.step (.close k)).service.server.connections p ↔
        r.identity = some (p, c.machineId) := by
      show c ∉ (s.service.step (.close k)).server.connections p ↔ _
      rw [connections_close hr, List.mem_filter, decide_eq_true_eq, not_and, not_not]
      exact imp_iff_right hc
    rw [hmem]
    exact iff_comm
  | _ => exact Iff.rfl

/-- Only a registration adds to the table. -/
theorem map_connections_step {α : Type*} (g : GatewayService) {a : GatewayAction}
    (ha : ∀ projectId machineId, a ≠ .register projectId machineId) {f : DaemonConnection → α}
    (hf : ∀ c now, f (DaemonConnection.updateLastSeen c now) = f c) (p : String) :
    (((g.step a).server.connections p).map f).Sublist ((g.server.connections p).map f) := by
  cases a with
  | register projectId machineId => exact absurd rfl (ha projectId machineId)
  | registered ch =>
    have hserver : (g.registered ch).server = g.server := by
      unfold GatewayService.registered
      split_ifs <;> rfl
    show (((g.registered ch).server.connections p).map f).Sublist _
    rw [hserver]
  | relay k daemon =>
    rcases hk : g.relays k with _ | r
    · rw [GatewayService.step_relay hk]
      exact List.Sublist.refl _
    · rw [GatewayService.step_relay_some hk]
  | message k event =>
    rcases hk : g.relays k with _ | r
    · rw [GatewayService.step_message_none hk]
    · rw [GatewayService.step_message hk]
      have hmap := GatewayServer.map_connections_seen g.server event.projectId event.machineId
        g.now (fun c => hf c g.now) p
      exact hmap ▸ List.Sublist.refl _
  | read k =>
    have hserver : (g.read k).server = g.server := by
      unfold GatewayService.read
      rcases g.relays k <;> rfl
    show (((g.read k).server.connections p).map f).Sublist _
    rw [hserver]
  | close k =>
    rcases hk : g.relays k with _ | r
    · rw [step_close_none hk]
    · rw [connections_close hk]
      exact List.filter_sublist.map f
  | cleanup => exact List.filter_sublist.map f
  | wait nanos => exact List.Sublist.refl _

theorem unique_step (h : s.service.server.Unique) (a : GatewayAction) :
    (s.step a).service.server.Unique ↔ s.RegistersNew a := by
  by_cases ha : ∀ projectId machineId, a ≠ .register projectId machineId
  · refine iff_of_true (fun p => (h p).sublist (map_connections_step s.service ha
      (fun _ _ => rfl) p)) ?_
    cases a with
    | register projectId machineId => exact absurd rfl (ha projectId machineId)
    | _ => trivial
  push Not at ha
  obtain ⟨projectId, machineId, rfl⟩ := ha
  rcases s.service.register_cases projectId machineId with ⟨hbad, heq⟩ | ⟨hp, hm, heq⟩
  · refine iff_of_true ?_ ?_
    · show (s.service.step (.register projectId machineId)).server.Unique
      rw [heq]
      exact h
    · rcases hbad with hbad | hbad
      · exact .inl hbad
      · exact .inr (.inl hbad)
  · show (s.service.step (.register projectId machineId)).server.Unique ↔ _
    rw [heq]
    have hconn := GatewayServer.connections_registerDaemon s.service.server projectId machineId
      s.service.made s.service.now
    constructor
    · refine fun hu => .inr (.inr fun c hc hcm => ?_)
      have hnodup := hu projectId
      rw [hconn, if_pos rfl, List.map_append, List.nodup_append] at hnodup
      exact hnodup.2.2 machineId (List.mem_map.2 ⟨c, hc, hcm⟩) machineId
        (List.mem_singleton.2 rfl) rfl
    · intro hnew p
      rw [hconn]
      split_ifs with hpp
      · rw [hpp, List.map_append, List.nodup_append]
        refine ⟨h projectId, List.nodup_singleton _, fun x hx y hy hxy => ?_⟩
        obtain ⟨c, hc, rfl⟩ := List.mem_map.1 hx
        have hym : y = machineId := List.mem_singleton.1 hy
        rcases hnew with hnew | hnew | hnew
        · exact hp hnew
        · exact hm hnew
        · exact hnew c hc (hxy.trans hym)
      · exact h p

theorem ownChannels_step (h : s.service.server.OwnChannels) (hapart : s.service.Apart)
    (a : GatewayAction) : (s.step a).service.server.OwnChannels := by
  by_cases ha : ∀ projectId machineId, a ≠ .register projectId machineId
  · exact fun p => (h p).sublist (map_connections_step s.service ha (fun _ _ => rfl) p)
  push Not at ha
  obtain ⟨projectId, machineId, rfl⟩ := ha
  intro p
  show (((s.service.step (.register projectId machineId)).server.connections p).map (·.tx)).Nodup
  rcases s.service.register_cases projectId machineId with ⟨-, heq⟩ | ⟨-, -, heq⟩
  · rw [heq]
    exact h p
  · rw [heq]
    dsimp only
    rw [GatewayServer.connections_registerDaemon]
    split_ifs
    · rw [List.map_append, List.nodup_append]
      refine ⟨h p, List.nodup_singleton _, fun x hx y hy hxy => ?_⟩
      obtain ⟨c, hc, rfl⟩ := List.mem_map.1 hx
      have hlt : c.tx < s.service.made := hapart.uses_lt c.tx ⟨p, c, hc, rfl⟩
      have hy' : y = s.service.made := List.mem_singleton.1 hy
      omega
    · exact h p

theorem filter_length_le_one {conns : List DaemonConnection}
    (h : (conns.map (·.machineId)).Nodup) (machine : String) :
    (conns.filter (·.machineId = machine)).length ≤ 1 := by
  have hrep : (conns.filter (·.machineId = machine)).map (·.machineId) =
      List.replicate (conns.filter (·.machineId = machine)).length machine := by
    refine List.eq_replicate_iff.2 ⟨List.length_map .., fun x hx => ?_⟩
    obtain ⟨c, hc, rfl⟩ := List.mem_map.1 hx
    exact of_decide_eq_true (List.mem_filter.1 hc).2
  have hnodup : ((conns.filter (·.machineId = machine)).map (·.machineId)).Nodup :=
    h.sublist (List.filter_sublist.map _)
  rw [hrep] at hnodup
  exact List.nodup_replicate.1 hnodup

theorem after_invariant (as : List GatewayAction) : (Run.after step start as).service.Apart ∧
    (Run.after step start as).service.server.OwnChannels := by
  induction as using List.reverseRecOn with
  | nil => exact ⟨GatewayService.apart_new, fun _ => List.nodup_nil⟩
  | append_singleton as a ih =>
    rw [Run.after_snoc]
    exact ⟨ih.1.step a, ownChannels_step ih.2 ih.1 a⟩

/-- A machine with one connection is sent an event at most once. -/
theorem sendsOnce (h : s.service.server.Unique) (ho : s.service.server.OwnChannels)
    (a : GatewayAction) : s.SendsOnce a := by
  cases a with
  | message k event =>
    intro machine
    show sentTo (s.service.step (.message k event)).channels _ machine ≤ _
    rcases hk : s.service.relays k with _ | r
    · rw [GatewayService.step_message_none hk]
      exact Nat.le_succ _
    · rw [GatewayService.step_message hk]
      have hle : ∀ ch, ((GatewayServer.sendToOthers event.machineId event
          ((s.service.server.seen event.projectId event.machineId s.service.now).connections
            event.projectId) s.service.channels).1 ch).sent.length ≤
          (s.service.channels ch).sent.length + 1 := by
        intro ch
        refine GatewayServer.sendToOthers_sent_le _ _ _ _ _ ?_
        rw [GatewayServer.map_connections_seen _ _ _ _ fun _ => rfl]
        exact ho event.projectId
      unfold sentTo
      rcases hfilter : (s.service.server.connections event.projectId).filter
        (·.machineId = machine) with _ | ⟨c, _ | ⟨c', rest⟩⟩
      · rw [hfilter]
        exact Nat.zero_le _
      · rw [hfilter]
        simp only [List.map_cons, List.map_nil, List.sum_cons, List.sum_nil, Nat.add_zero]
        exact hle c.tx
      · have hone := filter_length_le_one (h event.projectId) machine
        rw [hfilter] at hone
        simp at hone
  | _ => trivial

theorem tidy_iff (as : List GatewayAction) :
    Tidy as ↔ Run.Steps step start (fun s a => s.RegistersNew a ∧ s.NamesOwn a) as := by
  have hunique : Run.Always step start (fun s => s.service.server.Unique) as ↔
      Run.Steps step start RegistersNew as := by
    refine Run.always_iff_steps (I := fun s => s.service.server.Unique)
      (fun _ => List.nodup_nil) (fun _ => id) (fun s a h hg => (unique_step h a).2 hg) ?_
    exact fun s a h hg hu => hg ((unique_step h a).1 hu)
  have hclose : Run.Steps step start ClosesOwn as ↔ Run.Steps step start NamesOwn as :=
    Run.steps_congr fun _ a => closesOwn_iff a
  rw [Run.steps_and, ← hunique, ← hclose]
  unfold Tidy
  refine and_congr_right fun hu => and_iff_left_of_imp fun _ pre a hpre => ?_
  have hinv := after_invariant pre
  exact sendsOnce (hu pre ((List.prefix_append pre [a]).trans hpre)) hinv.2 a

/-- A machine comes back before its old stream has ended, and has two connections. -/
theorem not_tidy : ¬ Tidy
    [.register "p" "a", .relay 0 "a",
      .message 0 ⟨100, "created", "f", "p", "user", none, "a", none, none⟩, .register "p" "a"] := by
  intro h
  exact absurd (h.1 _ List.prefix_rfl "p") (by decide)

end GatewayLedger

end AmbientFs
