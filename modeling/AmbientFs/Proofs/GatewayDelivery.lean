import AmbientFs.Gateway
import AmbientFs.Lib.Run

/-!
# What the gateway delivers

The channel of a connection and the channel of a relay stream are never the same one: the first is
made when a daemon registers, and its receiver goes with the handler, the second is made with the
stream, and nobody has a sender for it. So nothing is ever on the response of a stream, and events
are delivered in no run but those in which there are none to deliver.
-/

namespace AmbientFs

open Mpsc

namespace GatewayServer

/-- A connection in the table has this channel. -/
def Uses (g : GatewayServer) (ch : ℕ) : Prop := ∃ p, ∃ c ∈ g.connections p, c.tx = ch

variable {g : GatewayServer} {ch : ℕ}

theorem uses_registerDaemon {projectId machineId : String} {tx now : ℕ}
    (h : (g.registerDaemon projectId machineId tx now).Uses ch) : g.Uses ch ∨ ch = tx := by
  obtain ⟨p, c, hc, hch⟩ := h
  unfold registerDaemon at hc
  dsimp only at hc
  by_cases hp : p = projectId
  · rw [hp, Function.update_self, List.mem_append, List.mem_singleton] at hc
    rcases hc with hc | rfl
    · exact .inl ⟨projectId, c, hc, hch⟩
    · exact .inr hch.symm
  · rw [Function.update_of_ne hp] at hc
    exact .inl ⟨p, c, hc, hch⟩

theorem uses_unregisterDaemon {projectId machineId : String}
    (h : (g.unregisterDaemon projectId machineId).Uses ch) : g.Uses ch := by
  obtain ⟨p, c, hc, hch⟩ := h
  unfold unregisterDaemon at hc
  dsimp only at hc
  by_cases hp : p = projectId
  · rw [hp, Function.update_self] at hc
    exact ⟨projectId, c, List.mem_of_mem_filter hc, hch⟩
  · rw [Function.update_of_ne hp] at hc
    exact ⟨p, c, hc, hch⟩

theorem uses_seen {projectId sender : String} {now : ℕ}
    (h : (g.seen projectId sender now).Uses ch) : g.Uses ch := by
  obtain ⟨p, c, hc, hch⟩ := h
  unfold seen at hc
  dsimp only at hc
  by_cases hp : p = projectId
  · rw [hp, Function.update_self] at hc
    obtain ⟨c', hc', rfl⟩ := List.mem_map.1 hc
    refine ⟨projectId, c', hc', ?_⟩
    rw [← hch]
    split_ifs <;> rfl
  · rw [Function.update_of_ne hp] at hc
    exact ⟨p, c, hc, hch⟩

theorem uses_cleanup {timeoutSecs now : ℕ}
    (h : (g.cleanupStaleConnections timeoutSecs now).Uses ch) : g.Uses ch := by
  obtain ⟨p, c, hc, hch⟩ := h
  exact ⟨p, c, List.mem_of_mem_filter hc, hch⟩

/-- Only the channels of connections are sent on. -/
theorem sendToOthers_of_not_mem (sender : String) (event : FileEventMessage) :
    ∀ (conns : List DaemonConnection) (channels : Channels), (∀ c ∈ conns, c.tx ≠ ch) →
      (sendToOthers sender event conns channels).1 ch = channels ch
  | [], _, _ => rfl
  | c :: conns, channels, h => by
    have hrest := fun c' hc' => h c' (List.mem_cons_of_mem c hc')
    unfold sendToOthers
    split_ifs
    · exact sendToOthers_of_not_mem sender event conns channels hrest
    · split
      · exact sendToOthers_of_not_mem sender event conns channels hrest
      · dsimp only
        rw [sendToOthers_of_not_mem sender event conns _ hrest,
          Function.update_of_ne (h c List.mem_cons_self).symm]

end GatewayServer

namespace GatewayService

variable {s : GatewayService}

theorem register_cases (s : GatewayService) (projectId machineId : String) :
    ((projectId = "" ∨ machineId = "") ∧ s.step (.register projectId machineId) = s) ∨
    (projectId ≠ "" ∧ machineId ≠ "" ∧ s.step (.register projectId machineId) =
      { s.makeChannel with
        server := s.server.registerDaemon projectId machineId s.made s.now
        registering := s.registering ++ [s.made] }) := by
  unfold step register
  dsimp only
  by_cases hp : projectId = ""
  · rw [if_pos hp]
    exact .inl ⟨.inl hp, rfl⟩
  by_cases hm : machineId = ""
  · rw [if_neg hp, if_pos hm]
    exact .inl ⟨.inr hm, rfl⟩
  · rw [if_neg hp, if_neg hm]
    exact .inr ⟨hp, hm, rfl⟩

theorem step_message_none {k : ℕ} (hk : s.relays k = none) (event : FileEventMessage) :
    s.step (.message k event) = s := by
  show s.message k event = s
  unfold message
  rw [hk]

theorem step_message {k : ℕ} {r : Relay} (hr : s.relays k = some r) (event : FileEventMessage) :
    s.step (.message k event) =
      { s with
        server := (s.server.seen event.projectId event.machineId s.now).bufferEvent
          event.projectId event
        channels := (GatewayServer.sendToOthers event.machineId event
          ((s.server.seen event.projectId event.machineId s.now).connections event.projectId)
          s.channels).1
        relays := Function.update s.relays k
          (some { r with
            identity := some (r.identity.getD (event.projectId, event.machineId)) }) } := by
  show s.message k event = _
  unfold message
  rw [hr]
  rfl

/-- A daemon has an open relay stream. -/
def Open (s : GatewayService) (machine : String) : Prop :=
  ∃ k r, s.relays k = some r ∧ r.daemon = machine

/-- An event is on the response of one of a daemon's streams. -/
def OnStream (s : GatewayService) (machine : String) (event : FileEventMessage) : Prop :=
  ∃ k r, s.relays k = some r ∧ r.daemon = machine ∧ event ∈ (s.channels r.outbound).sent

theorem open_congr {s' : GatewayService} (h : s'.relays = s.relays) {machine : String} :
    s'.Open machine ↔ s.Open machine := by
  unfold Open
  rw [h]

theorem open_register (projectId machineId : String) {machine : String} :
    (s.step (.register projectId machineId)).Open machine ↔ s.Open machine := by
  rcases s.register_cases projectId machineId with ⟨-, heq⟩ | ⟨-, -, heq⟩
  · rw [heq]
  · rw [heq]
    exact open_congr rfl

theorem step_relay {k : ℕ} (hk : s.relays k = none) (daemon : String) :
    s.step (.relay k daemon) = { s.makeChannel with
      relays := Function.update s.relays k (some ⟨daemon, s.made, none⟩) } := by
  show s.relay k daemon = _
  unfold relay
  rw [hk]

theorem step_relay_some {k : ℕ} {r : Relay} (hk : s.relays k = some r) (daemon : String) :
    s.step (.relay k daemon) = s := by
  show s.relay k daemon = s
  unfold relay
  rw [hk]

theorem open_relay {k : ℕ} (hk : s.relays k = none) (daemon : String) :
    (s.step (.relay k daemon)).Open daemon := by
  rw [step_relay hk]
  exact ⟨k, ⟨daemon, s.made, none⟩, Function.update_self .., rfl⟩

/-- Streams are opened by their machines only. -/
theorem open_of_step {a : GatewayAction} {machine : String} (h : (s.step a).Open machine) :
    s.Open machine ∨ ∃ k, a = .relay k machine ∧ s.relays k = none := by
  cases a with
  | register projectId machineId => exact .inl ((open_register projectId machineId).1 h)
  | registered ch =>
    refine .inl ((open_congr ?_).1 h)
    show (s.registered ch).relays = s.relays
    unfold registered
    split_ifs <;> rfl
  | relay k daemon =>
    rcases hk : s.relays k with _ | r
    · rw [step_relay hk] at h
      obtain ⟨j, r, hr, hd⟩ := h
      by_cases hj : j = k
      · rw [hj] at hr
        dsimp only at hr
        rw [Function.update_self, Option.some.injEq] at hr
        rw [← hr] at hd
        cases hd
        exact .inr ⟨k, rfl, hk⟩
      · dsimp only at hr
        rw [Function.update_of_ne hj] at hr
        exact .inl ⟨j, r, hr, hd⟩
    · rw [step_relay_some hk] at h
      exact .inl h
  | message k event =>
    rcases hk : s.relays k with _ | r
    · rw [step_message_none hk] at h
      exact .inl h
    · rw [step_message hk] at h
      obtain ⟨j, r', hr', hd⟩ := h
      dsimp only at hr'
      by_cases hj : j = k
      · rw [hj, Function.update_self, Option.some.injEq] at hr'
        rw [← hr'] at hd
        exact .inl ⟨k, r, hk, hd⟩
      · rw [Function.update_of_ne hj] at hr'
        exact .inl ⟨j, r', hr', hd⟩
  | read k =>
    refine .inl ((open_congr ?_).1 h)
    show (s.read k).relays = s.relays
    unfold read
    rcases s.relays k <;> rfl
  | close k =>
    obtain ⟨j, r, hr, hd⟩ := h
    refine .inl ⟨j, r, ?_, hd⟩
    replace hr : (s.close k).relays j = some r := hr
    unfold close at hr
    rcases hk : s.relays k with _ | r₀
    · rwa [hk] at hr
    · rw [hk] at hr
      dsimp only at hr
      by_cases hj : j = k
      · rw [hj, Function.update_self] at hr
        cases hr
      · rwa [Function.update_of_ne hj] at hr
  | cleanup => exact .inl ((open_congr rfl).1 h)
  | wait nanos => exact .inl ((open_congr rfl).1 h)

/-- Connections and streams have channels of their own, and those of the streams are as they were
made. -/
structure Apart (s : GatewayService) : Prop where
  uses_lt : ∀ ch, s.server.Uses ch → ch < s.made
  outbound_lt : ∀ k r, s.relays k = some r → r.outbound < s.made
  apart : ∀ k r, s.relays k = some r → ¬ s.server.Uses r.outbound
  silent : ∀ k r, s.relays k = some r → (s.channels r.outbound).sent = [] ∧
    (s.channels r.outbound).bound = channelBound

theorem apart_new : new.Apart :=
  ⟨fun _ ⟨_, _, hc, _⟩ => (nomatch hc), fun _ _ h => (nomatch h), fun _ _ h => (nomatch h),
    fun _ _ h => (nomatch h)⟩

namespace Apart

theorem room (h : s.Apart) {k : ℕ} {r : Relay} (hr : s.relays k = some r) :
    (s.channels r.outbound).HasRoom := by
  obtain ⟨hsent, hbound⟩ := h.silent k r hr
  refine Channel.hasRoom_of_sent_nil hsent ?_
  rw [hbound]
  decide

theorem of_server (h : s.Apart) {g : GatewayServer} (hg : ∀ ch, g.Uses ch → s.server.Uses ch) :
    ({ s with server := g } : GatewayService).Apart :=
  ⟨fun ch hch => h.uses_lt ch (hg ch hch), h.outbound_lt,
    fun k r hr hch => h.apart k r hr (hg _ hch), h.silent⟩

/-- Receiving and the end of a receiver leave what was sent. -/
theorem of_channel (h : s.Apart) (ch : ℕ) {f : Channel FileEventMessage → Channel FileEventMessage}
    (hsent : ∀ c, (f c).sent = c.sent) (hbound : ∀ c, (f c).bound = c.bound) :
    ({ s with channels := Function.update s.channels ch (f (s.channels ch)) } :
      GatewayService).Apart := by
  refine ⟨h.uses_lt, h.outbound_lt, h.apart, fun k r hr => ?_⟩
  have hsilent := h.silent k r hr
  by_cases hch : r.outbound = ch
  · dsimp only
    rw [hch, Function.update_self, hsent, hbound, ← hch]
    exact hsilent
  · dsimp only
    rw [Function.update_of_ne hch]
    exact hsilent

theorem register (h : s.Apart) (projectId machineId : String) :
    (s.step (.register projectId machineId)).Apart := by
  rcases s.register_cases projectId machineId with ⟨-, heq⟩ | ⟨-, -, heq⟩
  · rw [heq]
    exact h
  · rw [heq]
    refine ⟨fun ch hch => ?_, fun k r hr => (h.outbound_lt k r hr).trans (Nat.lt_succ_self _),
      fun k r hr hch => ?_, fun k r hr => ?_⟩
    · rcases GatewayServer.uses_registerDaemon hch with hch | rfl
      · exact (h.uses_lt ch hch).trans (Nat.lt_succ_self _)
      · exact Nat.lt_succ_self _
    · rcases GatewayServer.uses_registerDaemon hch with hch | hch
      · exact h.apart k r hr hch
      · exact absurd hch (h.outbound_lt k r hr).ne
    · show (Function.update s.channels s.made (.new channelBound) r.outbound).sent = [] ∧
        (Function.update s.channels s.made (.new channelBound) r.outbound).bound = channelBound
      rw [Function.update_of_ne (h.outbound_lt k r hr).ne]
      exact h.silent k r hr

theorem relay (h : s.Apart) (k : ℕ) (daemon : String) : (s.step (.relay k daemon)).Apart := by
  rcases hk : s.relays k with _ | r₀
  · rw [step_relay hk]
    have hrelay : ∀ j r, Function.update s.relays k (some ⟨daemon, s.made, none⟩) j = some r →
        r.outbound = s.made ∨ s.relays j = some r := by
      intro j r hr
      by_cases hj : j = k
      · rw [hj, Function.update_self, Option.some.injEq] at hr
        rw [← hr]
        exact .inl rfl
      · rw [Function.update_of_ne hj] at hr
        exact .inr hr
    refine ⟨fun ch hch => (h.uses_lt ch hch).trans (Nat.lt_succ_self _), fun j r hr => ?_,
      fun j r hr hch => ?_, fun j r hr => ?_⟩
    · rcases hrelay j r hr with hr | hr
      · rw [hr]
        exact Nat.lt_succ_self _
      · exact (h.outbound_lt j r hr).trans (Nat.lt_succ_self _)
    · rcases hrelay j r hr with hr | hr
      · rw [hr] at hch
        exact absurd (h.uses_lt _ hch) (lt_irrefl _)
      · exact h.apart j r hr hch
    · show (Function.update s.channels s.made (.new channelBound) r.outbound).sent = [] ∧
        (Function.update s.channels s.made (.new channelBound) r.outbound).bound = channelBound
      rcases hrelay j r hr with hr | hr
      · rw [hr, Function.update_self]
        exact ⟨rfl, rfl⟩
      · rw [Function.update_of_ne (h.outbound_lt j r hr).ne]
        exact h.silent j r hr
  · rw [step_relay_some hk]
    exact h

/-- A forwarded event does not get to the responses. -/
theorem sent_message (h : s.Apart) (k : ℕ) (event : FileEventMessage) {j : ℕ} {r : Relay}
    (hr : s.relays j = some r) :
    (s.step (.message k event)).channels r.outbound = s.channels r.outbound := by
  rcases hk : s.relays k with _ | r₀
  · rw [step_message_none hk]
  · rw [step_message hk]
    exact GatewayServer.sendToOthers_of_not_mem _ _ _ _ fun c hc htx =>
      h.apart j r hr (GatewayServer.uses_seen ⟨event.projectId, c, hc, htx⟩)

theorem message (h : s.Apart) (k : ℕ) (event : FileEventMessage) :
    (s.step (.message k event)).Apart := by
  rcases hk : s.relays k with _ | r₀
  · rw [step_message_none hk]
    exact h
  · have hsent := fun j r => h.sent_message k event (j := j) (r := r)
    rw [step_message hk] at hsent ⊢
    have hrelay : ∀ j r, Function.update s.relays k
        (some { r₀ with identity := some (r₀.identity.getD (event.projectId, event.machineId)) })
          j = some r → ∃ r', s.relays j = some r' ∧ r'.outbound = r.outbound := by
      intro j r hr
      by_cases hj : j = k
      · rw [hj, Function.update_self, Option.some.injEq] at hr
        rw [hj, ← hr]
        exact ⟨r₀, hk, rfl⟩
      · rw [Function.update_of_ne hj] at hr
        exact ⟨r, hr, rfl⟩
    refine ⟨fun ch hch => h.uses_lt ch (GatewayServer.uses_seen hch), fun j r hr => ?_,
      fun j r hr hch => ?_, fun j r hr => ?_⟩
    · obtain ⟨r', hr', hout⟩ := hrelay j r hr
      rw [← hout]
      exact h.outbound_lt j r' hr'
    · obtain ⟨r', hr', hout⟩ := hrelay j r hr
      rw [← hout] at hch
      exact h.apart j r' hr' (GatewayServer.uses_seen hch)
    · obtain ⟨r', hr', hout⟩ := hrelay j r hr
      rw [← hout, hsent j r' hr']
      exact h.silent j r' hr'

/-- A connection that ends takes its receiver with it. -/
theorem dropRelay (h : s.Apart) {g : GatewayServer} (hg : ∀ ch, g.Uses ch → s.server.Uses ch)
    (k ch : ℕ) : ({ s with
      server := g
      channels := Function.update s.channels ch (s.channels ch).dropReceiver
      relays := Function.update s.relays k none } : GatewayService).Apart := by
  have hserver := h.of_server hg
  have hchannel := hserver.of_channel ch (f := Channel.dropReceiver) (fun _ => rfl) fun _ => rfl
  have hrelay : ∀ j r, Function.update s.relays k none j = some r → s.relays j = some r := by
    intro j r hr
    by_cases hj : j = k
    · rw [hj, Function.update_self] at hr
      cases hr
    · rwa [Function.update_of_ne hj] at hr
  exact ⟨hchannel.uses_lt, fun j r hr => hchannel.outbound_lt j r (hrelay j r hr),
    fun j r hr => hchannel.apart j r (hrelay j r hr),
    fun j r hr => hchannel.silent j r (hrelay j r hr)⟩

theorem close (h : s.Apart) (k : ℕ) : (s.step (.close k)).Apart := by
  show (s.close k).Apart
  unfold GatewayService.close
  rcases hk : s.relays k with _ | r
  · exact h
  · refine h.dropRelay (fun ch hch => ?_) k r.outbound
    rcases hid : r.identity with _ | ⟨p, m⟩
    · rwa [hid] at hch
    · rw [hid] at hch
      exact GatewayServer.uses_unregisterDaemon hch

theorem step (h : s.Apart) (a : GatewayAction) : (s.step a).Apart := by
  cases a with
  | register projectId machineId => exact h.register projectId machineId
  | registered ch =>
    show (s.registered ch).Apart
    unfold registered
    split_ifs
    · have hch := h.of_channel ch (f := Channel.dropReceiver) (fun _ => rfl) fun _ => rfl
      exact ⟨hch.uses_lt, hch.outbound_lt, hch.apart, hch.silent⟩
    · exact h
  | relay k daemon => exact h.relay k daemon
  | message k event => exact h.message k event
  | read k =>
    show (s.read k).Apart
    unfold read
    rcases s.relays k with _ | r
    · exact h
    · exact h.of_channel r.outbound Channel.sent_recv Channel.bound_recv
  | close k => exact h.close k
  | cleanup => exact h.of_server fun ch => GatewayServer.uses_cleanup
  | wait nanos => exact ⟨h.uses_lt, h.outbound_lt, h.apart, h.silent⟩

theorem not_onStream (h : s.Apart) (machine : String) (event : FileEventMessage) :
    ¬ s.OnStream machine event := by
  rintro ⟨k, r, hr, -, he⟩
  rw [(h.silent k r hr).1] at he
  cases he

end Apart

end GatewayService

/-- The gateway, with the buffered events that a registration makes it owe a machine. -/
structure GatewayAudit where
  service : GatewayService
  owed : List (String × FileEventMessage)

namespace GatewayAudit

def start : GatewayAudit := ⟨.new, []⟩

def step (s : GatewayAudit) (a : GatewayAction) : GatewayAudit where
  service := s.service.step a
  owed := match a with
    | .register projectId machineId =>
      if projectId = "" ∨ machineId = "" then s.owed
      else s.owed ++ (s.service.server.getBufferedEvents projectId).map (machineId, ·)
    | _ => s.owed

/-- An event on a stream is put on a response to every other machine that is registered for its
project and has a stream with room. -/
def Forwards (s : GatewayAudit) : GatewayAction → Prop
  | .message k event =>
    (∃ r, s.service.relays k = some r) →
    ∀ c ∈ s.service.server.connections event.projectId, c.machineId ≠ event.machineId →
      (∃ j r, s.service.relays j = some r ∧ r.daemon = c.machineId ∧
        (s.service.channels r.outbound).HasRoom) →
      ∃ j r, s.service.relays j = some r ∧ r.daemon = c.machineId ∧
        ((s.step (.message k event)).service.channels r.outbound).sent =
          (s.service.channels r.outbound).sent ++ [event]
  | _ => True

/-- What a machine with a stream is owed, a response has or can still be sent. -/
def Backlog (s : GatewayAudit) : Prop :=
  ∀ x ∈ s.owed, s.service.Open x.1 →
    ∃ more, (Run.after step s more).service.OnStream x.1 x.2

def Delivers (as : List GatewayAction) : Prop :=
  Run.Steps step start Forwards as ∧ Run.Always step start Backlog as

/-- Nothing is to be forwarded to a machine with a stream. -/
def NoneToForward (s : GatewayAudit) : GatewayAction → Prop
  | .message k event =>
    (∃ r, s.service.relays k = some r) →
    ∀ c ∈ s.service.server.connections event.projectId, c.machineId ≠ event.machineId →
      ¬ s.service.Open c.machineId
  | _ => True

/-- No machine is owed an event and has a stream. -/
def NoneToCatchUp (s : GatewayAudit) : GatewayAction → Prop
  | .register projectId machineId =>
    projectId = "" ∨ machineId = "" ∨ s.service.server.buffer projectId = [] ∨
      ¬ s.service.Open machineId
  | .relay k daemon => (∃ r, s.service.relays k = some r) ∨ ∀ x ∈ s.owed, x.1 ≠ daemon
  | _ => True

variable {s : GatewayAudit}

theorem apart_after (h : s.service.Apart) (as : List GatewayAction) :
    (Run.after step s as).service.Apart := by
  induction as using List.reverseRecOn with
  | nil => exact h
  | append_singleton as a ih =>
    rw [Run.after_snoc]
    exact ih.step a

theorem forwards_iff (h : s.service.Apart) (a : GatewayAction) :
    s.Forwards a ↔ s.NoneToForward a := by
  cases a with
  | message k event =>
    constructor
    · rintro hf hk c hc hne ⟨j, r, hr, hd⟩
      obtain ⟨j', r', hr', -, hsent⟩ := hf hk c hc hne ⟨j, r, hr, hd, h.room hr⟩
      have hsame : (s.step (.message k event)).service.channels r'.outbound =
          s.service.channels r'.outbound := h.sent_message k event hr'
      rw [hsame, List.self_eq_append_right] at hsent
      cases hsent
    · rintro hn hk c hc hne ⟨j, r, hr, hd, -⟩
      exact absurd ⟨j, r, hr, hd⟩ (hn hk c hc hne)
  | _ => exact Iff.rfl

theorem backlog_iff (h : s.service.Apart) : s.Backlog ↔ ∀ x ∈ s.owed, ¬ s.service.Open x.1 := by
  constructor
  · intro hb x hx ho
    obtain ⟨more, hon⟩ := hb x hx ho
    exact (apart_after h more).not_onStream _ _ hon
  · exact fun hn x hx ho => absurd ho (hn x hx)

theorem owed_step (hb : ∀ x ∈ s.owed, ¬ s.service.Open x.1) (a : GatewayAction) :
    (∀ x ∈ (s.step a).owed, ¬ (s.step a).service.Open x.1) ↔ s.NoneToCatchUp a := by
  have hkeep : ∀ b : GatewayAction, (∀ k daemon, b ≠ .relay k daemon) → (s.step b).owed = s.owed →
      ∀ x ∈ (s.step b).owed, ¬ (s.step b).service.Open x.1 := by
    intro b hrelay howed x hx ho
    rw [howed] at hx
    rcases GatewayService.open_of_step ho with ho | ⟨k, rfl, -⟩
    · exact hb x hx ho
    · exact hrelay k x.1 rfl
  cases a with
  | register projectId machineId =>
    by_cases hbad : projectId = "" ∨ machineId = ""
    · refine iff_of_true (hkeep _ (fun _ _ h => by cases h) (if_pos hbad)) ?_
      rcases hbad with h | h
      · exact .inl h
      · exact .inr (.inl h)
    · have howed : (s.step (.register projectId machineId)).owed = s.owed ++
          (s.service.server.buffer projectId).map (machineId, ·) := if_neg hbad
      have hopen : ∀ m, (s.step (.register projectId machineId)).service.Open m ↔
          s.service.Open m := fun m => GatewayService.open_register projectId machineId
      rw [howed]
      constructor
      · intro h
        refine .inr (.inr (or_iff_not_imp_left.2 fun hne ho => ?_))
        obtain ⟨e, he⟩ := List.exists_mem_of_ne_nil _ hne
        exact h (machineId, e) (List.mem_append_right _ (List.mem_map_of_mem he)) ((hopen _).2 ho)
      · intro h x hx ho
        rw [hopen] at ho
        rcases List.mem_append.1 hx with hx | hx
        · exact hb x hx ho
        · obtain ⟨e, he, rfl⟩ := List.mem_map.1 hx
          rcases h with h | h | h | h
          · exact hbad (.inl h)
          · exact hbad (.inr h)
          · rw [h] at he
            cases he
          · exact h ho
  | relay k daemon =>
    rcases hk : s.service.relays k with _ | r
    · have hopen : (s.step (.relay k daemon)).service.Open daemon :=
        GatewayService.open_relay hk daemon
      constructor
      · refine fun h => .inr fun x hx hd => ?_
        subst hd
        exact h x hx hopen
      · intro h x hx ho
        rcases GatewayService.open_of_step ho with ho | ⟨k', heq, -⟩
        · exact hb x hx ho
        · cases heq
          rcases h with ⟨r, hr⟩ | h
          · rw [hk] at hr
            cases hr
          · exact h x hx rfl
    · refine iff_of_true (fun x hx ho => ?_) (.inl ⟨r, hk⟩)
      rcases GatewayService.open_of_step ho with ho | ⟨k', heq, hnone⟩
      · exact hb x hx ho
      · cases heq
        rw [hk] at hnone
        cases hnone
  | registered ch => exact iff_of_true (hkeep _ (fun _ _ h => by cases h) rfl) trivial
  | message k event => exact iff_of_true (hkeep _ (fun _ _ h => by cases h) rfl) trivial
  | read k => exact iff_of_true (hkeep _ (fun _ _ h => by cases h) rfl) trivial
  | close k => exact iff_of_true (hkeep _ (fun _ _ h => by cases h) rfl) trivial
  | cleanup => exact iff_of_true (hkeep _ (fun _ _ h => by cases h) rfl) trivial
  | wait nanos => exact iff_of_true (hkeep _ (fun _ _ h => by cases h) rfl) trivial

theorem delivers_iff (as : List GatewayAction) :
    Delivers as ↔ Run.Steps step start (fun s a => s.NoneToForward a ∧ s.NoneToCatchUp a) as := by
  have hforward : Run.Steps step start Forwards as ↔ Run.Steps step start NoneToForward as :=
    Run.steps_congr fun pre => forwards_iff (apart_after GatewayService.apart_new pre)
  have hbacklog : Run.Always step start Backlog as ↔ Run.Steps step start NoneToCatchUp as := by
    refine Run.always_iff_steps (I := fun s => s.service.Apart ∧ s.Backlog)
      ⟨GatewayService.apart_new, fun _ hx => (nomatch hx)⟩ (fun _ h => h.2) ?_ ?_
    · rintro s a ⟨h, hb⟩ hg
      rw [backlog_iff h] at hb
      exact ⟨h.step a, (backlog_iff (h.step a)).2 ((owed_step hb a).2 hg)⟩
    · rintro s a ⟨h, hb⟩ hg hb'
      rw [backlog_iff h] at hb
      exact hg ((owed_step hb a).1 ((backlog_iff (h.step a)).1 hb'))
  unfold Delivers
  rw [hforward, hbacklog, Run.steps_and]

/-- Two machines register and open their streams, and an event of the first is not on the stream
of the second. -/
theorem not_delivers : ¬ Delivers
    [.register "p" "a", .register "p" "b", .relay 0 "a", .relay 1 "b",
      .message 0 ⟨100, "created", "f", "p", "user", none, "a", none, none⟩] := by
  intro h
  have hforwards := h.1 [.register "p" "a", .register "p" "b", .relay 0 "a", .relay 1 "b"]
    (.message 0 ⟨100, "created", "f", "p", "user", none, "a", none, none⟩) List.prefix_rfl
  have hnone := (forwards_iff (apart_after GatewayService.apart_new _) _).1 hforwards
  exact hnone ⟨⟨"a", 2, none⟩, by decide⟩ ⟨"b", 1, 0, 0⟩ (by decide) (by decide)
    ⟨1, ⟨"b", 3, none⟩, by decide, rfl⟩

end GatewayAudit

end AmbientFs
