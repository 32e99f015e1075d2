import AmbientFs.EventStreams
import AmbientFs.Proofs.Delivery

/-!
# Event streams have no gaps

What the client of an event stream reads is the beginning of the events published for its project
since it subscribed: a stream that falls too far behind ends instead of going on after a gap. As
long as the stream is not too far behind, its client is there and the project keeps its channel,
all of them come.
-/

namespace AmbientFs

open Broadcast

/-- The messages a stream makes of notifications. -/
def eventMessages (ns : List Notification) : List FileEventMessage :=
  ns.filterMap fun
    | .event event => some (fileEventToMessage event)
    | _ => none

@[simp] theorem eventMessages_append (ns ns' : List Notification) :
    eventMessages (ns ++ ns') = eventMessages ns ++ eventMessages ns' :=
  List.filterMap_append

theorem eventMessages_mono {ns ns' : List Notification} (h : ns <+: ns') :
    eventMessages ns <+: eventMessages ns' := by
  obtain ⟨rest, rfl⟩ := h
  rw [eventMessages_append]
  exact List.prefix_append _ _

namespace SubscriptionManager

variable {m : SubscriptionManager} {p : String} {ch : ℕ}

/-- A project keeps its channel, unless the channel is closed. -/
theorem unsubscribe_projects (h : m.Valid) (hch : m.projects p = some ch) (q : String) :
    ((m.unsubscribe q).channels ch).closed = true ∨ (m.unsubscribe q).projects p = some ch := by
  rcases hn : m.counts q with _ | n
  · rw [unsubscribe_of_none hn]
    exact .inr hch
  by_cases hle : n ≤ 1
  · obtain ⟨ch', hch', heq⟩ := unsubscribe_of_le_one h hn hle
    rw [heq]
    by_cases hp : p = q
    · subst hp
      rw [hch, Option.some.injEq] at hch'
      simp [hch', Channel.close]
    · exact .inr (by simpa [hp] using hch)
  · rw [unsubscribe_of_one_lt hn (by omega)]
    exact .inr hch

theorem unsubscribe_closed (h : m.Valid) (q : String) (hc : (m.channels ch).closed = true) :
    ((m.unsubscribe q).channels ch).closed = true := by
  rcases hn : m.counts q with _ | n
  · rwa [unsubscribe_of_none hn]
  by_cases hle : n ≤ 1
  · obtain ⟨ch', -, heq⟩ := unsubscribe_of_le_one h hn hle
    rw [heq]
    by_cases hch : ch = ch'
    · simp [hch, Channel.close]
    · simpa [hch] using hc
  · rwa [unsubscribe_of_one_lt hn (by omega)]

theorem unsubscribe_made (h : m.Valid) (q : String) : (m.unsubscribe q).made = m.made := by
  rcases hn : m.counts q with _ | n
  · rw [unsubscribe_of_none hn]
  by_cases hle : n ≤ 1
  · obtain ⟨ch', -, heq⟩ := unsubscribe_of_le_one h hn hle
    rw [heq]
  · rw [unsubscribe_of_one_lt hn (by omega)]

/-- The channel of a project stays open where another subscriber is counted. -/
theorem unsubscribe_opened (h : m.Valid) (hch : m.projects p = some ch) {q : String}
    (hq : q = p → m.count p ≠ 1) : ((m.unsubscribe q).channels ch).closed = false := by
  have hopen := h.opened p ch hch
  rcases hn : m.counts q with _ | n
  · rwa [unsubscribe_of_none hn]
  by_cases hle : n ≤ 1
  · obtain ⟨ch', hch', heq⟩ := unsubscribe_of_le_one h hn hle
    have hne : ch ≠ ch' := by
      rintro rfl
      obtain rfl := h.inj p q ch hch hch'
      have hzero : n ≠ 0 := fun hz => h.positive p (hz ▸ hn)
      refine hq rfl ?_
      rw [count, hn, Option.getD_some]
      omega
    rw [heq]
    simpa [hne] using hopen
  · rwa [unsubscribe_of_one_lt hn (by omega)]

theorem broadcast_closed (n : Notification) :
    ((m.broadcast n).channels ch).closed = (m.channels ch).closed := by
  unfold SubscriptionManager.broadcast
  rcases m.projects n.projectId with _ | ch'
  · rfl
  · by_cases hch : ch = ch' <;> simp [hch, Channel.send]

/-- A closed channel is nobody's. -/
theorem Valid.broadcast_of_closed (h : m.Valid) (n : Notification)
    (hc : (m.channels ch).closed = true) : (m.broadcast n).channels ch = m.channels ch := by
  unfold SubscriptionManager.broadcast
  rcases hp : m.projects n.projectId with _ | ch'
  · rfl
  · refine Function.update_of_ne ?_ _ _
    rintro rfl
    rw [h.opened _ _ hp] at hc
    cases hc

theorem broadcast_made (n : Notification) : (m.broadcast n).made = m.made := by
  unfold broadcast
  rcases m.projects n.projectId with _ | ch' <;> rfl

/-- A receiver of the project stands where `read` has been read: what it is still to see comes next
in what was published, and is all of it while the project has the receiver's channel. -/
structure StandsAt (m : SubscriptionManager) (p : String) (r : Receiver)
    (read published : List Notification) : Prop where
  channel : r.channel < m.made
  next : r.next ≤ (m.channels r.channel).sent.length
  tail : read ++ (m.channels r.channel).pending r.next <+: published
  whole : (m.channels r.channel).closed = true ∨ m.projects p = some r.channel ∧
    published = read ++ (m.channels r.channel).pending r.next

variable {r : Receiver} {read published : List Notification}

theorem standsAt_subscribe (h : m.Valid) (p : String) :
    (m.subscribe p).1.StandsAt p (m.subscribe p).2 [] [] := by
  have hs := subscribe_spec h p
  have hpend : ((m.subscribe p).1.channels (m.subscribe p).2.channel).pending
      (m.subscribe p).2.next = [] := by
    rw [hs.next, Channel.pending_length]
  refine ⟨hs.channel, hs.next.le, ?_, .inr ⟨?_, ?_⟩⟩
  · rw [hpend]
    exact List.prefix_rfl
  · rw [hs.projects, Function.update_self]
  · rw [hpend, List.append_nil]

theorem StandsAt.subscribe (hr : m.StandsAt p r read published) (h : m.Valid) (q : String) :
    (m.subscribe q).1.StandsAt p r read published := by
  have hs := subscribe_spec h q
  have hch := hs.channels _ hr.channel
  refine ⟨hr.channel.trans_le hs.made, ?_, ?_, ?_⟩
  · rw [hch]
    exact hr.next
  · rw [hch]
    exact hr.tail
  · rw [hch]
    refine hr.whole.imp_right fun ⟨hp, heq⟩ => ⟨?_, heq⟩
    rw [hs.projects]
    by_cases hpq : p = q
    · subst hpq
      rw [Function.update_self, hs.same _ hp]
    · rwa [Function.update_of_ne hpq]

theorem StandsAt.unsubscribe (hr : m.StandsAt p r read published) (h : m.Valid) (q : String) :
    (m.unsubscribe q).StandsAt p r read published := by
  have hpend : ((m.unsubscribe q).channels r.channel).pending r.next =
      (m.channels r.channel).pending r.next := by
    rw [Channel.pending, unsubscribe_sent, Channel.pending]
  refine ⟨?_, ?_, ?_, ?_⟩
  · rw [unsubscribe_made h]
    exact hr.channel
  · rw [unsubscribe_sent]
    exact hr.next
  · rw [hpend]
    exact hr.tail
  · rw [hpend]
    rcases hr.whole with hc | ⟨hp, heq⟩
    · exact .inl (unsubscribe_closed h q hc)
    · exact (unsubscribe_projects h hp q).imp_right fun hp => ⟨hp, heq⟩

theorem StandsAt.broadcast (hr : m.StandsAt p r read published) (h : m.Valid) (n : Notification) :
    (m.broadcast n).StandsAt p r read
      (if p = n.projectId then published ++ [n] else published) := by
  have hgrow : published <+: if p = n.projectId then published ++ [n] else published := by
    split_ifs
    · exact List.prefix_append _ _
    · exact List.prefix_rfl
  have hchannel : r.channel < (m.broadcast n).made := by
    rw [broadcast_made]
    exact hr.channel
  rcases hr.whole with hc | ⟨hp, heq⟩
  · have hch := h.broadcast_of_closed n hc
    refine ⟨hchannel, ?_, ?_, ?_⟩ <;> rw [hch]
    · exact hr.next
    · exact hr.tail.trans hgrow
    · exact .inl hc
  · have hproj : (m.broadcast n).projects p = some r.channel := by
      rw [broadcast_projects, hp]
    by_cases hpn : p = n.projectId
    · have hch : (m.broadcast n).channels r.channel = (m.channels r.channel).send n := by
        rw [broadcast_channels (hpn ▸ hp), Function.update_self]
      have hwhole : published ++ [n] =
          read ++ ((m.channels r.channel).send n).pending r.next := by
        rw [Channel.pending_send hr.next, heq, List.append_assoc]
      rw [if_pos hpn]
      refine ⟨hchannel, ?_, ?_, .inr ⟨hproj, ?_⟩⟩ <;> rw [hch]
      · exact hr.next.trans (by simp [Channel.send])
      · exact hwhole ▸ List.prefix_rfl
      · exact hwhole
    · have hch := h.broadcast_of_ne hp hpn
      rw [if_neg hpn]
      refine ⟨hchannel, ?_, ?_, .inr ⟨hproj, ?_⟩⟩ <;> rw [hch]
      · exact hr.next
      · exact hr.tail
      · exact heq

/-- The next notification is received. -/
theorem StandsAt.received (hr : m.StandsAt p r read published) {n : Notification}
    (ht : ((m.channels r.channel).tryRecv channelCapacity r.next).1 = .ok n) :
    m.StandsAt p { r with next := ((m.channels r.channel).tryRecv channelCapacity r.next).2 }
      (read ++ [n]) published := by
  obtain ⟨hnext, hlt, hpend⟩ := Channel.pending_of_tryRecv ht
  have hread : read ++ [n] ++ (m.channels r.channel).pending (r.next + 1) =
      read ++ (m.channels r.channel).pending r.next := by
    rw [hpend, List.append_assoc]
    rfl
  rw [hnext]
  refine ⟨hr.channel, hlt, ?_, ?_⟩
  · rw [hread]
    exact hr.tail
  · rw [hread]
    exact hr.whole

end SubscriptionManager

namespace SocketServer

variable (s : SocketServer)

/-- What a step does to the manager. -/
theorem manager_step (a : Action) :
    (s.step a).manager = s.manager ∧ (∀ n, a ≠ .broadcast n) ∨
    (∃ p, (s.step a).manager = (s.manager.subscribe p).1 ∧ ∀ n, a ≠ .broadcast n) ∨
    (∃ p, (s.step a).manager = s.manager.unsubscribe p ∧ ∀ n, a ≠ .broadcast n) ∨
    ∃ n, a = .broadcast n ∧ (s.step a).manager = s.manager.broadcast n := by
  cases a with
  | connect c => exact .inl ⟨(connect_spec s c).1, by simp⟩
  | subscribe c p =>
    rcases hc : s.conns c with _ | conn
    · exact .inl ⟨by simp [step, handleSubscribe, hc], by simp⟩
    · exact .inr (.inl ⟨p, (handleSubscribe_spec hc).1, by simp⟩)
  | unsubscribe c p =>
    rcases hc : s.conns c with _ | conn
    · exact .inl ⟨by simp [step, handleUnsubscribe, hc], by simp⟩
    · exact .inr (.inr (.inl ⟨p, (handleUnsubscribe_spec hc).1, by simp⟩))
  | poll c p => exact .inl ⟨(Audited.poll_spec (c := c) (p := p) s c p).1, by simp⟩
  | close c => exact .inl ⟨rfl, by simp⟩
  | openStream k p =>
    rcases hk : s.streams k with _ | x
    · exact .inr (.inl ⟨p, (openStream_spec hk).1, by simp⟩)
    · exact .inl ⟨by simp [step, openStream, hk], by simp⟩
  | pollStream k => exact .inl ⟨(pollStream_spec s k).1, by simp⟩
  | endStream k => exact .inl ⟨rfl, by simp⟩
  | broadcast n => exact .inr (.inr (.inr ⟨n, rfl, rfl⟩))

theorem valid_step (h : s.manager.Valid) (a : Action) : (s.step a).manager.Valid := by
  rcases manager_step s a with ⟨heq, -⟩ | ⟨p, heq, -⟩ | ⟨p, heq, -⟩ | ⟨n, -, heq⟩ <;> rw [heq]
  · exact h
  · exact (SubscriptionManager.subscribe_spec h p).valid h
  · exact h.unsubscribe p
  · exact h.broadcast n

/-- What a step publishes for a project. -/
def Action.publishes (p : String) : Action → List Notification
  | .broadcast n => if p = n.projectId then [n] else []
  | _ => []

theorem standsAt_step {p : String} {r : Receiver} {read published : List Notification}
    (h : s.manager.Valid) (hr : s.manager.StandsAt p r read published) (a : Action) :
    (s.step a).manager.StandsAt p r read (published ++ a.publishes p) := by
  have hquiet : (∀ n, a ≠ .broadcast n) → a.publishes p = [] := by
    intro hne
    cases a with
    | broadcast n => exact absurd rfl (hne n)
    | _ => rfl
  rcases manager_step s a with ⟨heq, hne⟩ | ⟨q, heq, hne⟩ | ⟨q, heq, hne⟩ | ⟨n, rfl, heq⟩
  · rw [heq, hquiet hne, List.append_nil]
    exact hr
  · rw [heq, hquiet hne, List.append_nil]
    exact hr.subscribe h q
  · rw [heq, hquiet hne, List.append_nil]
    exact hr.unsubscribe h q
  · rw [heq, Action.publishes]
    have := hr.broadcast h n
    split_ifs at this ⊢
    · exact this
    · rwa [List.append_nil]

/-- A stream is as it was after what is not about it. -/
theorem streams_step {k : ℕ} {a : Action} (ha : a.stream ≠ some k) :
    (s.step a).streams k = s.streams k := by
  cases a with
  | connect c =>
    simp only [step, connect]
    split_ifs <;> rfl
  | subscribe c p =>
    simp only [step, handleSubscribe]
    split <;> rfl
  | unsubscribe c p =>
    simp only [step, handleUnsubscribe]
    split <;> rfl
  | poll c p =>
    simp only [step, poll]
    repeat' split
    all_goals rfl
  | close c => rfl
  | openStream k' p =>
    have hne : k ≠ k' := fun h => ha (congrArg some h.symm)
    simp only [step, openStream]
    split_ifs
    · exact Function.update_of_ne hne _ _
    · rfl
  | pollStream k' =>
    have hne : k ≠ k' := fun h => ha (congrArg some h.symm)
    simp only [step, pollStream]
    repeat' split
    all_goals first | rfl | exact Function.update_of_ne hne _ _
  | endStream k' => exact Function.update_of_ne (fun h => ha (congrArg some h.symm)) _ _
  | broadcast n => rfl

end SocketServer

namespace StreamServer

variable {s : StreamServer} {k : ℕ} {b : Bridge} {p : String} {r : Receiver}

/-- What the step of a stream's task comes to. -/
inductive Forwarded (s : StreamServer) (k : ℕ) (b : Bridge) (p : String) (r : Receiver) :
    StreamServer → Prop
  | sent (msg : FileEventMessage) (hs : b.sending = some msg) (ha : b.out.Accepts) :
    Forwarded s k b p r (s.setBridge k ⟨none, b.out.append msg⟩)
  | full (msg : FileEventMessage) (hs : b.sending = some msg) (hr : b.out.receiver = true)
    (hroom : ¬ b.out.HasRoom) : Forwarded s k b p r s
  | gone (msg : FileEventMessage) (hs : b.sending = some msg) (hr : b.out.receiver = false) :
    Forwarded s k b p r ({ s with server := s.server.step (.endStream k) }.setBridge k
      { b with sending := none })
  | event (e : FileEvent) (hs : b.sending = none) (ht : (s.server.tryRecv r).1 = .ok (.event e)) :
    Forwarded s k b p r ({ s with server := s.server.setStream k (some (p, (s.server.tryRecv r).2))
      }.setBridge k { b with sending := some (fileEventToMessage e) })
  | skipped (n : Notification) (hs : b.sending = none) (ht : (s.server.tryRecv r).1 = .ok n)
    (hn : eventMessages [n] = []) :
    Forwarded s k b p r { s with server := s.server.setStream k (some (p, (s.server.tryRecv r).2)) }
  | empty (hs : b.sending = none) (ht : (s.server.tryRecv r).1 = .empty) : Forwarded s k b p r s
  | lagged (n : ℕ) (hs : b.sending = none) (ht : (s.server.tryRecv r).1 = .lagged n) :
    Forwarded s k b p r { s with server := s.server.step (.endStream k) }
  | closed (hs : b.sending = none) (ht : (s.server.tryRecv r).1 = .closed) :
    Forwarded s k b p r { s with server := s.server.step (.endStream k) }

theorem forward_spec (hb : s.bridges k = some b) (hk : s.server.streams k = some (p, r)) :
    Forwarded s k b p r (s.forward k) := by
  unfold forward
  rw [hb, hk]
  simp only []
  rcases hs : b.sending with _ | msg
  · rcases ht : (s.server.tryRecv r).1 with n | _ | n | _
    · have hpoll : s.server.pollStream k =
          s.server.setStream k (some (p, (s.server.tryRecv r).2)) := by
        simp [SocketServer.pollStream, hk, ht]
      rw [hpoll]
      rcases n with e | _ | _ | _
      · exact .event e hs ht
      all_goals exact .skipped _ hs ht rfl
    · have hpoll : s.server.pollStream k = s.server := by simp [SocketServer.pollStream, hk, ht]
      rw [hpoll]
      exact .empty hs ht
    · have hpoll : s.server.pollStream k = s.server.endStream k := by
        simp [SocketServer.pollStream, SocketServer.endStream, hk, ht]
      rw [hpoll]
      exact .lagged n hs ht
    · have hpoll : s.server.pollStream k = s.server.endStream k := by
        simp [SocketServer.pollStream, SocketServer.endStream, hk, ht]
      rw [hpoll]
      exact .closed hs ht
  · by_cases hr : b.out.receiver = false
    · simp only [Mpsc.Channel.trySend, if_pos hr]
      exact .gone msg hs hr
    · rw [Bool.not_eq_false] at hr
      by_cases hroom : b.out.HasRoom
      · simp only [Mpsc.Channel.trySend_of_accepts ⟨hr, hroom⟩]
        exact .sent msg hs ⟨hr, hroom⟩
      · simp only [Mpsc.Channel.trySend, hr, Bool.true_eq_false, if_false, if_neg hroom]
        exact .full msg hs hr hroom

/-- Without a task there is no step. -/
theorem forward_of_none (h : s.bridges k = none ∨ s.server.streams k = none) :
    s.forward k = s := by
  unfold forward
  rcases h with h | h
  · rw [h]
  · rw [h]
    rcases s.bridges k with _ | b <;> rfl

end StreamServer

/-- The server with, for each event stream, its project and what was published for it since. -/
structure StreamAudit where
  state : StreamServer
  ledger : ℕ → Option (String × List Notification)

namespace StreamAudit

open StreamServer (Action)

def start : StreamAudit := ⟨.new, fun _ => none⟩

def record (a : StreamAudit) : Action → ℕ → Option (String × List Notification)
  | .subscribe k p =>
    if (a.state.server.streams k).isNone ∧ (a.state.bridges k).isNone then
      Function.update a.ledger k (some (p, []))
    else a.ledger
  | .other act => fun k => (a.ledger k).map fun x => (x.1, x.2 ++ act.publishes x.1)
  | _ => a.ledger

def step (a : StreamAudit) (act : Action) : StreamAudit := ⟨a.state.step act, a.record act⟩

/-- What stream `k` has made of what was published: `read` has been taken from the receiver, and
all of the messages of it are sent, or one is still to be, as long as the task is there. -/
structure FollowsAt (s : StreamServer) (k : ℕ) (p : String) (published : List Notification)
    (b : Bridge) (read : List Notification) : Prop where
  bridge : s.bridges k = some b
  room : 0 < b.out.bound
  sent : b.out.sent <+: eventMessages read
  taken : read <+: published
  task : ∀ q r, s.server.streams k = some (q, r) → q = p ∧
    s.server.manager.StandsAt p r read published ∧
    eventMessages read = b.out.sent ++ b.sending.toList

structure Follows (a : StreamAudit) : Prop where
  valid : a.state.server.manager.Valid
  held : ∀ k p published, a.ledger k = some (p, published) →
    ∃ b read, FollowsAt a.state k p published b read

variable {a : StreamAudit} {s : StreamServer} {k : ℕ} {p : String} {published : List Notification}
  {b : Bridge} {read : List Notification}

theorem follows_start : start.Follows :=
  ⟨SubscriptionManager.valid_new, fun _ _ _ h => by cases h⟩

/-- A stream looks only at its bridge, its receiver and the manager. -/
theorem FollowsAt.congr {s' : StreamServer} (h : FollowsAt s k p published b read)
    (hb : s'.bridges k = s.bridges k) (hk : s'.server.streams k = s.server.streams k)
    (hm : s'.server.manager = s.server.manager) : FollowsAt s' k p published b read := by
  refine ⟨hb.trans h.bridge, h.room, h.sent, h.taken, fun q r hr => ?_⟩
  rw [hm]
  exact h.task q r (hk ▸ hr)

/-- Others take a step, which may publish something. -/
theorem FollowsAt.other (h : FollowsAt s k p published b read) (hv : s.server.manager.Valid)
    {act : SocketServer.Action} (ha : act.stream ≠ some k) {s' : StreamServer}
    (hs : s'.server = s.server.step act) (hb : s'.bridges k = s.bridges k) :
    FollowsAt s' k p (published ++ act.publishes p) b read := by
  refine ⟨hb.trans h.bridge, h.room, h.sent, h.taken.trans (List.prefix_append _ _), fun q r hr => ?_⟩
  rw [hs, SocketServer.streams_step _ ha] at hr
  obtain ⟨hq, hat, heq⟩ := h.task q r hr
  rw [hs]
  exact ⟨hq, SocketServer.standsAt_step _ hv hat act, heq⟩

/-- The task has ended. -/
theorem FollowsAt.ended (h : FollowsAt s k p published b read) {s' : StreamServer} {b' : Bridge}
    (hb : s'.bridges k = some b') (hout : b'.out = b.out)
    (hk : s'.server.streams k = none) : FollowsAt s' k p published b' read := by
  refine ⟨hb, hout ▸ h.room, hout ▸ h.sent, h.taken, fun q r hr => ?_⟩
  rw [hk] at hr
  cases hr

theorem setBridge_bridges_self (s : StreamServer) (k : ℕ) (b : Bridge) :
    (s.setBridge k b).bridges k = some b :=
  Function.update_self _ _ _

/-- The stream's own task takes a step. -/
theorem FollowsAt.forward (h : FollowsAt s k p published b read) :
    ∃ b' read', FollowsAt (s.forward k) k p published b' read' := by
  rcases hk : s.server.streams k with _ | ⟨q, r⟩
  · rw [StreamServer.forward_of_none (.inr hk)]
    exact ⟨b, read, h⟩
  obtain ⟨rfl, hat, heq⟩ := h.task q r hk
  have hmoved : ∀ n, b.sending = none → (s.server.tryRecv r).1 = .ok n → ∀ {s' : StreamServer}
      {b' : Bridge}, s'.bridges k = some b' → b'.out = b.out →
      b'.sending.toList = eventMessages [n] →
      s'.server = s.server.setStream k (some (q, (s.server.tryRecv r).2)) →
      FollowsAt s' k q published b' (read ++ [n]) := by
    intro n hs ht s' b' hb' hout hsending hserver
    rw [hs, Option.toList_none, List.append_nil] at heq
    have hat' := hat.received ht
    refine ⟨hb', hout ▸ h.room, ?_, (List.prefix_append _ _).trans hat'.tail, fun q' r' hr => ?_⟩
    · rw [hout, eventMessages_append, heq]
      exact List.prefix_append _ _
    · rw [hserver] at hr
      obtain ⟨rfl, rfl⟩ : q = q' ∧ (s.server.tryRecv r).2 = r' := by
        simpa [SocketServer.setStream] using hr
      refine ⟨rfl, ?_, ?_⟩
      · rw [hserver]
        exact hat'
      · rw [eventMessages_append, heq, hout, hsending]
  have hgone : (s.server.step (.endStream k)).streams k = none := Function.update_self _ _ _
  have hnext := StreamServer.forward_spec h.bridge hk
  generalize s.forward k = s' at hnext ⊢
  cases hnext with
  | sent msg hs ha =>
    refine ⟨_, read, setBridge_bridges_self _ _ _, h.room, ?_, h.taken, fun q' r' hr => ?_⟩
    · rw [heq, hs]
      exact List.prefix_rfl
    · obtain ⟨hq, hat', -⟩ := h.task q' r' hr
      refine ⟨hq, hat', ?_⟩
      rw [heq, hs]
      simp [Mpsc.Channel.append]
  | full msg hs hr hroom => exact ⟨b, read, h⟩
  | gone msg hs hr => exact ⟨_, read, h.ended (setBridge_bridges_self _ _ _) rfl hgone⟩
  | event e hs ht =>
    exact ⟨_, _, hmoved _ hs ht (setBridge_bridges_self _ _ _) rfl rfl rfl⟩
  | skipped n hs ht hn => exact ⟨b, _, hmoved n hs ht h.bridge rfl (by rw [hs, hn]; rfl) rfl⟩
  | empty hs ht => exact ⟨b, read, h⟩
  | lagged n hs ht => exact ⟨b, read, h.ended h.bridge rfl hgone⟩
  | closed hs ht => exact ⟨b, read, h.ended h.bridge rfl hgone⟩

theorem forward_bridges {j : ℕ} (hj : j ≠ k) : (s.forward k).bridges j = s.bridges j := by
  rcases hb : s.bridges k with _ | b
  · rw [StreamServer.forward_of_none (.inl hb)]
  rcases hk : s.server.streams k with _ | ⟨q, r⟩
  · rw [StreamServer.forward_of_none (.inr hk)]
  have hnext := StreamServer.forward_spec hb hk
  generalize s.forward k = s' at hnext ⊢
  cases hnext <;> first | rfl | exact Function.update_of_ne hj _ _

/-- What a stream's task does to the server is what a stream does there, or nothing. -/
theorem forward_server (s : StreamServer) (k : ℕ) : (s.forward k).server = s.server ∨
    ∃ act : SocketServer.Action, act.stream = some k ∧ (∀ p, act.publishes p = []) ∧
      (∀ s' : SocketServer, (s'.step act).manager = s'.manager) ∧
      (s.forward k).server = s.server.step act := by
  rcases hb : s.bridges k with _ | b
  · rw [StreamServer.forward_of_none (.inl hb)]
    exact .inl rfl
  rcases hk : s.server.streams k with _ | ⟨q, r⟩
  · rw [StreamServer.forward_of_none (.inr hk)]
    exact .inl rfl
  have hpoll : ∀ n, (s.server.tryRecv r).1 = .ok n → s.server.step (.pollStream k) =
      s.server.setStream k (some (q, (s.server.tryRecv r).2)) := by
    intro n ht
    simp only [SocketServer.step, SocketServer.pollStream, hk, ht]
  have hman := fun s' : SocketServer => (SocketServer.pollStream_spec s' k).1
  have hnext := StreamServer.forward_spec hb hk
  generalize s.forward k = s' at hnext ⊢
  cases hnext with
  | sent | full | empty => exact .inl rfl
  | gone | lagged | closed => exact .inr ⟨.endStream k, rfl, fun _ => rfl, fun _ => rfl, rfl⟩
  | event e hs ht => exact .inr ⟨.pollStream k, rfl, fun _ => rfl, hman, (hpoll _ ht).symm⟩
  | skipped n hs ht hn => exact .inr ⟨.pollStream k, rfl, fun _ => rfl, hman, (hpoll _ ht).symm⟩

theorem Follows.forward (h : a.Follows) (k : ℕ) : (a.step (.forward k)).Follows := by
  have hv : (a.state.forward k).server.manager.Valid := by
    rcases forward_server a.state k with heq | ⟨act, -, -, -, heq⟩ <;> rw [heq]
    · exact h.valid
    · exact SocketServer.valid_step _ h.valid act
  refine ⟨hv, fun j p published hl => ?_⟩
  obtain ⟨b, read, hj⟩ := h.held j p published hl
  by_cases hjk : j = k
  · subst hjk
    exact hj.forward
  · have hb := forward_bridges (s := a.state) hjk
    rcases forward_server a.state k with heq | ⟨act, hact, hquiet, -, heq⟩
    · exact ⟨b, read, hj.congr hb (congrArg (·.streams j) heq) (congrArg (·.manager) heq)⟩
    · have hne : act.stream ≠ some j := fun hs => hjk (Option.some.inj (hs.symm.trans hact))
      have := hj.other h.valid hne heq hb
      rw [hquiet, List.append_nil] at this
      exact ⟨b, read, this⟩

theorem Follows.subscribe (h : a.Follows) (k : ℕ) (p : String) :
    (a.step (.subscribe k p)).Follows := by
  by_cases hfree : (a.state.server.streams k).isNone ∧ (a.state.bridges k).isNone
  swap
  · have hs : a.step (.subscribe k p) = a := by
      simp only [step, record, StreamServer.step, StreamServer.subscribe, if_neg hfree]
    rwa [hs]
  have hk := Option.isNone_iff_eq_none.1 hfree.1
  have hs : (a.step (.subscribe k p)).state =
      { a.state with server := a.state.server.step (.openStream k p) }.setBridge k .new :=
    if_pos hfree
  have hl : (a.step (.subscribe k p)).ledger = Function.update a.ledger k (some (p, [])) :=
    if_pos hfree
  have hm := (SocketServer.openStream_spec (p := p) hk).1
  refine ⟨hs ▸ SocketServer.valid_step _ h.valid _, fun j q published hj => ?_⟩
  by_cases hjk : j = k
  · subst hjk
    rw [hl, Function.update_self] at hj
    cases hj
    refine ⟨.new, [], hs ▸ setBridge_bridges_self _ _ _, by decide, List.nil_prefix, List.nil_prefix,
      fun q r hr => ?_⟩
    have hopened : (a.state.server.step (.openStream j p)).streams j =
        some (p, (a.state.server.manager.subscribe p).2) := by
      simp [SocketServer.step, SocketServer.openStream, SocketServer.setStream, hk]
    rw [hs] at hr ⊢
    obtain ⟨rfl, rfl⟩ : p = q ∧ (a.state.server.manager.subscribe p).2 = r := by
      simpa using hopened.symm.trans hr
    refine ⟨rfl, ?_, rfl⟩
    show (a.state.server.openStream j p).manager.StandsAt p _ [] []
    rw [hm]
    exact SubscriptionManager.standsAt_subscribe h.valid p
  · rw [hl, Function.update_of_ne hjk] at hj
    obtain ⟨b, read, hj⟩ := h.held j q published hj
    have hne : (SocketServer.Action.openStream k p).stream ≠ some j :=
      fun hs => hjk (Option.some.inj hs).symm
    have : FollowsAt (a.step (.subscribe k p)).state j q
        (published ++ (SocketServer.Action.openStream k p).publishes q) b read :=
      hj.other h.valid hne (by rw [hs]; rfl) (by rw [hs]; exact Function.update_of_ne hjk _ _)
    rw [show (SocketServer.Action.openStream k p).publishes q = [] from rfl, List.append_nil] at this
    exact ⟨b, read, this⟩

theorem onOut_server (s : StreamServer) (k : ℕ)
    (f : Mpsc.Channel FileEventMessage → Mpsc.Channel FileEventMessage) :
    (s.onOut k f).server = s.server := by
  unfold StreamServer.onOut
  split <;> rfl

theorem onOut_bridges {j : ℕ} (hj : j ≠ k)
    (f : Mpsc.Channel FileEventMessage → Mpsc.Channel FileEventMessage) :
    (s.onOut k f).bridges j = s.bridges j := by
  unfold StreamServer.onOut
  split
  · rfl
  · exact Function.update_of_ne hj _ _

theorem onOut_of_bridge (hb : s.bridges k = some b)
    (f : Mpsc.Channel FileEventMessage → Mpsc.Channel FileEventMessage) :
    s.onOut k f = s.setBridge k { b with out := f b.out } := by
  unfold StreamServer.onOut
  rw [hb]

theorem Follows.onOut (h : a.Follows) (k : ℕ)
    (f : Mpsc.Channel FileEventMessage → Mpsc.Channel FileEventMessage)
    (hf : ∀ out, (f out).sent = out.sent) (hbound : ∀ out, (f out).bound = out.bound) :
    (⟨a.state.onOut k f, a.ledger⟩ : StreamAudit).Follows := by
  have hserver := onOut_server a.state k f
  refine ⟨hserver ▸ h.valid, fun j p published hl => ?_⟩
  obtain ⟨b, read, hj⟩ := h.held j p published hl
  by_cases hjk : j = k
  · subst hjk
    have hb : (a.state.onOut j f).bridges j = some { b with out := f b.out } := by
      rw [onOut_of_bridge hj.bridge]
      exact setBridge_bridges_self _ _ _
    refine ⟨_, read, hb, (hbound b.out).symm ▸ hj.room, (hf b.out).symm ▸ hj.sent, hj.taken,
      fun q r hr => ?_⟩
    rw [hserver] at hr ⊢
    rw [hf]
    exact hj.task q r hr
  · exact ⟨b, read, hj.congr (onOut_bridges hjk f) (by rw [hserver]) (by rw [hserver])⟩

theorem Follows.other (h : a.Follows) (act : SocketServer.Action) :
    (a.step (.other act)).Follows := by
  have hl : ∀ j p published, (a.step (.other act)).ledger j = some (p, published) →
      ∃ before, a.ledger j = some (p, before) ∧ published = before ++ act.publishes p := by
    intro j p published hj
    obtain ⟨⟨q, before⟩, hbefore, heq⟩ := Option.map_eq_some_iff.1 hj
    cases heq
    exact ⟨before, hbefore, rfl⟩
  by_cases hk : (act.stream.bind a.state.bridges).isSome
  · have hs : (a.step (.other act)).state = a.state := if_pos hk
    have hquiet : ∀ p, act.publishes p = [] := by
      intro p
      cases act with
      | broadcast n => cases hk
      | _ => rfl
    refine ⟨hs ▸ h.valid, fun j p published hj => ?_⟩
    obtain ⟨before, hbefore, rfl⟩ := hl j p published hj
    rw [hquiet, List.append_nil, hs]
    exact h.held j p before hbefore
  · have hs : (a.step (.other act)).state =
        { a.state with server := a.state.server.step act } := if_neg hk
    refine ⟨hs ▸ SocketServer.valid_step _ h.valid act, fun j p published hj => ?_⟩
    obtain ⟨before, hbefore, rfl⟩ := hl j p published hj
    obtain ⟨b, read, hj⟩ := h.held j p before hbefore
    have hne : act.stream ≠ some j := by
      intro hstream
      rw [hstream, Option.bind_some, hj.bridge] at hk
      exact hk rfl
    exact ⟨b, read, hj.other h.valid hne (by rw [hs]) (by rw [hs])⟩

theorem Follows.step (h : a.Follows) (act : Action) : (a.step act).Follows := by
  cases act with
  | subscribe k p => exact h.subscribe k p
  | forward k => exact h.forward k
  | read k => exact h.onOut k _ Mpsc.Channel.sent_recv Mpsc.Channel.bound_recv
  | cancel k => exact h.onOut k _ (fun _ => rfl) fun _ => rfl
  | other act => exact h.other act

theorem follows_after (as : List Action) : (Run.after step start as).Follows := by
  induction as using List.reverseRecOn with
  | nil => exact follows_start
  | append_singleton as act ih =>
    rw [Run.after_snoc]
    exact ih.step act

/-- What the client of an event stream has read is the beginning of the events that were published
for its project since it subscribed. -/
theorem stream_gapless (as : List Action) (k : ℕ) (p : String) (published : List Notification)
    (h : (Run.after step start as).ledger k = some (p, published)) :
    ∃ b, (Run.after step start as).state.bridges k = some b ∧
      b.received <+: eventMessages published := by
  obtain ⟨b, read, hk⟩ := (follows_after as).held k p published h
  exact ⟨b, hk.bridge, (List.take_prefix _ _).trans (hk.sent.trans (eventMessages_mono hk.taken))⟩

def created : Notification := .event (.new .epoch .created "a.rs" "p" "m")

theorem stream_gapless_created :
    ∃ b, (Run.after step start [.subscribe 1 "p", .other (.broadcast created), .forward 1,
      .forward 1, .other (.broadcast created), .read 1]).state.bridges 1 = some b ∧
      b.received <+: eventMessages [created, created] :=
  stream_gapless _ 1 "p" _ rfl

end StreamAudit

end AmbientFs
