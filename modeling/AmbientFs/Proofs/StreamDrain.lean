import AmbientFs.Lib.Run
import AmbientFs.Proofs.EventStreams

/-!
# Event streams that are not broken off

A stream whose client is there, whose project keeps its channel and that is never found too far
behind goes on, and its task and its client come to the end of what was published.
-/

namespace AmbientFs

open Broadcast

namespace StreamAudit

open StreamServer (Action)

variable {a : StreamAudit} {s : StreamServer} {k : ℕ} {p : String} {published : List Notification}
  {b : Bridge}

/-- The step neither lets stream `k` find that it is too far behind, nor cancels it, nor takes the
count of its project to zero. -/
def Unbroken (k : ℕ) (a : StreamAudit) : Action → Prop
  | .forward k' => k' = k → ∀ q r, a.state.server.streams k = some (q, r) →
    ((a.state.server.manager.channels r.channel).pending r.next).length ≤ channelCapacity
  | .cancel k' => k' ≠ k
  | .other (.unsubscribe c q) => (a.state.server.conns c).isSome →
    (∀ published, a.ledger k = some (q, published) → a.state.server.manager.count q ≠ 1)
  | _ => True

/-- The task of stream `k` is there, its client too, and the project has its channel. -/
structure Alive (k : ℕ) (a : StreamAudit) : Prop where
  follows : a.Follows
  held : ∀ p published, a.ledger k = some (p, published) → ∃ b r,
    a.state.bridges k = some b ∧ b.out.receiver = true ∧ a.state.server.streams k = some (p, r) ∧
    (a.state.server.manager.channels r.channel).closed = false

theorem alive_start : start.Alive k := ⟨follows_start, fun _ _ h => by cases h⟩

/-- The task of a live stream that is not too far behind keeps it alive. -/
theorem Alive.forward (h : a.Alive k) (hu : a.Unbroken k (.forward k)) :
    (a.step (.forward k)).Alive k := by
  refine ⟨h.follows.step _, fun p published hl => ?_⟩
  obtain ⟨b, r, hb, hclient, hk, hopen⟩ := h.held p published hl
  have hcap := hu rfl p r hk
  have hnext := StreamServer.forward_spec hb hk
  show ∃ b r, (a.state.forward k).bridges k = some b ∧ b.out.receiver = true ∧
    (a.state.forward k).server.streams k = some (p, r) ∧
    ((a.state.forward k).server.manager.channels r.channel).closed = false
  generalize a.state.forward k = s' at hnext ⊢
  cases hnext with
  | sent msg hs ha => exact ⟨_, r, setBridge_bridges_self _ _ _, hclient, hk, hopen⟩
  | full | empty => exact ⟨b, r, hb, hclient, hk, hopen⟩
  | gone msg hs hr =>
    rw [hclient] at hr
    cases hr
  | event e hs ht =>
    exact ⟨_, _, setBridge_bridges_self _ _ _, hclient, Function.update_self _ _ _, hopen⟩
  | skipped n hs ht hn => exact ⟨b, _, hb, hclient, Function.update_self _ _ _, hopen⟩
  | lagged n hs ht => exact absurd hcap (not_le.2 (Channel.tryRecv_eq_lagged ht))
  | closed hs ht =>
    have := Channel.tryRecv_eq_closed ht
    rw [hopen] at this
    cases this

/-- A live stream that is left alone stays alive if its channel stays open. -/
theorem Alive.congr {a' : StreamAudit} (h : a.Alive k) (hf : a'.Follows)
    (hl : ∀ p published, a'.ledger k = some (p, published) → ∃ before, a.ledger k = some (p, before))
    (hb : a'.state.bridges k = a.state.bridges k)
    (hk : (a.ledger k).isSome → a'.state.server.streams k = a.state.server.streams k)
    (ho : ∀ p published r, a.ledger k = some (p, published) →
      a.state.server.streams k = some (p, r) →
      (a.state.server.manager.channels r.channel).closed = false →
      (a'.state.server.manager.channels r.channel).closed = false) : a'.Alive k := by
  refine ⟨hf, fun p published hl' => ?_⟩
  obtain ⟨before, hbefore⟩ := hl p published hl'
  obtain ⟨b, r, hbridge, hclient, hstream, hopen⟩ := h.held p before hbefore
  exact ⟨b, r, hb.trans hbridge, hclient, (hk (by rw [hbefore]; rfl)).trans hstream,
    ho p before r hbefore hstream hopen⟩

/-- What the server knows of a live stream's receiver. -/
theorem Alive.standsAt (h : a.Alive k) {r : Receiver} (hl : a.ledger k = some (p, published))
    (hk : a.state.server.streams k = some (p, r)) :
    ∃ read, a.state.server.manager.StandsAt p r read published := by
  obtain ⟨b, read, hf⟩ := h.follows.held k p published hl
  exact ⟨read, (hf.task p r hk).2.1⟩

/-- The channel of a live stream stays open through a step of the server. -/
theorem Alive.opened (h : a.Alive k) {act : SocketServer.Action} (hu : a.Unbroken k (.other act))
    {r : Receiver} (hl : a.ledger k = some (p, published))
    (hk : a.state.server.streams k = some (p, r))
    (hopen : (a.state.server.manager.channels r.channel).closed = false) :
    ((a.state.server.step act).manager.channels r.channel).closed = false := by
  obtain ⟨read, hat⟩ := h.standsAt hl hk
  have hv := h.follows.valid
  have hproj : a.state.server.manager.projects p = some r.channel := by
    rcases hat.whole with hc | ⟨hproj, -⟩
    · rw [hopen] at hc
      cases hc
    · exact hproj
  have hother : ∀ q, (a.state.server.step act).manager = (a.state.server.manager.subscribe q).1 →
      ((a.state.server.step act).manager.channels r.channel).closed = false := by
    intro q heq
    rw [heq, (SubscriptionManager.subscribe_spec hv q).channels _ hat.channel]
    exact hopen
  cases act with
  | unsubscribe c q =>
    rcases hc : a.state.server.conns c with _ | conn
    · simpa [SocketServer.step, SocketServer.handleUnsubscribe, hc] using hopen
    · have heq := (SocketServer.handleUnsubscribe_spec (p := q) hc).1
      rw [SocketServer.step, heq]
      refine SubscriptionManager.unsubscribe_opened hv hproj ?_
      rintro rfl
      exact hu (by rw [hc]; rfl) published hl
  | broadcast n =>
    rw [SocketServer.step, SubscriptionManager.broadcast_closed]
    exact hopen
  | connect c =>
    rw [SocketServer.step, (SocketServer.connect_spec _ c).1]
    exact hopen
  | subscribe c q =>
    rcases hc : a.state.server.conns c with _ | conn
    · simpa [SocketServer.step, SocketServer.handleSubscribe, hc] using hopen
    · exact hother q (SocketServer.handleSubscribe_spec hc).1
  | poll c q =>
    rw [SocketServer.step, (SocketServer.Audited.poll_spec (c := c) (p := q) _ c q).1]
    exact hopen
  | close c => exact hopen
  | openStream j q =>
    rcases hj : a.state.server.streams j with _ | x
    · exact hother q (SocketServer.openStream_spec hj).1
    · simpa [SocketServer.step, SocketServer.openStream, hj] using hopen
  | pollStream j =>
    rw [SocketServer.step, (SocketServer.pollStream_spec _ j).1]
    exact hopen
  | endStream j => exact hopen

/-- A step that does not break a stream off keeps it alive. -/
theorem Alive.step (h : a.Alive k) {act : Action} (hu : a.Unbroken k act) :
    (a.step act).Alive k := by
  have hf := h.follows.step act
  cases act with
  | forward k' =>
    by_cases hk : k' = k
    · subst hk
      exact h.forward hu
    · have hb := forward_bridges (s := a.state) (Ne.symm hk)
      rcases forward_server a.state k' with heq | ⟨act, hact, -, hman, heq⟩
      · refine h.congr hf (fun p published hl => ⟨published, hl⟩) hb
          (fun _ => congrArg (·.streams k) heq) fun p published r _ _ hopen => ?_
        show ((a.state.forward k').server.manager.channels r.channel).closed = false
        rwa [heq]
      · have hne : act.stream ≠ some k := fun hs => hk (Option.some.inj (hact.symm.trans hs))
        refine h.congr hf (fun p published hl => ⟨published, hl⟩) hb
          (fun _ => (congrArg (·.streams k) heq).trans (SocketServer.streams_step _ hne))
          fun p published r _ _ hopen => ?_
        show ((a.state.forward k').server.manager.channels r.channel).closed = false
        rwa [heq, hman]
  | subscribe k' q =>
    by_cases hfree : (a.state.server.streams k').isNone ∧ (a.state.bridges k').isNone
    swap
    · have hs : a.step (.subscribe k' q) = a := by
        simp only [StreamAudit.step, record, StreamServer.step, StreamServer.subscribe,
          if_neg hfree]
      rwa [hs]
    have hk' := Option.isNone_iff_eq_none.1 hfree.1
    have hs : (a.step (.subscribe k' q)).state =
        { a.state with server := a.state.server.step (.openStream k' q) }.setBridge k' .new :=
      if_pos hfree
    have hl : (a.step (.subscribe k' q)).ledger = Function.update a.ledger k' (some (q, [])) :=
      if_pos hfree
    by_cases hk : k = k'
    · subst hk
      refine ⟨hf, fun p published hp => ?_⟩
      rw [hl, Function.update_self] at hp
      cases hp
      refine ⟨.new, (a.state.server.manager.subscribe q).2, ?_, rfl, ?_, ?_⟩
      · rw [hs]
        exact setBridge_bridges_self _ _ _
      · rw [hs]
        simp [StreamServer.setBridge, SocketServer.step, SocketServer.openStream,
          SocketServer.setStream, hk']
      · rw [hs]
        show ((a.state.server.openStream k q).manager.channels _).closed = false
        rw [(SocketServer.openStream_spec hk').1]
        exact (SubscriptionManager.subscribe_spec h.follows.valid q).opened
    · have hne : (SocketServer.Action.openStream k' q).stream ≠ some k :=
        fun hs => hk (Option.some.inj hs).symm
      refine h.congr hf (fun p published hp => ?_) ?_ ?_ fun p published r hp hr hopen => ?_
      · rw [hl, Function.update_of_ne hk] at hp
        exact ⟨published, hp⟩
      · rw [hs]
        exact Function.update_of_ne hk _ _
      · intro _
        rw [hs]
        exact SocketServer.streams_step _ hne
      · rw [hs]
        have hu : a.Unbroken k (.other (.openStream k' q)) := trivial
        exact h.opened hu hp hr hopen
  | read k' =>
    by_cases hk : k' = k
    · subst hk
      refine ⟨hf, fun p published hl => ?_⟩
      obtain ⟨b, r, hb, hclient, hstream, hopen⟩ := h.held p published hl
      have hs : (a.step (.read k')).state = a.state.setBridge k' { b with out := b.out.recv } :=
        onOut_of_bridge hb _
      rw [hs]
      refine ⟨_, r, setBridge_bridges_self _ _ _, ?_, hstream, hopen⟩
      unfold Mpsc.Channel.recv
      split_ifs <;> exact hclient
    · have hs := onOut_server a.state k' .recv
      exact h.congr hf (fun p published hl => ⟨published, hl⟩) (onOut_bridges (Ne.symm hk) _)
        (fun _ => congrArg (·.streams k) hs) fun p published r _ _ hopen =>
          (congrArg (fun s : SocketServer => (s.manager.channels r.channel).closed) hs).trans hopen
  | cancel k' =>
    have hs := onOut_server a.state k' .dropReceiver
    exact h.congr hf (fun p published hl => ⟨published, hl⟩) (onOut_bridges (Ne.symm hu) _)
      (fun _ => congrArg (·.streams k) hs) fun p published r _ _ hopen =>
        (congrArg (fun s : SocketServer => (s.manager.channels r.channel).closed) hs).trans hopen
  | other act =>
    have hl : ∀ p published, (a.step (.other act)).ledger k = some (p, published) →
        ∃ before, a.ledger k = some (p, before) := by
      intro p published hp
      obtain ⟨⟨q, before⟩, hbefore, heq⟩ := Option.map_eq_some_iff.1 hp
      cases heq
      exact ⟨before, hbefore⟩
    by_cases hown : (act.stream.bind a.state.bridges).isSome
    · have hs : (a.step (.other act)).state = a.state := if_pos hown
      exact h.congr hf hl (by rw [hs]) (fun _ => by rw [hs]) fun _ _ _ _ _ hopen => by rwa [hs]
    · have hs : (a.step (.other act)).state =
          { a.state with server := a.state.server.step act } := if_neg hown
      refine h.congr hf hl (by rw [hs]) (fun hsome => ?_) fun p published r hp hr hopen => ?_
      · obtain ⟨⟨p, published⟩, hp⟩ := Option.isSome_iff_exists.1 hsome
        obtain ⟨b, r, hb, -⟩ := h.held p published hp
        rw [hs]
        refine SocketServer.streams_step _ fun hstream => hown ?_
        rw [hstream, Option.bind_some, hb]
        rfl
      · rw [hs]
        exact h.opened hu hp hr hopen

/-- What is left to do for a live stream: notifications to receive, a message to send, and those
to read. -/
def leftOf (b : Bridge) (pending : List Notification) : ℕ :=
  3 * pending.length + 2 * b.sending.toList.length + b.out.queue.length

structure Left (k : ℕ) (p : String) (published : List Notification) (a : StreamAudit) (n : ℕ) :
    Prop where
  alive : a.Alive k
  ledger : a.ledger k = some (p, published)
  count : ∃ b r, a.state.bridges k = some b ∧ a.state.server.streams k = some (p, r) ∧
    ((a.state.server.manager.channels r.channel).pending r.next).length ≤ channelCapacity ∧
    n = leftOf b ((a.state.server.manager.channels r.channel).pending r.next)

variable {n : ℕ}

theorem Left.unbroken (h : a.Left k p published n) : a.Unbroken k (.forward k) := by
  rintro - q r hr
  obtain ⟨b, r', -, hk, hcap, -⟩ := h.count
  rw [hk] at hr
  cases hr
  exact hcap

/-- The task does something, unless it has nothing to do or the client has something to read. -/
theorem Left.forward (h : a.Left k p published n) : ∃ m, (a.step (.forward k)).Left k p published m ∧
    (m < n ∨ m = n ∧ (n ≠ 0 → ∃ b, (a.step (.forward k)).state.bridges k = some b ∧
      b.out.queue ≠ [])) := by
  have halive := h.alive.step h.unbroken
  obtain ⟨b, r, hb, hk, hcap, rfl⟩ := h.count
  obtain ⟨b', r', hb', hclient, hk', hopen⟩ := h.alive.held p published h.ledger
  obtain rfl : b = b' := Option.some.inj (hb.symm.trans hb')
  obtain ⟨b', read, hf⟩ := h.alive.follows.held k p published h.ledger
  obtain rfl : b = b' := Option.some.inj (hb.symm.trans hf.bridge)
  obtain rfl : r = r' := by
    rw [hk] at hk'
    cases hk'
    rfl
  have hnext := StreamServer.forward_spec hb hk
  suffices hs : ∃ b' r', (a.state.forward k).bridges k = some b' ∧
      (a.state.forward k).server.streams k = some (p, r') ∧
      (((a.state.forward k).server.manager.channels r'.channel).pending r'.next).length
        ≤ channelCapacity ∧
      (leftOf b' (((a.state.forward k).server.manager.channels r'.channel).pending r'.next)
          < leftOf b ((a.state.server.manager.channels r.channel).pending r.next) ∨
        leftOf b' (((a.state.forward k).server.manager.channels r'.channel).pending r'.next)
          = leftOf b ((a.state.server.manager.channels r.channel).pending r.next) ∧
        (leftOf b ((a.state.server.manager.channels r.channel).pending r.next) ≠ 0 →
          b'.out.queue ≠ [])) by
    obtain ⟨b', r', hb', hr', hcap', hle⟩ := hs
    exact ⟨_, ⟨halive, h.ledger, b', r', hb', hr', hcap', rfl⟩,
      hle.imp_right fun ⟨heq, hq⟩ => ⟨heq, fun hn => ⟨b', hb', hq hn⟩⟩⟩
  generalize a.state.forward k = s' at hnext ⊢
  have hmoved : ∀ x, (a.state.server.tryRecv r).1 = .ok x →
      (a.state.server.manager.channels r.channel).pending r.next = x ::
        (a.state.server.manager.channels (a.state.server.tryRecv r).2.channel).pending
          (a.state.server.tryRecv r).2.next := by
    intro x ht
    obtain ⟨hn, -, hpend⟩ := Channel.pending_of_tryRecv ht
    rw [hpend]
    show _ = x :: (a.state.server.manager.channels r.channel).pending
      ((a.state.server.manager.channels r.channel).tryRecv channelCapacity r.next).2
    rw [hn]
  cases hnext with
  | sent msg hs ha =>
    refine ⟨_, r, setBridge_bridges_self _ _ _, hk, hcap, .inl ?_⟩
    have hq : (b.out.append msg).queue.length ≤ b.out.queue.length + 1 := by
      simp only [Mpsc.Channel.queue, Mpsc.Channel.append, List.length_drop, List.length_append,
        List.length_singleton]
      omega
    simp only [leftOf, StreamServer.setBridge, hs, Option.toList_none, Option.toList_some,
      List.length_nil, List.length_singleton]
    omega
  | full msg hs hr hroom =>
    refine ⟨b, r, hb, hk, hcap, .inr ⟨rfl, fun _ hq => hroom ?_⟩⟩
    rw [Mpsc.Channel.HasRoom, hq]
    exact hf.room
  | gone msg hs hr =>
    rw [hclient] at hr
    cases hr
  | event e hs ht =>
    have hpend := hmoved _ ht
    rw [hpend, List.length_cons] at hcap
    refine ⟨_, _, setBridge_bridges_self _ _ _, Function.update_self _ _ _,
      (Nat.le_succ _).trans hcap, .inl ?_⟩
    simp only [leftOf, hs, hpend, List.length_cons, Option.toList_none, Option.toList_some,
      List.length_nil, StreamServer.setBridge, SocketServer.setStream]
    omega
  | skipped x hs ht hx =>
    have hpend := hmoved _ ht
    rw [hpend, List.length_cons] at hcap
    refine ⟨b, _, hb, Function.update_self _ _ _, (Nat.le_succ _).trans hcap, .inl ?_⟩
    simp only [leftOf, hs, hpend, List.length_cons, Option.toList_none, List.length_nil,
      SocketServer.setStream]
    omega
  | empty hs ht =>
    refine ⟨b, r, hb, hk, hcap, .inr ⟨rfl, fun hn hq => hn ?_⟩⟩
    have hpend : (a.state.server.manager.channels r.channel).pending r.next = [] :=
      Channel.pending_of_tryRecv_empty ht
    simp [leftOf, hs, hq, hpend]
  | lagged x hs ht => exact absurd hcap (not_le.2 (Channel.tryRecv_eq_lagged ht))
  | closed hs ht =>
    have := Channel.tryRecv_eq_closed ht
    rw [hopen] at this
    cases this

/-- The client reads a message if there is one. -/
theorem Left.reads (h : a.Left k p published n) : ∃ m, (a.step (.read k)).Left k p published m ∧
    m ≤ n ∧ ((∃ b, a.state.bridges k = some b ∧ b.out.queue ≠ []) → m < n) := by
  have halive : (a.step (.read k)).Alive k := h.alive.step trivial
  obtain ⟨b, r, hb, hk, hcap, rfl⟩ := h.count
  obtain ⟨b', r', hb', hclient, -, -⟩ := h.alive.held p published h.ledger
  obtain rfl : b = b' := Option.some.inj (hb.symm.trans hb')
  have hs : (a.step (.read k)).state = a.state.setBridge k { b with out := b.out.recv } :=
    onOut_of_bridge hb _
  have hqueue : b.out.recv.queue.length = b.out.queue.length - 1 := by
    rw [Mpsc.Channel.recv]
    split_ifs with hlt
    · simp only [Mpsc.Channel.queue, List.length_drop]
      omega
    · have : b.out.sent.length ≤ b.out.taken := by
        by_contra hc
        exact hlt ⟨hclient, not_le.1 hc⟩
      simp only [Mpsc.Channel.queue, List.length_drop]
      omega
  refine ⟨_, ⟨halive, h.ledger, { b with out := b.out.recv }, r, ?_, ?_, ?_, rfl⟩, ?_, ?_⟩
  · rw [hs]
    exact setBridge_bridges_self _ _ _
  · rw [hs]
    exact hk
  · rw [hs]
    exact hcap
  · rw [hs]
    simp only [leftOf, StreamServer.setBridge, hqueue]
    omega
  · rintro ⟨b', hb', hq⟩
    obtain rfl : b = b' := Option.some.inj (hb.symm.trans hb')
    have := List.length_pos_iff.2 hq
    rw [hs]
    simp only [leftOf, StreamServer.setBridge, hqueue]
    omega

/-- A step of the task and one of the client leave less to do. -/
theorem Left.round (h : a.Left k p published n) (hn : n ≠ 0) :
    ∃ m < n, (Run.after step a [.forward k, .read k]).Left k p published m := by
  obtain ⟨m, hm, hlt⟩ := h.forward
  obtain ⟨m', hm', hle, hread⟩ := hm.reads
  refine ⟨m', ?_, hm'⟩
  rcases hlt with hlt | ⟨rfl, hq⟩
  · omega
  · exact hread (hq hn)

/-- With nothing left to do everything published has been read. -/
theorem Left.received (h : a.Left k p published 0) :
    ∃ b, a.state.bridges k = some b ∧ b.received = eventMessages published := by
  obtain ⟨b, r, hb, hk, -, hzero⟩ := h.count
  obtain ⟨b', r', -, -, hk', hopen⟩ := h.alive.held p published h.ledger
  rw [hk] at hk'
  cases hk'
  obtain ⟨b', read, hf⟩ := h.alive.follows.held k p published h.ledger
  obtain rfl : b = b' := Option.some.inj (hb.symm.trans hf.bridge)
  obtain ⟨-, hat, heq⟩ := hf.task p r hk
  have hpend : (a.state.server.manager.channels r.channel).pending r.next = [] := by
    rw [← List.length_eq_zero_iff]
    unfold leftOf at hzero
    omega
  have hsending : b.sending.toList = [] := by
    rw [← List.length_eq_zero_iff]
    unfold leftOf at hzero
    omega
  have hqueue : b.out.sent.length ≤ b.out.taken := by
    rw [← List.drop_eq_nil_iff, ← List.length_eq_zero_iff]
    unfold leftOf Mpsc.Channel.queue at hzero
    omega
  refine ⟨b, hb, ?_⟩
  rcases hat.whole with hc | ⟨-, hwhole⟩
  · rw [hopen] at hc
    cases hc
  · rw [Bridge.received, List.take_of_length_le hqueue, hwhole, hpend, List.append_nil, heq,
      hsending, List.append_nil]

/-- The client of a stream that is not broken off, and is not too far behind, has read all events
published for its project since it subscribed, once its task and it have taken enough steps. -/
theorem stream_complete (as : List Action) (k : ℕ) (p : String) (published : List Notification)
    (hu : Run.Steps step start (Unbroken k) as)
    (hl : (Run.after step start as).ledger k = some (p, published))
    (hcap : (Run.after step start as).Unbroken k (.forward k)) :
    ∃ n b, (Run.after step start (as ++ (List.replicate n [.forward k, .read k]).flatten)
      ).state.bridges k = some b ∧ b.received = eventMessages published := by
  have halive := hu.after alive_start fun a act h hact => h.step hact
  obtain ⟨b, r, hb, -, hk, -⟩ := halive.held p published hl
  have hleft : (Run.after step start as).Left k p published _ :=
    ⟨halive, hl, b, r, hb, hk, hcap rfl p r hk, rfl⟩
  obtain ⟨n, hn⟩ := Run.exists_rounds (fun a m h => h.round) hleft
  obtain ⟨b', hb', heq⟩ := hn.received
  refine ⟨n, b', ?_, heq⟩
  rwa [Run.after_append]

theorem stream_complete_created :
    ∃ n b, (Run.after step start ([.subscribe 1 "p", .other (.broadcast created)] ++
      (List.replicate n [.forward 1, .read 1]).flatten)).state.bridges 1 = some b ∧
      b.received = eventMessages [created] := by
  refine stream_complete _ 1 "p" [created] ?_ rfl ?_
  · exact Run.steps_cons.2 ⟨trivial, Run.steps_cons.2 ⟨trivial, Run.steps_nil⟩⟩
  · rintro - q r ⟨⟩
    decide

end StreamAudit

end AmbientFs
