import AmbientFs.Proofs.Subscriptions

/-!
# Delivery

A connection that has subscribed to a project and not unsubscribed receives what is published
for the project, in order, unless another connection's unsubscription takes the count of the
project to zero, which closes the channel under it, or it subscribes again with notifications
unread, which drops them.
-/

namespace AmbientFs

open Broadcast

namespace SocketServer

/-- For each connection, and each project it has subscribed to and not unsubscribed from, what
was published since for the project and what the connection received for it. -/
abbrev Ledger := ℕ → String → Option (List Notification × List Notification)

structure Audited where
  server : SocketServer
  ledger : Ledger

namespace Audited

def start : Audited := ⟨.new, fun _ _ => none⟩

def set (l : Ledger) (c : ℕ) (p : String)
    (x : Option (List Notification × List Notification)) : Ledger :=
  Function.update l c (Function.update (l c) p x)

def record (a : Audited) : Action → Ledger
  | .subscribe c p =>
    if (a.server.conns c).isSome ∧ a.ledger c p = none then set a.ledger c p (some ([], []))
    else a.ledger
  | .unsubscribe c p => set a.ledger c p none
  | .close c => Function.update a.ledger c fun _ => none
  | .poll c p =>
    match (a.server.poll c p).2 with
    | some n => set a.ledger c p ((a.ledger c p).map fun x => (x.1, x.2 ++ [n]))
    | none => a.ledger
  | .broadcast n => fun c p =>
    if p = n.projectId then (a.ledger c p).map fun x => (x.1 ++ [n], x.2) else a.ledger c p
  | _ => a.ledger

def step (a : Audited) (act : Action) : Audited := ⟨a.server.step act, a.record act⟩

/-- What the connection received is the beginning of what was published for the project, and as
many tries to receive as there are notifications left bring the rest. -/
def Delivers (c : ℕ) (p : String) (a : Audited) : Prop :=
  ∀ published received, a.ledger c p = some (published, received) →
    received <+: published ∧ (∀ n ∈ received, n.projectId = p) ∧
    (Run.after step a (List.replicate (published.length - received.length) (.poll c p))).ledger c p
      = some (published, published)

/-- The connection is not more than the channel's capacity behind. -/
def WithinCapacity (c : ℕ) (p : String) (a : Audited) : Prop :=
  ∀ published received, a.ledger c p = some (published, received) →
    published.length - received.length ≤ channelCapacity

/-- The step neither takes the count from one to zero for another connection while this one
holds a receiver, nor replaces this one's receiver with notifications unread. -/
def Harmless (c : ℕ) (p : String) (a : Audited) : Action → Prop
  | .unsubscribe c' p' => c' ≠ c → p' = p → (a.server.conns c').isSome →
    (a.server.receiver p (.inl c)).isSome → a.server.manager.count p ≠ 1
  | .subscribe c' p' => c' = c → p' = p → ∀ r, a.server.receiver p (.inl c) = some r →
    (a.server.manager.channels r.channel).pending r.next = []
  | _ => True

/-- The connection's receiver reads the project's channel and is to see what is missing. -/
structure Following (c : ℕ) (p : String) (a : Audited) : Prop where
  valid : a.server.manager.Valid
  held : ∀ published received, a.ledger c p = some (published, received) →
    (∀ n ∈ published, n.projectId = p) ∧
    ∃ r, a.server.receiver p (.inl c) = some r ∧
      a.server.manager.projects p = some r.channel ∧
      r.next ≤ (a.server.manager.channels r.channel).sent.length ∧
      published = received ++ (a.server.manager.channels r.channel).pending r.next

variable {c : ℕ} {p : String} {a : Audited}

theorem following_start : Following c p start :=
  ⟨SubscriptionManager.valid_new, fun _ _ h => by cases h⟩

/-- Nothing changes for the connection. -/
theorem Following.congr {a' : Audited} (h : Following c p a) (hv : a'.server.manager.Valid)
    (hl : a'.ledger c p = a.ledger c p)
    (hr : a'.server.receiver p (.inl c) = a.server.receiver p (.inl c))
    (hp : ∀ ch, a.server.manager.projects p = some ch → a'.server.manager.projects p = some ch)
    (hch : ∀ ch, a.server.manager.projects p = some ch →
      (a'.server.manager.channels ch).sent = (a.server.manager.channels ch).sent) :
    Following c p a' := by
  refine ⟨hv, fun published received hl' => ?_⟩
  obtain ⟨hn, r, hrec, hproj, hle, heq⟩ := h.held published received (hl ▸ hl')
  refine ⟨hn, r, hr.trans hrec, hp _ hproj, ?_, ?_⟩
  · rw [hch _ hproj]
    exact hle
  · rw [Channel.pending, hch _ hproj]
    exact heq

/-- Nothing changes for anyone. -/
theorem Following.idle {a' : Audited} (h : Following c p a) (hs : a'.server = a.server)
    (hl : a'.ledger c p = a.ledger c p) : Following c p a' := by
  refine h.congr (hs ▸ h.valid) hl (by rw [hs]) (fun ch hch => by rwa [hs]) fun ch _ => by rw [hs]

theorem Following.of_none {a' : Audited} (hv : a'.server.manager.Valid)
    (hl : a'.ledger c p = none) : Following c p a' :=
  ⟨hv, fun _ _ h => by rw [hl] at h; cases h⟩

theorem set_apply (l : Ledger) (c' : ℕ) (p' : String)
    (x : Option (List Notification × List Notification)) :
    set l c' p' x c p = if c = c' ∧ p = p' then x else l c p := by
  unfold set
  by_cases hc : c = c'
  · subst hc
    by_cases hp : p = p' <;> simp [hp]
  · simp [hc]

/-- A subscription by someone else, or for something else. -/
theorem Following.subscribed {s' : SocketServer} {p' : String} {l : Ledger} (h : Following c p a)
    (hm : s'.manager = (a.server.manager.subscribe p').1) (hl : l c p = a.ledger c p)
    (hr : s'.receiver p (.inl c) = a.server.receiver p (.inl c)) : Following c p ⟨s', l⟩ := by
  have hs := SubscriptionManager.subscribe_spec h.valid p'
  refine h.congr (hm ▸ hs.valid h.valid) hl hr (fun ch hch => ?_) fun ch hch => ?_
  · show s'.manager.projects p = some ch
    rw [hm, hs.projects]
    by_cases hp : p = p'
    · subst hp
      rw [Function.update_self, hs.same ch hch]
    · rwa [Function.update_of_ne hp]
  · show (s'.manager.channels ch).sent = _
    rw [hm, hs.channels ch (h.valid.made p ch hch)]

theorem Following.subscribe {c' : ℕ} {p' : String} (h : Following c p a)
    (hh : Harmless c p a (.subscribe c' p')) : Following c p (a.step (.subscribe c' p')) := by
  rcases hc : a.server.conns c' with _ | conn
  · refine h.idle ?_ (by simp [step, record, hc])
    show a.server.handleSubscribe c' p' = a.server
    simp [handleSubscribe, hc]
  obtain ⟨hm, hr⟩ := handleSubscribe_spec (p := p') hc
  by_cases hsame : c = c' ∧ p = p'
  · obtain ⟨rfl, rfl⟩ := hsame
    have hs := SubscriptionManager.subscribe_spec h.valid p
    have hnew : (a.step (.subscribe c p)).server.receiver p (.inl c) =
        some (a.server.manager.subscribe p).2 := (hr p (.inl c)).trans (if_pos ⟨rfl, rfl⟩)
    have hman : (a.step (.subscribe c p)).server.manager = (a.server.manager.subscribe p).1 := hm
    refine ⟨hman ▸ hs.valid h.valid, fun published received hl => ?_⟩
    have hbefore : (∀ n ∈ published, n.projectId = p) ∧ published = received := by
      simp only [step, record, hc, Option.isSome_some, true_and] at hl
      split_ifs at hl with hnone
      · rw [set_apply, if_pos ⟨rfl, rfl⟩] at hl
        cases hl
        simp
      · obtain ⟨hn, r, hrec, -, -, heq⟩ := h.held _ _ hl
        rw [hh rfl rfl r hrec, List.append_nil] at heq
        exact ⟨hn, heq⟩
    refine ⟨hbefore.1, _, hnew, ?_, ?_, ?_⟩
    · rw [hman, hs.projects, Function.update_self]
    · rw [hman, hs.next]
    · rw [hman, hs.next, Channel.pending_length, List.append_nil, hbefore.2]
  · refine h.subscribed hm ?_ ?_
    · simp only [record]
      split_ifs
      · rw [set_apply, if_neg hsame]
      · rfl
    · exact (hr p (.inl c)).trans (if_neg fun hc' => hsame ⟨Sum.inl.inj hc'.1, hc'.2⟩)

theorem Following.unsubscribe {c' : ℕ} {p' : String} (h : Following c p a)
    (hh : Harmless c p a (.unsubscribe c' p')) : Following c p (a.step (.unsubscribe c' p')) := by
  have hl : (a.step (.unsubscribe c' p')).ledger c p =
      if c = c' ∧ p = p' then none else a.ledger c p := set_apply a.ledger c' p' none
  rcases hc : a.server.conns c' with _ | conn
  · have hs : (a.step (.unsubscribe c' p')).server = a.server := by
      show a.server.handleUnsubscribe c' p' = a.server
      simp [handleUnsubscribe, hc]
    by_cases hsame : c = c' ∧ p = p'
    · exact .of_none (hs ▸ h.valid) (by rw [hl, if_pos hsame])
    · exact h.idle hs (by rw [hl, if_neg hsame])
  obtain ⟨hm, hr⟩ := handleUnsubscribe_spec (p := p') hc
  have hman : (a.step (.unsubscribe c' p')).server.manager =
      a.server.manager.unsubscribe p' := hm
  have hv := h.valid.unsubscribe p'
  by_cases hsame : c = c' ∧ p = p'
  · exact .of_none (hman ▸ hv) (by rw [hl, if_pos hsame])
  rcases hledger : a.ledger c p with _ | ⟨published, received⟩
  · exact .of_none (hman ▸ hv) (by rw [hl, if_neg hsame, hledger])
  obtain ⟨-, r, hrec, hproj, -⟩ := h.held _ _ hledger
  have hkeep : (a.server.manager.unsubscribe p').projects p = some r.channel := by
    by_cases hp : p = p'
    · subst hp
      have hne := hh (fun he => hsame ⟨he.symm, rfl⟩) rfl (by simp [hc]) (by simp [hrec])
      have hpos := (h.valid.isSome_iff p).1 (by simp [hproj])
      obtain ⟨hcount, hkeep, -⟩ := SubscriptionManager.unsubscribe_spec h.valid p
      rw [hkeep (by omega), hproj]
    · rw [((SubscriptionManager.unsubscribe_spec h.valid p').2.2 p hp).2, hproj]
  refine h.congr (hman ▸ hv) (by rw [hl, if_neg hsame]) ?_ (fun ch hch => ?_) fun ch _ => ?_
  · exact (hr p (.inl c)).trans (if_neg fun hc' => hsame ⟨Sum.inl.inj hc'.1, hc'.2⟩)
  · rw [hman, hkeep, ← hch, hproj]
  · rw [hman, SubscriptionManager.unsubscribe_sent]

theorem poll_spec (s : SocketServer) (c' : ℕ) (p' : String) :
    (s.poll c' p').1.manager = s.manager ∧ (¬ (c = c' ∧ p = p') →
      (s.poll c' p').1.receiver p (.inl c) = s.receiver p (.inl c)) := by
  have hr : ∀ conn r, s.conns c' = some conn → ¬ (c = c' ∧ p = p') →
      (s.setConn c' (some (Function.update conn p' r))).receiver p (.inl c) =
        s.receiver p (.inl c) := by
    intro conn r hc hne
    rw [receiver_setConn hc, if_neg fun hc' => hne ⟨Sum.inl.inj hc'.1, hc'.2⟩]
  unfold poll
  split
  · exact ⟨rfl, fun _ => rfl⟩
  rename_i conn hc
  split
  · exact ⟨rfl, fun _ => rfl⟩
  simp only []
  split
  · exact ⟨rfl, hr conn _ hc⟩
  · exact ⟨rfl, fun _ => rfl⟩
  · exact ⟨rfl, hr conn _ hc⟩
  · exact ⟨rfl, hr conn _ hc⟩

theorem poll_ledger (a : Audited) (c' : ℕ) (p' : String) :
    (a.step (.poll c' p')).ledger c p =
      if c = c' ∧ p = p' then
        (a.ledger c p).map fun x : List Notification × List Notification =>
          (x.1, x.2 ++ (a.server.poll c' p').2.toList)
      else a.ledger c p := by
  show (match (a.server.poll c' p').2 with
    | some n => set a.ledger c' p' ((a.ledger c' p').map
        fun x : List Notification × List Notification => (x.1, x.2 ++ [n]))
    | none => a.ledger) c p = _
  rcases (a.server.poll c' p').2 with _ | n
  · simp
  · refine (set_apply _ _ _ _).trans ?_
    by_cases hsame : c = c' ∧ p = p'
    · simp [hsame]
    · simp [hsame]

/-- What a connection's loop does for its receiver. -/
theorem poll_of_receiver {s : SocketServer} {r : Receiver}
    (hr : s.receiver p (.inl c) = some r) {m : TryRecv Notification} {next : ℕ}
    (ht : (s.manager.channels r.channel).tryRecv channelCapacity r.next = (m, next)) :
    (m = .empty → s.poll c p = (s, none)) ∧
      ∀ n, m = .ok n → (s.poll c p).2 = some n ∧ (s.poll c p).1.manager = s.manager ∧
        (s.poll c p).1.receiver p (.inl c) = some { r with next := next } := by
  obtain ⟨conn, hc, hconn⟩ := Option.bind_eq_some_iff.1 hr
  have hrecv : s.tryRecv r = (m, { r with next := next }) := by
    unfold SocketServer.tryRecv
    rw [ht]
  unfold poll
  rw [hc]
  simp only [hconn, hrecv]
  refine ⟨fun hm => by rw [hm], fun n hm => ?_⟩
  rw [hm]
  refine ⟨rfl, rfl, ?_⟩
  rw [receiver_setConn hc, if_pos ⟨rfl, rfl⟩]

/-- Its loop brings the connection one notification further, if there is one. -/
theorem Following.poll_self (h : Following c p a) (hcap : WithinCapacity c p a)
    {published received : List Notification} (hl : a.ledger c p = some (published, received)) :
    Following c p (a.step (.poll c p)) ∧ (a.step (.poll c p)).ledger c p =
      some (published, published.take (received.length + 1)) := by
  obtain ⟨hn, r, hrec, hproj, hle, heq⟩ := h.held _ _ hl
  rcases hpend : (a.server.manager.channels r.channel).pending r.next with _ | ⟨n, rest⟩
  · have ht := Channel.tryRecv_of_pending_nil channelCapacity hpend
    rw [h.valid.opened p _ hproj] at ht
    have hpoll := (poll_of_receiver hrec ht).1 rfl
    have hs : (a.step (.poll c p)).server = a.server := congrArg Prod.fst hpoll
    have hledger : (a.step (.poll c p)).ledger c p = a.ledger c p := by
      simp [poll_ledger, hpoll]
    refine ⟨h.idle hs hledger, ?_⟩
    rw [hpend, List.append_nil] at heq
    rw [hledger, hl, heq, List.take_of_length_le (Nat.le_succ _)]
  · have hlen : ((a.server.manager.channels r.channel).pending r.next).length ≤
        channelCapacity := by
      have := hcap _ _ hl
      rw [heq, List.length_append] at this
      omega
    obtain ⟨ht, hrest⟩ := Channel.tryRecv_of_pending hpend hlen
    obtain ⟨hout, hman, hnext⟩ := (poll_of_receiver hrec ht).2 n rfl
    have hmanager : (a.step (.poll c p)).server.manager = a.server.manager := hman
    have hreceiver : (a.step (.poll c p)).server.receiver p (.inl c) =
        some { r with next := r.next + 1 } := hnext
    have hledger : (a.step (.poll c p)).ledger c p = some (published, received ++ [n]) := by
      simp [poll_ledger, hout, hl]
    have hbound : r.next + 1 ≤ (a.server.manager.channels r.channel).sent.length := by
      have := congrArg List.length hpend
      simp only [Channel.pending, List.length_drop, List.length_cons] at this
      omega
    refine ⟨⟨hmanager ▸ h.valid, fun published' received' hl' => ?_⟩, ?_⟩
    · rw [hledger] at hl'
      cases hl'
      refine ⟨hn, _, hreceiver, ?_, ?_, ?_⟩
      · rw [hmanager, hproj]
      · rw [hmanager]
        exact hbound
      · rw [hmanager, hrest, heq, hpend, List.append_assoc]
        rfl
    · rw [hledger, heq, hpend, List.take_length_add_append]
      rfl

theorem Following.poll_other {c' : ℕ} {p' : String} (h : Following c p a)
    (hne : ¬ (c = c' ∧ p = p')) : Following c p (a.step (.poll c' p')) := by
  obtain ⟨hm, hr⟩ := poll_spec (c := c) (p := p) a.server c' p'
  have hman : (a.step (.poll c' p')).server.manager = a.server.manager := hm
  exact h.congr (hman ▸ h.valid) (by rw [poll_ledger, if_neg hne]) (hr hne)
    (fun ch hch => by rw [hman, hch]) fun ch _ => by rw [hman]

theorem Following.broadcast (h : Following c p a) (n : Notification) :
    Following c p (a.step (.broadcast n)) := by
  have hv := h.valid.broadcast n
  have hl : (a.step (.broadcast n)).ledger c p =
      if p = n.projectId then (a.ledger c p).map fun x => (x.1 ++ [n], x.2) else a.ledger c p := rfl
  have hman : (a.step (.broadcast n)).server.manager = a.server.manager.broadcast n := rfl
  rcases hledger : a.ledger c p with _ | ⟨published, received⟩
  · exact .of_none hv (by simp [hl, hledger])
  obtain ⟨hn, r, hrec, hproj, hle, heq⟩ := h.held _ _ hledger
  by_cases hp : p = n.projectId
  · have hch := SubscriptionManager.broadcast_channels (hp ▸ hproj)
    rw [hledger, if_pos hp, Option.map_some] at hl
    refine ⟨hv, fun published' received' hl' => ?_⟩
    obtain ⟨rfl, rfl⟩ : published ++ [n] = published' ∧ received = received' := by
      simpa using hl.symm.trans hl'
    refine ⟨?_, r, hrec, ?_, ?_, ?_⟩
    · intro n' hn'
      rcases List.mem_append.1 hn' with hn' | hn'
      · exact hn n' hn'
      · rw [List.mem_singleton.1 hn', hp]
    · rw [hman, SubscriptionManager.broadcast_projects, hproj]
    · rw [hman, hch, Function.update_self]
      exact hle.trans (by simp [Channel.send])
    · rw [hman, hch, Function.update_self, Channel.pending_send hle, heq, List.append_assoc]
  · rw [if_neg hp] at hl
    refine h.congr hv hl rfl (fun ch hch => ?_) fun ch hch => ?_
    · rw [hman, SubscriptionManager.broadcast_projects, hch]
    · rw [hman, h.valid.broadcast_of_ne hch hp]

theorem Following.connect (h : Following c p a) (c' : ℕ) :
    Following c p (a.step (.connect c')) := by
  obtain ⟨hm, hr⟩ := connect_spec a.server c'
  have hman : (a.step (.connect c')).server.manager = a.server.manager := hm
  exact h.congr (hman ▸ h.valid) rfl (hr p _) (fun ch hch => by rw [hman, hch])
    fun ch _ => by rw [hman]

/-- A harmless step within the capacity keeps the connection following. -/
theorem Following.step (h : Following c p a) {act : Action} (hcap : WithinCapacity c p a)
    (hh : Harmless c p a act) : Following c p (a.step act) := by
  cases act with
  | connect c' => exact h.connect c'
  | subscribe c' p' => exact h.subscribe hh
  | unsubscribe c' p' => exact h.unsubscribe hh
  | poll c' p' =>
    by_cases hsame : c = c' ∧ p = p'
    · obtain ⟨rfl, rfl⟩ := hsame
      rcases hl : a.ledger c p with _ | ⟨published, received⟩
      · have hman : (a.step (.poll c p)).server.manager = a.server.manager :=
          (poll_spec (c := c) (p := p) a.server c p).1
        exact .of_none (hman ▸ h.valid) (by simp [poll_ledger, hl])
      · exact (h.poll_self hcap hl).1
    · exact h.poll_other hsame
  | close c' =>
    by_cases hc : c = c'
    · exact .of_none h.valid (by simp [Audited.step, record, hc])
    · refine h.congr h.valid (by simp [Audited.step, record, hc]) ?_ (fun _ hch => hch)
        fun _ _ => rfl
      exact receiver_close.trans (if_neg fun he => hc (Sum.inl.inj he))
  | openStream k p' =>
    rcases hk : a.server.streams k with _ | x
    · obtain ⟨hm, hr⟩ := openStream_spec (p := p') hk
      exact h.subscribed hm rfl ((hr p (.inl c)).trans (if_neg fun he => by cases he.1))
    · refine h.idle ?_ rfl
      show a.server.openStream k p' = a.server
      simp [openStream, hk]
  | pollStream k =>
    obtain ⟨hm, hr⟩ := pollStream_spec a.server k
    have hman : (a.step (.pollStream k)).server.manager = a.server.manager := hm
    exact h.congr (hman ▸ h.valid) rfl (hr p c) (fun ch hch => by rw [hman, hch])
      fun ch _ => by rw [hman]
  | endStream k =>
    exact h.congr h.valid rfl (receiver_setStream_none.trans (if_neg fun he => by cases he))
      (fun _ hch => hch) fun _ _ => rfl
  | broadcast n => exact h.broadcast n

/-- As many tries to receive as notifications are missing bring them all. -/
theorem Following.drain : ∀ (k : ℕ) {a : Audited} {published received : List Notification},
    Following c p a → WithinCapacity c p a → a.ledger c p = some (published, received) →
    published.length - received.length = k → received <+: published →
    (Run.after Audited.step a (List.replicate k (.poll c p))).ledger c p =
      some (published, published)
  | 0, a, published, received, _, _, hl, hk, hpre => by
    rw [List.replicate_zero, Run.after_nil, hl,
      hpre.eq_of_length (le_antisymm hpre.length_le (by omega))]
  | k + 1, a, published, received, h, hcap, hl, hk, hpre => by
    obtain ⟨h', hl'⟩ := h.poll_self hcap hl
    have hcap' : WithinCapacity c p (a.step (.poll c p)) := by
      intro published' received' heq
      rw [hl'] at heq
      cases heq
      have := hcap _ _ hl
      rw [List.length_take]
      omega
    rw [List.replicate_succ, Run.after_cons]
    refine Following.drain k h' hcap' hl' ?_ (List.take_prefix _ _)
    rw [List.length_take]
    omega

theorem Following.delivers (h : Following c p a) (hcap : WithinCapacity c p a) :
    Delivers c p a := by
  intro published received hl
  obtain ⟨hn, r, -, -, -, heq⟩ := h.held _ _ hl
  have hpre : received <+: published := ⟨_, heq.symm⟩
  exact ⟨hpre, fun n hr => hn n (hpre.subset hr), h.drain _ hcap hl rfl hpre⟩

/-- A connection that is never more than the capacity behind receives what is published for a
project it subscribed to, through every run whose steps are harmless to it. -/
theorem always_delivers (c : ℕ) (p : String) (as : List Action)
    (hcap : Run.Always step start (WithinCapacity c p) as)
    (hh : Run.Steps step start (Harmless c p) as) : Run.Always step start (Delivers c p) as := by
  have hsteps : Run.Steps step start (fun a act => WithinCapacity c p a ∧ Harmless c p a act) as :=
    fun pre act hpre => ⟨hcap pre ((List.prefix_append pre [act]).trans hpre), hh pre act hpre⟩
  have hfollow := hsteps.always following_start fun a act h hg => h.step hg.1 hg.2
  exact fun pre hpre => (hfollow pre hpre).delivers (hcap pre hpre)

def sample : Notification := .treePatch "p" (.remove "a")

/-- The other connection subscribed too, so its unsubscription leaves the channel. -/
theorem always_delivers_broadcast : Run.Always step start (Delivers 1 "p")
    [.connect 1, .connect 2, .subscribe 1 "p", .subscribe 2 "p", .broadcast sample,
      .unsubscribe 2 "p", .broadcast sample, .poll 1 "p"] := by
  refine always_delivers 1 "p" _ ?_ ?_
  · simp only [Run.always_cons, Run.always_nil]
    refine ⟨?_, ?_, ?_, ?_, ?_, ?_, ?_, ?_, ?_⟩ <;> rintro published received ⟨⟩ <;> decide
  · have hsubscribe : ∀ r, (Run.after step start [.connect 1, .connect 2]).server.receiver "p"
        (.inl 1) ≠ some r := by
      rintro r ⟨⟩
    have hunsubscribe : (Run.after step start [.connect 1, .connect 2, .subscribe 1 "p",
        .subscribe 2 "p", .broadcast sample]).server.manager.count "p" ≠ 1 := by
      decide
    refine Run.steps_cons.2 ⟨trivial, Run.steps_cons.2 ⟨trivial, Run.steps_cons.2 ⟨?_,
      Run.steps_cons.2 ⟨?_, Run.steps_cons.2 ⟨trivial, Run.steps_cons.2 ⟨?_,
      Run.steps_cons.2 ⟨trivial, Run.steps_cons.2 ⟨trivial, Run.steps_nil⟩⟩⟩⟩⟩⟩⟩⟩
    · exact fun _ _ r hr => absurd hr (hsubscribe r)
    · exact fun hc => absurd hc (by decide)
    · exact fun _ _ _ _ => hunsubscribe

/-- The unsubscription of a connection that never subscribed takes the channel from the one that
did, which then receives nothing. -/
theorem not_delivers_unsubscribe :
    Run.Always step start (WithinCapacity 1 "p")
      [.connect 1, .connect 2, .subscribe 1 "p", .unsubscribe 2 "p", .broadcast sample] ∧
    ¬ Delivers 1 "p" (Run.after step start
      [.connect 1, .connect 2, .subscribe 1 "p", .unsubscribe 2 "p", .broadcast sample]) := by
  constructor
  · simp only [Run.always_cons, Run.always_nil]
    refine ⟨?_, ?_, ?_, ?_, ?_, ?_⟩
    · rintro published received ⟨⟩
    · rintro published received ⟨⟩
    · rintro published received ⟨⟩
    · rintro published received ⟨⟩
      decide
    · rintro published received ⟨⟩
      decide
    · rintro published received ⟨⟩
      decide
  · intro h
    have := (h [sample] [] rfl).2.2
    revert this
    decide

end Audited

end SocketServer

end AmbientFs
