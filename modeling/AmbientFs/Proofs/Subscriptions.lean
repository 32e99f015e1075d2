import AmbientFs.Lib.Run
import AmbientFs.Subscriptions

/-!
# The count of subscribers

The manager's count of a project is that of the receivers held for it as long as no connection
subscribes twice, unsubscribes from what it is not subscribed to, or ends with a subscription,
and no gRPC stream ends. The channel exists exactly when the count is positive in any case.
-/

namespace AmbientFs

open Broadcast

namespace SubscriptionManager

variable {m : SubscriptionManager} {p : String}

/-- Holds of the manager after any operations. -/
structure Valid (m : SubscriptionManager) : Prop where
  made : ∀ q ch, m.projects q = some ch → ch < m.made
  inj : ∀ q q' ch, m.projects q = some ch → m.projects q' = some ch → q = q'
  opened : ∀ q ch, m.projects q = some ch → (m.channels ch).closed = false
  counted : ∀ q, (m.projects q).isSome = (m.counts q).isSome
  positive : ∀ q, m.counts q ≠ some 0

/-- The count of a project, none counting as zero. -/
def count (m : SubscriptionManager) (p : String) : ℕ := (m.counts p).getD 0

theorem count_update {m' : SubscriptionManager} {o : Option ℕ} {q : String}
    (h : m'.counts = Function.update m.counts p o) :
    m'.count q = if q = p then o.getD 0 else m.count q := by
  unfold count
  rw [h]
  by_cases hq : q = p
  · simp [hq]
  · simp [hq]

theorem valid_new : new.Valid :=
  ⟨by simp [new], by simp [new], by simp [new], by simp [new], by simp [new]⟩

theorem Valid.isSome_iff (h : m.Valid) (p : String) :
    (m.projects p).isSome ↔ 0 < m.count p := by
  have hp := h.positive p
  rw [h.counted p]
  unfold count
  rcases hc : m.counts p with _ | n
  · simp
  · simp only [Option.isSome_some, Option.getD_some, true_iff]
    exact Nat.pos_of_ne_zero fun hn => hp (hc.trans (congrArg some hn))

theorem entry_of_some {ch : ℕ} (h : m.projects p = some ch) : m.entry p = (ch, m) := by
  unfold entry
  rw [h]

theorem entry_of_none (h : m.projects p = none) : m.entry p = (m.made, { m with
    projects := Function.update m.projects p (some m.made)
    channels := Function.update m.channels m.made .new
    made := m.made + 1 }) := by
  unfold entry
  rw [h]

theorem subscribe_counts (m : SubscriptionManager) (p : String) :
    (m.subscribe p).1.counts = Function.update m.counts p (some (m.count p + 1)) := by
  unfold subscribe
  rcases hp : m.projects p with _ | ch
  · rw [entry_of_none hp]
    rfl
  · rw [entry_of_some hp]
    rfl

/-- What a subscription changes: the project has a channel, whose end is where the receiver
starts, and one more subscriber. -/
structure Subscribed (m m' : SubscriptionManager) (p : String) (r : Receiver) : Prop where
  projects : m'.projects = Function.update m.projects p (some r.channel)
  counts : m'.counts = Function.update m.counts p (some (m.count p + 1))
  channels : ∀ ch < m.made, m'.channels ch = m.channels ch
  made : m.made ≤ m'.made
  channel : r.channel < m'.made
  same : ∀ ch, m.projects p = some ch → r.channel = ch
  fresh : m.projects p = none → r.channel = m.made
  opened : (m'.channels r.channel).closed = false
  next : r.next = (m'.channels r.channel).sent.length

theorem subscribe_spec (h : m.Valid) (p : String) :
    Subscribed m (m.subscribe p).1 p (m.subscribe p).2 := by
  unfold subscribe
  rcases hp : m.projects p with _ | ch
  · rw [entry_of_none hp]
    refine ⟨rfl, rfl, fun ch hch => ?_, Nat.le_succ _, Nat.lt_succ_self _, ?_, fun _ => rfl, ?_,
      rfl⟩
    · exact Function.update_of_ne hch.ne _ _
    · simp [hp]
    · simp [Channel.new]
  · rw [entry_of_some hp]
    refine ⟨?_, rfl, fun _ _ => rfl, le_rfl, h.made p ch hp, ?_, ?_, h.opened p ch hp, rfl⟩
    · exact (Function.update_eq_self_iff.2 hp.symm).symm
    · exact fun _ hch => Option.some.inj (hp.symm.trans hch)
    · simp [hp]

theorem Subscribed.valid {m' : SubscriptionManager} {r : Receiver} (hs : Subscribed m m' p r)
    (h : m.Valid) : m'.Valid := by
  have hother : ∀ q ch, q ≠ p → m'.projects q = some ch → m.projects q = some ch := by
    intro q ch hq hch
    rwa [hs.projects, Function.update_of_ne hq] at hch
  have hpch : ∀ ch, m'.projects p = some ch → r.channel = ch := by
    intro ch hch
    rw [hs.projects, Function.update_self] at hch
    exact Option.some.inj hch
  have hnew : ∀ q, q ≠ p → m.projects q ≠ some r.channel := by
    intro q hq hch
    rcases hp : m.projects p with _ | ch
    · exact absurd (h.made q _ hch) (by rw [hs.fresh hp]; exact lt_irrefl _)
    · exact hq (h.inj q p ch (hs.same ch hp ▸ hch) hp)
  refine ⟨fun q ch hch => ?_, fun q q' ch hch hch' => ?_, fun q ch hch => ?_, fun q => ?_,
    fun q => ?_⟩
  · by_cases hq : q = p
    · subst hq
      exact hpch ch hch ▸ hs.channel
    · exact (h.made q ch (hother q ch hq hch)).trans_le hs.made
  · by_cases hq : q = p
    · by_cases hq' : q' = p
      · rw [hq, hq']
      · subst hq
        exact absurd (hpch ch hch ▸ hother q' ch hq' hch') (hnew q' hq')
    · by_cases hq' : q' = p
      · subst hq'
        exact absurd (hpch ch hch' ▸ hother q ch hq hch) (hnew q hq)
      · exact h.inj q q' ch (hother q ch hq hch) (hother q' ch hq' hch')
  · by_cases hq : q = p
    · subst hq
      exact hpch ch hch ▸ hs.opened
    · have hch := hother q ch hq hch
      rw [hs.channels ch (h.made q ch hch)]
      exact h.opened q ch hch
  · rw [hs.projects, hs.counts]
    by_cases hq : q = p
    · simp [hq]
    · simp [hq, h.counted q]
  · rw [hs.counts]
    by_cases hq : q = p
    · simp [hq]
    · simpa [hq] using h.positive q

theorem decrement_of_none (hn : m.counts p = none) : m.decrement p = (m, false) := by
  unfold decrement
  rw [hn]

theorem decrement_of_le_one {n : ℕ} (hn : m.counts p = some n) (hle : n ≤ 1) :
    m.decrement p = ({ m with counts := Function.update m.counts p none }, true) := by
  have hzero : (if 0 < n then n - 1 else n) = 0 := by split_ifs <;> omega
  unfold decrement
  rw [hn]
  exact if_pos hzero

theorem decrement_of_one_lt {n : ℕ} (hn : m.counts p = some n) (hlt : 1 < n) : m.decrement p =
    ({ m with counts := Function.update m.counts p (some (n - 1)) }, false) := by
  unfold decrement
  rw [hn]
  simp only [if_pos (show 0 < n by omega)]
  exact if_neg (by omega)

/-- What taking one from a count does, if no count is kept at zero. -/
theorem decrement_spec (hpos : ∀ q, m.counts q ≠ some 0) (p : String) :
    (m.decrement p).1.count p = m.count p - 1 ∧
    (∀ q, q ≠ p → (m.decrement p).1.counts q = m.counts q) ∧
    (∀ q, (m.decrement p).1.counts q ≠ some 0) ∧
    ((m.decrement p).2 = true → m.count p = 1) := by
  rcases hn : m.counts p with _ | n
  · rw [decrement_of_none hn]
    exact ⟨by simp [count, hn], fun _ _ => rfl, hpos, fun h => by cases h⟩
  have hne : n ≠ 0 := fun he => hpos p (he ▸ hn)
  have hother : ∀ o q, q ≠ p → Function.update m.counts p o q = m.counts q :=
    fun o q hq => Function.update_of_ne hq _ _
  by_cases hle : n ≤ 1
  · rw [decrement_of_le_one hn hle]
    refine ⟨by simp [count, hn, hle], hother none, fun q => ?_, fun _ => ?_⟩
    · by_cases hq : q = p
      · simp [hq]
      · simpa [hq] using hpos q
    · rw [count, hn, Option.getD_some]
      omega
  · rw [decrement_of_one_lt hn (by omega)]
    refine ⟨by simp [count, hn], hother _, fun q => ?_, fun h => by cases h⟩
    by_cases hq : q = p
    · simp only [hq, Function.update_self, ne_eq, Option.some.injEq]
      omega
    · simpa [hq] using hpos q

/-- The last subscription that is counted ends, and the channel with it. -/
theorem unsubscribe_of_le_one (h : m.Valid) {n : ℕ} (hn : m.counts p = some n) (hle : n ≤ 1) :
    ∃ ch, m.projects p = some ch ∧ m.unsubscribe p = { m with
      counts := Function.update m.counts p none
      projects := Function.update m.projects p none
      channels := Function.update m.channels ch (m.channels ch).close } := by
  have hch : (m.projects p).isSome := by rw [h.counted p, hn]; rfl
  obtain ⟨ch, hch⟩ := Option.isSome_iff_exists.1 hch
  refine ⟨ch, hch, ?_⟩
  unfold unsubscribe
  rw [decrement_of_le_one hn hle]
  simp only [if_true]
  unfold removeProject
  simp only [hch]

theorem unsubscribe_of_one_lt {n : ℕ} (hn : m.counts p = some n) (hlt : 1 < n) :
    m.unsubscribe p = { m with counts := Function.update m.counts p (some (n - 1)) } := by
  unfold unsubscribe
  rw [decrement_of_one_lt hn hlt]
  rfl

theorem unsubscribe_of_none (hn : m.counts p = none) : m.unsubscribe p = m := by
  unfold unsubscribe
  rw [decrement_of_none hn]
  rfl

theorem Valid.unsubscribe (h : m.Valid) (p : String) : (m.unsubscribe p).Valid := by
  rcases hn : m.counts p with _ | n
  · rwa [unsubscribe_of_none hn]
  by_cases hle : n ≤ 1
  · obtain ⟨ch, hch, heq⟩ := unsubscribe_of_le_one h hn hle
    have hother : ∀ q ch', Function.update m.projects p none q = some ch' →
        q ≠ p ∧ m.projects q = some ch' := by
      intro q ch' hq
      by_cases hqp : q = p
      · simp [hqp] at hq
      · rw [Function.update_of_ne hqp] at hq
        exact ⟨hqp, hq⟩
    rw [heq]
    refine ⟨fun q ch' hq => h.made q ch' (hother q ch' hq).2, fun q q' ch' hq hq' => ?_,
      fun q ch' hq => ?_, fun q => ?_, fun q => ?_⟩
    · exact h.inj q q' ch' (hother q ch' hq).2 (hother q' ch' hq').2
    · obtain ⟨hqp, hq⟩ := hother q ch' hq
      have hne : ch' ≠ ch := fun he => hqp (h.inj q p ch (he ▸ hq) hch)
      simpa [hne] using h.opened q ch' hq
    · by_cases hq : q = p
      · simp [hq]
      · simp [hq, h.counted q]
    · by_cases hq : q = p
      · simp [hq]
      · simpa [hq] using h.positive q
  · rw [unsubscribe_of_one_lt hn (by omega)]
    refine ⟨h.made, h.inj, h.opened, fun q => ?_, fun q => ?_⟩
    · by_cases hq : q = p
      · simp [hq, h.counted p, hn]
      · simp [hq, h.counted q]
    · by_cases hq : q = p
      · simp only [hq, Function.update_self, ne_eq, Option.some.injEq]
        omega
      · simpa [hq] using h.positive q

/-- What an unsubscription does to the count and the channel. -/
theorem unsubscribe_spec (h : m.Valid) (p : String) :
    ((m.unsubscribe p).count p = m.count p - 1) ∧
    ((m.unsubscribe p).count p ≠ 0 → (m.unsubscribe p).projects p = m.projects p) ∧
    ∀ q, q ≠ p → (m.unsubscribe p).counts q = m.counts q ∧
      (m.unsubscribe p).projects q = m.projects q := by
  rcases hn : m.counts p with _ | n
  · rw [unsubscribe_of_none hn]
    simp [count, hn]
  by_cases hle : n ≤ 1
  · obtain ⟨ch, -, heq⟩ := unsubscribe_of_le_one h hn hle
    rw [heq]
    refine ⟨?_, ?_, fun q hq => ?_⟩
    · simp [count, hn]
      omega
    · simp [count]
    · simp [hq]
  · rw [unsubscribe_of_one_lt hn (by omega)]
    refine ⟨?_, fun _ => rfl, fun q hq => ?_⟩
    · simp [count, hn]
    · simp [hq]

theorem removeProject_counts (m : SubscriptionManager) (p : String) :
    (m.removeProject p).counts = m.counts := by
  unfold removeProject
  split <;> rfl

theorem removeProject_sent (m : SubscriptionManager) (p : String) (ch : ℕ) :
    ((m.removeProject p).channels ch).sent = (m.channels ch).sent := by
  unfold removeProject
  rcases m.projects p with _ | ch'
  · rfl
  · by_cases hch : ch = ch'
    · simp [hch, Channel.close]
    · simp [hch]

theorem decrement_channels (m : SubscriptionManager) (p : String) :
    (m.decrement p).1.channels = m.channels := by
  unfold decrement
  rcases m.counts p with _ | n
  · rfl
  · simp only []
    by_cases hz : (if 0 < n then n - 1 else n) = 0
    · rw [if_pos hz]
    · rw [if_neg hz]

theorem unsubscribe_sent (m : SubscriptionManager) (p : String) (ch : ℕ) :
    ((m.unsubscribe p).channels ch).sent = (m.channels ch).sent := by
  unfold unsubscribe
  simp only []
  split_ifs
  · rw [removeProject_sent, decrement_channels]
  · rw [decrement_channels]

@[simp] theorem broadcast_projects (n : Notification) :
    (m.broadcast n).projects = m.projects := by
  unfold broadcast
  split <;> rfl

@[simp] theorem broadcast_counts (n : Notification) : (m.broadcast n).counts = m.counts := by
  unfold broadcast
  split <;> rfl

theorem broadcast_channels {n : Notification} {ch : ℕ} (h : m.projects n.projectId = some ch) :
    (m.broadcast n).channels = Function.update m.channels ch ((m.channels ch).send n) := by
  unfold broadcast
  rw [h]

/-- The channels of other projects stay. -/
theorem Valid.broadcast_of_ne (h : m.Valid) {n : Notification} {ch : ℕ}
    (hp : m.projects p = some ch) (hne : p ≠ n.projectId) :
    (m.broadcast n).channels ch = m.channels ch := by
  rcases hn : m.projects n.projectId with _ | ch'
  · unfold broadcast
    rw [hn]
  · have hch : ch ≠ ch' := by
      rintro rfl
      exact hne (h.inj p _ ch hp hn)
    rw [broadcast_channels hn, Function.update_of_ne hch]

theorem Valid.broadcast (h : m.Valid) (n : Notification) : (m.broadcast n).Valid := by
  refine ⟨?_, ?_, fun q ch hq => ?_, ?_, ?_⟩
  · unfold SubscriptionManager.broadcast
    split <;> exact h.made
  · simpa using h.inj
  · rw [broadcast_projects] at hq
    by_cases hqn : q = n.projectId
    · subst hqn
      rw [broadcast_channels hq, Function.update_self]
      exact h.opened _ ch hq
    · rw [h.broadcast_of_ne hq hqn]
      exact h.opened q ch hq
  · simpa using h.counted
  · simpa using h.positive

end SubscriptionManager

namespace SocketServer

variable {s : SocketServer} {p : String}

/-- The receiver that a connection or a stream holds for a project. -/
def receiver (s : SocketServer) (p : String) : ℕ ⊕ ℕ → Option Receiver
  | .inl c => (s.conns c).bind fun conn => conn p
  | .inr k => (s.streams k).bind fun x => if x.1 = p then some x.2 else none

/-- The connections and streams that hold a receiver for a project. -/
def holders (s : SocketServer) (p : String) : Set (ℕ ⊕ ℕ) := {h | (s.receiver p h).isSome}

/-- The count of a project is that of the receivers held for it, these read the project's channel,
and the channel exists exactly if the count is positive. -/
def Accounted (s : SocketServer) : Prop :=
  ∀ p, (s.manager.count p : ℕ∞) = (s.holders p).encard ∧
    (∀ h r, s.receiver p h = some r → s.manager.projects p = some r.channel) ∧
    ((s.manager.projects p).isSome ↔ 0 < s.manager.count p)

/-- The step keeps the accounts: it neither subscribes twice, nor unsubscribes what is not
subscribed to, nor ends a subscription by closing a connection or ending a stream. -/
def Fair (s : SocketServer) : Action → Prop
  | .subscribe c p => ∀ conn, s.conns c = some conn → conn p = none
  | .unsubscribe c p => ∀ conn, s.conns c = some conn →
    (conn p).isSome ∨ s.manager.counts p = none
  | .close c => ∀ conn, s.conns c = some conn → ∀ p, conn p = none
  | .endStream k => s.streams k = none
  | .pollStream k => ∀ p r, s.streams k = some (p, r) →
    ((s.manager.channels r.channel).pending r.next).length ≤ channelCapacity
  | _ => True

section Receivers

variable {c k : ℕ} {conn : ConnectionState} {q : String} {h : ℕ ⊕ ℕ}

theorem receiver_setConn (hc : s.conns c = some conn) (r : Option Receiver) :
    (s.setConn c (some (Function.update conn p r))).receiver q h =
      if h = .inl c ∧ q = p then r else s.receiver q h := by
  rcases h with c' | k
  · by_cases hcc : c' = c
    · subst hcc
      by_cases hq : q = p
      · simp [receiver, setConn, hq]
      · simp [receiver, setConn, hq, hc]
    · simp [receiver, setConn, hcc]
  · simp [receiver, setConn]

theorem receiver_close :
    (s.close c).receiver q h = if h = .inl c then none else s.receiver q h := by
  rcases h with c' | k
  · by_cases hcc : c' = c
    · simp [receiver, close, setConn, hcc]
    · simp [receiver, close, setConn, hcc]
  · simp [receiver, close, setConn]

theorem receiver_setStream_some (hk : ∀ q', q' ≠ p → s.receiver q' (.inr k) = none)
    (r : Receiver) : (s.setStream k (some (p, r))).receiver q h =
      if h = .inr k ∧ q = p then some r else s.receiver q h := by
  rcases h with c | k'
  · simp [receiver, setStream]
  · by_cases hkk : k' = k
    · subst hkk
      by_cases hq : q = p
      · simp [receiver, setStream, hq]
      · rw [if_neg fun hc => hq hc.2, hk q hq]
        simp [receiver, setStream, Ne.symm hq]
    · simp [receiver, setStream, hkk]

theorem receiver_setStream_none :
    (s.setStream k none).receiver q h = if h = .inr k then none else s.receiver q h := by
  rcases h with c | k'
  · simp [receiver, setStream]
  · by_cases hkk : k' = k
    · simp [receiver, setStream, hkk]
    · simp [receiver, setStream, hkk]

theorem receiver_of_conn (hc : s.conns c = some conn) : s.receiver p (.inl c) = conn p := by
  simp [receiver, hc]

/-! What each request does to the manager and the receivers. -/

theorem handleSubscribe_spec (hc : s.conns c = some conn) :
    (s.handleSubscribe c p).manager = (s.manager.subscribe p).1 ∧
      ∀ q h, (s.handleSubscribe c p).receiver q h =
        if h = .inl c ∧ q = p then some (s.manager.subscribe p).2 else s.receiver q h := by
  unfold handleSubscribe
  rw [hc]
  refine ⟨rfl, fun q h => ?_⟩
  exact receiver_setConn (s := { s with manager := (s.manager.subscribe p).1 }) hc _

theorem handleUnsubscribe_spec (hc : s.conns c = some conn) :
    (s.handleUnsubscribe c p).manager = s.manager.unsubscribe p ∧
      ∀ q h, (s.handleUnsubscribe c p).receiver q h =
        if h = .inl c ∧ q = p then none else s.receiver q h := by
  unfold handleUnsubscribe
  rw [hc]
  refine ⟨rfl, fun q h => ?_⟩
  exact receiver_setConn (s := { s with manager := s.manager.unsubscribe p }) hc _

theorem openStream_spec (hk : s.streams k = none) :
    (s.openStream k p).manager = (s.manager.subscribe p).1 ∧
      ∀ q h, (s.openStream k p).receiver q h =
        if h = .inr k ∧ q = p then some (s.manager.subscribe p).2 else s.receiver q h := by
  unfold openStream
  rw [hk]
  refine ⟨rfl, fun q h => ?_⟩
  exact receiver_setStream_some (s := { s with manager := (s.manager.subscribe p).1 })
    (fun q' _ => by simp [receiver, hk]) _

theorem connect_spec (s : SocketServer) (c : ℕ) :
    (s.connect c).manager = s.manager ∧ ∀ q h, (s.connect c).receiver q h = s.receiver q h := by
  unfold connect
  split_ifs with hc
  · refine ⟨rfl, fun q h => ?_⟩
    rcases h with c' | k
    · by_cases hcc : c' = c
      · simp [receiver, setConn, hcc, Option.isNone_iff_eq_none.1 hc]
      · simp [receiver, setConn, hcc]
    · rfl
  · exact ⟨rfl, fun _ _ => rfl⟩

theorem pollStream_spec (s : SocketServer) (k : ℕ) : (s.pollStream k).manager = s.manager ∧
    ∀ q c, (s.pollStream k).receiver q (.inl c) = s.receiver q (.inl c) := by
  unfold pollStream
  split
  · exact ⟨rfl, fun _ _ => rfl⟩
  · simp only []
    split <;> exact ⟨rfl, fun _ _ => rfl⟩

end Receivers

/-- The part of the accounts about one project's receivers. -/
def AccountedAt (s : SocketServer) (p : String) : Prop :=
  (s.manager.count p : ℕ∞) = (s.holders p).encard ∧
    ∀ h r, s.receiver p h = some r → s.manager.projects p = some r.channel

theorem accounted_of (hv : s.manager.Valid) (h : ∀ p, s.AccountedAt p) : s.Accounted :=
  fun p => ⟨(h p).1, (h p).2, hv.isSome_iff p⟩

section At

variable {s' : SocketServer} {h₀ : ℕ ⊕ ℕ}

/-- Where no receiver is taken or dropped the accounts stay. -/
theorem AccountedAt.congr (ha : s.AccountedAt p)
    (hr : ∀ h, (s'.receiver p h).map Receiver.channel = (s.receiver p h).map Receiver.channel)
    (hc : s'.manager.counts p = s.manager.counts p)
    (hp : s'.manager.projects p = s.manager.projects p) : s'.AccountedAt p := by
  have hholders : s'.holders p = s.holders p := by
    ext h
    have := congrArg Option.isSome (hr h)
    simpa [holders] using this
  refine ⟨?_, fun h r hrec => ?_⟩
  · rw [hholders, ← ha.1, SubscriptionManager.count, hc]
    rfl
  · have := hr h
    rw [hrec, Option.map_some, eq_comm, Option.map_eq_some_iff] at this
    obtain ⟨r', hr', hch⟩ := this
    rw [hp, ha.2 h r' hr', hch]

theorem AccountedAt.taken {r : Receiver} (ha : s.AccountedAt p)
    (hr : ∀ h, s'.receiver p h = if h = h₀ then some r else s.receiver p h)
    (hnone : s.receiver p h₀ = none) (hc : s'.manager.count p = s.manager.count p + 1)
    (hp : s'.manager.projects p = some r.channel)
    (hsame : ∀ ch, s.manager.projects p = some ch → r.channel = ch) : s'.AccountedAt p := by
  have hholders : s'.holders p = insert h₀ (s.holders p) := by
    ext h
    simp only [holders, hr, Set.mem_ofPred_eq, Set.mem_insert_iff]
    split_ifs with hh <;> simp [hh]
  have hnot : h₀ ∉ s.holders p := by simp [holders, hnone]
  refine ⟨?_, fun h r' hrec => ?_⟩
  · rw [hholders, Set.encard_insert_of_notMem hnot, ← ha.1, hc]
    push_cast
    rfl
  · rw [hr] at hrec
    split_ifs at hrec with hh
    · cases hrec
      exact hp
    · rw [hp, hsame _ (ha.2 h r' hrec)]

theorem holders_dropped (hr : ∀ h, s'.receiver p h = if h = h₀ then none else s.receiver p h) :
    s'.holders p = s.holders p \ {h₀} := by
  ext h
  simp only [holders, hr, Set.mem_ofPred_eq, Set.mem_sdiff, Set.mem_singleton_iff]
  split_ifs with hh <;> simp [hh]

theorem AccountedAt.dropped (ha : s.AccountedAt p)
    (hr : ∀ h, s'.receiver p h = if h = h₀ then none else s.receiver p h)
    (hsome : (s.receiver p h₀).isSome) (hc : s'.manager.count p + 1 = s.manager.count p)
    (hp : s'.manager.count p ≠ 0 → s'.manager.projects p = s.manager.projects p) :
    s'.AccountedAt p := by
  have hholders := holders_dropped hr
  have hmem : h₀ ∈ s.holders p := hsome
  have hcard : (s'.manager.count p : ℕ∞) = (s'.holders p).encard := by
    have := Set.encard_sdiff_singleton_add_one hmem
    rw [← hholders, ← ha.1, ← hc] at this
    push_cast at this
    exact (WithTop.add_right_cancel ENat.one_ne_top this).symm
  refine ⟨hcard, fun h r hrec => ?_⟩
  have hne : s'.manager.count p ≠ 0 := by
    intro hz
    rw [hz, Nat.cast_zero, eq_comm, Set.encard_eq_zero] at hcard
    have : h ∈ s'.holders p := by simp [holders, hrec]
    rw [hcard] at this
    exact this
  rw [hr] at hrec
  split_ifs at hrec
  rw [hp hne, ha.2 h r hrec]

/-- A holder more or less without a change of the count breaks the accounts. -/
theorem AccountedAt.not_of_count_ne (ha : s.AccountedAt p) (hh : s'.holders p = s.holders p)
    (hc : s'.manager.count p ≠ s.manager.count p) : ¬ s'.AccountedAt p := by
  intro ha'
  have := ha'.1
  rw [hh, ← ha.1] at this
  exact hc (Nat.cast_injective this)

theorem AccountedAt.not_of_dropped (ha : s.AccountedAt p)
    (hr : ∀ h, s'.receiver p h = if h = h₀ then none else s.receiver p h)
    (hsome : (s.receiver p h₀).isSome) (hc : s'.manager.count p = s.manager.count p) :
    ¬ s'.AccountedAt p := by
  intro ha'
  have hholders := holders_dropped hr
  have hmem : h₀ ∈ s.holders p := hsome
  have := Set.encard_sdiff_singleton_add_one hmem
  rw [← hholders, ← ha.1, ← ha'.1, hc] at this
  have : s.manager.count p + 1 = s.manager.count p := by exact_mod_cast this
  omega

end At

/-- Kept by fair steps. -/
structure Inv (s : SocketServer) : Prop where
  valid : s.manager.Valid
  at_ : ∀ p, s.AccountedAt p

section Step

variable {c k : ℕ} {conn : ConnectionState}

/-- A subscription for one who does not hold a receiver. -/
theorem Inv.taken {s' : SocketServer} {h₀ : ℕ ⊕ ℕ} (h : s.Inv) (hnone : s.receiver p h₀ = none)
    (hm : s'.manager = (s.manager.subscribe p).1)
    (hr : ∀ q h, s'.receiver q h =
      if h = h₀ ∧ q = p then some (s.manager.subscribe p).2 else s.receiver q h) : s'.Inv := by
  have hs := SubscriptionManager.subscribe_spec h.valid p
  refine ⟨hm ▸ hs.valid h.valid, fun q => ?_⟩
  by_cases hq : q = p
  · subst hq
    refine (h.at_ q).taken (fun h => ?_) hnone ?_ ?_ hs.same
    · simpa using hr q h
    · rw [hm, SubscriptionManager.count_update hs.counts, if_pos rfl]
      rfl
    · rw [hm, hs.projects, Function.update_self]
  · refine (h.at_ q).congr (fun h => ?_) ?_ ?_
    · rw [hr, if_neg fun hc => hq hc.2]
    · rw [hm, hs.counts, Function.update_of_ne hq]
    · rw [hm, hs.projects, Function.update_of_ne hq]

/-- Nobody takes or drops a receiver. -/
theorem Inv.congr {s' : SocketServer} (h : s.Inv) (hv : s'.manager.Valid)
    (hc : s'.manager.counts = s.manager.counts) (hp : s'.manager.projects = s.manager.projects)
    (hr : ∀ q h, (s'.receiver q h).map Receiver.channel = (s.receiver q h).map Receiver.channel) :
    s'.Inv :=
  ⟨hv, fun q => (h.at_ q).congr (hr q) (by rw [hc]) (by rw [hp])⟩

theorem Inv.count_ne_zero {h₀ : ℕ ⊕ ℕ} (h : s.Inv) (hsome : (s.receiver p h₀).isSome) :
    s.manager.count p ≠ 0 := by
  intro hz
  have hcard := (h.at_ p).1
  rw [hz, Nat.cast_zero, eq_comm, Set.encard_eq_zero] at hcard
  have hmem : h₀ ∈ s.holders p := hsome
  rw [hcard] at hmem
  exact hmem

/-- Under the invariant the channel of a held receiver is open. -/
theorem Inv.opened {h₀ : ℕ ⊕ ℕ} {r : Receiver} (h : s.Inv) (hr : s.receiver p h₀ = some r) :
    (s.manager.channels r.channel).closed = false :=
  h.valid.opened p _ ((h.at_ p).2 h₀ r hr)

/-- A connection's loop leaves the manager, and the receiver its channel. -/
theorem Inv.poll (h : s.Inv) (c : ℕ) (p : String) : (s.poll c p).1.Inv := by
  unfold SocketServer.poll
  rcases hc : s.conns c with _ | conn
  · exact h
  rcases hr : conn p with _ | r
  · simpa only [hr] using h
  have hrec := receiver_of_conn (p := p) hc
  rw [hr] at hrec
  have hmoved : (s.setConn c (some (Function.update conn p (some (s.tryRecv r).2)))).Inv := by
    refine h.congr h.valid rfl rfl fun q h' => ?_
    rw [receiver_setConn hc]
    split_ifs with hh
    · rw [hh.1, hh.2, hrec]
      rfl
    · rfl
  simp only [hr]
  rcases ha : (s.tryRecv r).1 with n | _ | _ | _
  · exact hmoved
  · exact h
  · exact hmoved
  · have := Channel.tryRecv_eq_closed ha
    rw [h.opened hrec] at this
    cases this

/-- A stream's loop keeps its receiver as long as it does not lag. -/
theorem Inv.pollStream (h : s.Inv) (hf : s.Fair (.pollStream k)) : (s.pollStream k).Inv := by
  unfold SocketServer.pollStream
  rcases hk : s.streams k with _ | ⟨p, r⟩
  · exact h
  have hrec : s.receiver p (.inr k) = some r := by simp [receiver, hk]
  simp only []
  rcases ha : (s.tryRecv r).1 with n | _ | _ | _
  · refine h.congr h.valid rfl rfl fun q h' => ?_
    rw [receiver_setStream_some fun q' hq' => by simp [receiver, hk, Ne.symm hq']]
    split_ifs with hh
    · rw [hh.1, hh.2, hrec]
      rfl
    · rfl
  · exact h
  · exact absurd (hf p r hk) (not_le.2 (Channel.tryRecv_eq_lagged ha))
  · have := Channel.tryRecv_eq_closed ha
    rw [h.opened hrec] at this
    cases this

theorem Inv.unsubscribe (h : s.Inv) (hf : s.Fair (.unsubscribe c p)) :
    (s.handleUnsubscribe c p).Inv := by
  rcases hc : s.conns c with _ | conn
  · simpa [handleUnsubscribe, hc] using h
  obtain ⟨hm, hr⟩ := handleUnsubscribe_spec (p := p) hc
  obtain ⟨hcount, hproj, hother⟩ := SubscriptionManager.unsubscribe_spec h.valid p
  have hrec := receiver_of_conn (p := p) hc
  by_cases hheld : (conn p).isSome
  · refine ⟨hm ▸ h.valid.unsubscribe p, fun q => ?_⟩
    by_cases hq : q = p
    · subst hq
      have hsome : (s.receiver q (.inl c)).isSome := by rwa [hrec]
      have hpos := h.count_ne_zero hsome
      refine (h.at_ q).dropped (fun h => ?_) hsome ?_ ?_
      · simpa using hr q h
      · rw [hm, hcount]
        omega
      · rw [hm]
        exact hproj
    · refine (h.at_ q).congr (fun h => ?_) ?_ ?_
      · rw [hr, if_neg fun hc => hq hc.2]
      · rw [hm, (hother q hq).1]
      · rw [hm, (hother q hq).2]
  · have hnone := (hf conn hc).resolve_left hheld
    rw [SubscriptionManager.unsubscribe_of_none hnone] at hm
    refine h.congr (hm ▸ h.valid) (by rw [hm]) (by rw [hm]) fun q h' => ?_
    rw [hr]
    split_ifs with hh
    · rw [hh.1, hh.2, hrec, Option.not_isSome_iff_eq_none.1 hheld]
    · rfl

/-- The step of a fair request keeps the invariant. -/
theorem Inv.step (h : s.Inv) {a : Action} (hf : s.Fair a) : (s.step a).Inv := by
  cases a with
  | connect c =>
    obtain ⟨hm, hr⟩ := connect_spec s c
    exact h.congr (hm ▸ h.valid) (by rw [← hm]; rfl) (by rw [← hm]; rfl) fun q h' =>
      congrArg _ (hr q h')
  | subscribe c p =>
    rcases hc : s.conns c with _ | conn
    · simpa [SocketServer.step, handleSubscribe, hc] using h
    · obtain ⟨hm, hr⟩ := handleSubscribe_spec (p := p) hc
      exact h.taken (by rw [receiver_of_conn hc, hf conn hc]) hm hr
  | unsubscribe c p => exact h.unsubscribe hf
  | poll c p => exact h.poll c p
  | close c =>
    refine h.congr h.valid rfl rfl fun q h' => ?_
    rw [SocketServer.step, receiver_close]
    split_ifs with hh
    · rcases hc : s.conns c with _ | conn
      · simp [hh, receiver, hc]
      · simp [hh, receiver, hc, hf conn hc q]
    · rfl
  | openStream k p =>
    rcases hk : s.streams k with _ | x
    · obtain ⟨hm, hr⟩ := openStream_spec (p := p) hk
      exact h.taken (by simp [receiver, hk]) hm hr
    · simpa [SocketServer.step, openStream, hk] using h
  | pollStream k => exact h.pollStream hf
  | endStream k =>
    refine h.congr h.valid rfl rfl fun q h' => ?_
    rw [SocketServer.step, endStream, receiver_setStream_none]
    split_ifs with hh
    · rw [hh, receiver, show s.streams k = none from hf]
      rfl
    · rfl
  | broadcast n =>
    exact h.congr (h.valid.broadcast n) (SubscriptionManager.broadcast_counts n)
      (SubscriptionManager.broadcast_projects n) fun _ _ => rfl

/-- A step that is not fair breaks the accounts. -/
theorem Inv.not_accounted (h : s.Inv) {a : Action} (hf : ¬ s.Fair a) : ¬ (s.step a).Accounted := by
  intro ha
  have hat : ∀ q, (s.step a).AccountedAt q := fun q => ⟨(ha q).1, (ha q).2.1⟩
  cases a with
  | subscribe c p =>
    simp only [Fair, not_forall] at hf
    obtain ⟨conn, hc, hheld⟩ := hf
    obtain ⟨hm, hr⟩ := handleSubscribe_spec (p := p) hc
    have hrec := receiver_of_conn (p := p) hc
    have hs := SubscriptionManager.subscribe_spec h.valid p
    refine (h.at_ p).not_of_count_ne ?_ ?_ (hat p)
    · ext h'
      show ((s.handleSubscribe c p).receiver p h').isSome ↔ (s.receiver p h').isSome
      rw [hr]
      split_ifs with hh
      · simpa [hh.1, hrec] using Option.isSome_iff_ne_none.2 hheld
      · rfl
    · show (s.handleSubscribe c p).manager.count p ≠ _
      rw [hm, SubscriptionManager.count_update hs.counts, if_pos rfl]
      simp
  | unsubscribe c p =>
    simp only [Fair, not_forall, not_or] at hf
    obtain ⟨conn, hc, hheld, hcounted⟩ := hf
    obtain ⟨hm, hr⟩ := handleUnsubscribe_spec (p := p) hc
    obtain ⟨hcount, -, -⟩ := SubscriptionManager.unsubscribe_spec h.valid p
    have hrec := receiver_of_conn (p := p) hc
    refine (h.at_ p).not_of_count_ne ?_ ?_ (hat p)
    · ext h'
      show ((s.handleUnsubscribe c p).receiver p h').isSome ↔ (s.receiver p h').isSome
      rw [hr]
      split_ifs with hh
      · simpa [hh.1, hrec] using hheld
      · rfl
    · show (s.handleUnsubscribe c p).manager.count p ≠ _
      have hpos := (h.valid.isSome_iff p).1 (by
        rw [h.valid.counted]
        exact Option.isSome_iff_ne_none.2 hcounted)
      rw [hm, hcount]
      omega
  | close c =>
    simp only [Fair, not_forall] at hf
    obtain ⟨conn, hc, p, hheld⟩ := hf
    have hrec := receiver_of_conn (p := p) hc
    refine (h.at_ p).not_of_dropped (fun h' => receiver_close) ?_ rfl (hat p)
    rw [hrec]
    exact Option.isSome_iff_ne_none.2 hheld
  | pollStream k =>
    simp only [Fair, not_forall, not_le] at hf
    obtain ⟨p, r, hk, hlag⟩ := hf
    obtain ⟨missed, ha⟩ := Channel.tryRecv_of_lagging hlag
    have heq : s.step (.pollStream k) = s.setStream k none := by
      show s.pollStream k = _
      unfold SocketServer.pollStream
      rw [hk]
      simp only [show (s.tryRecv r).1 = .lagged missed from ha]
    rw [heq] at hat
    refine (h.at_ p).not_of_dropped (fun h' => receiver_setStream_none) ?_ rfl (hat p)
    simp [receiver, hk]
  | endStream k =>
    obtain ⟨⟨p, r⟩, hk⟩ := Option.ne_none_iff_exists'.1 hf
    refine (h.at_ p).not_of_dropped (fun h' => receiver_setStream_none) ?_ rfl (hat p)
    simp [receiver, hk]
  | connect c => exact hf trivial
  | poll c p => exact hf trivial
  | openStream k p => exact hf trivial
  | broadcast n => exact hf trivial

theorem inv_new : new.Inv := by
  refine ⟨SubscriptionManager.valid_new, fun p => ⟨?_, fun h r hr => ?_⟩⟩
  · have hempty : new.holders p = ∅ := by
      ext h
      rcases h with c | k <;> simp [holders, receiver, new]
    rw [hempty, Set.encard_empty]
    rfl
  · rcases h with c | k <;> simp [receiver, new] at hr

/-- In every state of a run from the start the accounts hold, exactly if all steps are fair. -/
theorem always_accounted_iff (as : List Action) :
    Run.Always step new Accounted as ↔ Run.Steps step new Fair as :=
  Run.always_iff_steps inv_new (fun _ h => accounted_of h.valid h.at_) (fun _ _ h hf => h.step hf)
    fun _ _ h hf => h.not_accounted hf

/-- A connection that closes without unsubscribing leaves the count and the channel. -/
theorem not_accounted_close : ¬ Run.Always step new Accounted
    [.connect 1, .subscribe 1 "p", .close 1] := by
  intro h
  obtain ⟨hcount, -⟩ := h _ List.prefix_rfl "p"
  have hone : (Run.after step new [.connect 1, .subscribe 1 "p", .close 1]).manager.count "p" = 1 :=
    rfl
  have hempty : (Run.after step new [.connect 1, .subscribe 1 "p", .close 1]).holders "p" = ∅ := by
    ext h
    simp only [holders, Run.after, List.foldl, SocketServer.step, receiver_close,
      Set.mem_ofPred_eq, Set.mem_empty_iff_false, iff_false]
    rcases h with c | k
    · by_cases hc : c = 1
      · simp [hc]
      · simp [hc, receiver, handleSubscribe, connect, setConn, new]
    · simp [receiver, handleSubscribe, connect, setConn, new]
  rw [hone, hempty, Set.encard_empty] at hcount
  simp at hcount

end Step

end SocketServer

end AmbientFs
