import AmbientFs.Proofs.GatewayTable

/-!
# What forwarding an event changes

A connection of which the queue is full or closed is passed over, and the others are sent the event
as if it were not there.
-/

namespace AmbientFs

open Mpsc

namespace GatewayServer

/-- The connection is of another machine, and its queue takes an event. -/
def Takes (channels : Channels) (sender : String) (c : DaemonConnection) : Prop :=
  c.machineId ≠ sender ∧ (channels c.tx).Accepts

instance decidableTakes (channels : Channels) (sender : String) (c : DaemonConnection) :
    Decidable (Takes channels sender c) :=
  inferInstanceAs (Decidable (_ ∧ _))

variable {sender : String} {event : FileEventMessage} {channels : Channels}

theorem sendToOthers_cons {c : DaemonConnection} {conns : List DaemonConnection} :
    sendToOthers sender event (c :: conns) channels =
      if Takes channels sender c then
        let r := sendToOthers sender event conns
          (Function.update channels c.tx ((channels c.tx).append event))
        (r.1, r.2 + 1)
      else sendToOthers sender event conns channels := by
  rw [sendToOthers]
  by_cases hm : c.machineId = sender
  · rw [if_pos hm, if_neg fun h => h.1 hm]
  · rw [if_neg hm]
    by_cases ha : (channels c.tx).Accepts
    · rw [if_pos ⟨hm, ha⟩, Channel.trySend_of_accepts ha]
    · obtain ⟨e, he⟩ := Channel.trySend_of_not_accepts ha event
      rw [if_neg fun h => ha h.2, he]

/-- Each connection that takes the event is sent it on its own channel, and counted. -/
theorem sendToOthers_spec (sender : String) (event : FileEventMessage) :
    ∀ (conns : List DaemonConnection) (channels : Channels), (conns.map (·.tx)).Nodup →
      (∀ c ∈ conns, Takes channels sender c →
        (sendToOthers sender event conns channels).1 c.tx = (channels c.tx).append event) ∧
      (∀ ch, (∀ c ∈ conns, Takes channels sender c → c.tx ≠ ch) →
        (sendToOthers sender event conns channels).1 ch = channels ch) ∧
      (sendToOthers sender event conns channels).2 =
        (conns.filter fun c => Takes channels sender c).length
  | [], _, _ => ⟨by simp, fun _ _ => rfl, rfl⟩
  | c :: conns, channels, h => by
    obtain ⟨hc, hrest⟩ := List.nodup_cons.1 h
    have hne : ∀ c' ∈ conns, c'.tx ≠ c.tx := fun c' hc' he => hc (List.mem_map.2 ⟨c', hc', he⟩)
    rw [sendToOthers_cons]
    by_cases ht : Takes channels sender c
    · rw [if_pos ht]
      have hsame : ∀ c' ∈ conns,
          Function.update channels c.tx ((channels c.tx).append event) c'.tx = channels c'.tx :=
        fun c' hc' => Function.update_of_ne (hne c' hc') ..
      have htakes : ∀ c' ∈ conns,
          Takes (Function.update channels c.tx ((channels c.tx).append event)) sender c' ↔
            Takes channels sender c' := fun c' hc' => by rw [Takes, Takes, hsame c' hc']
      obtain ⟨hsent, hkept, hcount⟩ := sendToOthers_spec sender event conns
        (Function.update channels c.tx ((channels c.tx).append event)) hrest
      refine ⟨?_, ?_, ?_⟩
      · intro c' hc' ht'
        rcases List.mem_cons.1 hc' with rfl | hc'
        · exact (hkept c'.tx fun c'' hc'' _ => hne c'' hc'').trans (Function.update_self ..)
        · rw [← hsame c' hc']
          exact hsent c' hc' ((htakes c' hc').2 ht')
      · intro ch hch
        have hfirst : ch ≠ c.tx := (hch c List.mem_cons_self ht).symm
        refine (hkept ch fun c' hc' ht' => ?_).trans (Function.update_of_ne hfirst ..)
        exact hch c' (List.mem_cons_of_mem c hc') ((htakes c' hc').1 ht')
      · have hfilter : (conns.filter fun c' =>
            Takes (Function.update channels c.tx ((channels c.tx).append event)) sender c') =
              conns.filter fun c' => Takes channels sender c' :=
          List.filter_congr fun c' hc' => decide_eq_decide.2 (htakes c' hc')
        rw [List.filter_cons_of_pos (by simpa using ht), List.length_cons, ← hfilter]
        exact congrArg (· + 1) hcount
    · rw [if_neg ht, List.filter_cons_of_neg (by simpa using ht)]
      obtain ⟨hsent, hkept, hcount⟩ := sendToOthers_spec sender event conns channels hrest
      refine ⟨?_, ?_, hcount⟩
      · intro c' hc' ht'
        rcases List.mem_cons.1 hc' with rfl | hc'
        · exact absurd ht' ht
        · exact hsent c' hc' ht'
      · exact fun ch hch => hkept ch fun c' hc' => hch c' (List.mem_cons_of_mem c hc')

/-- What forwarding an event of a machine changes, and what it returns. -/
structure ForwardsExactly (g : GatewayServer) (channels : Channels) (p sender : String)
    (event : FileEventMessage) (now : ℕ) (r : GatewayServer × Channels × ℕ) : Prop where
  appended : ∀ c ∈ g.connections p, Takes channels sender c →
    r.2.1 c.tx = (channels c.tx).append event
  others : ∀ ch, (∀ c ∈ g.connections p, Takes channels sender c → c.tx ≠ ch) →
    r.2.1 ch = channels ch
  count : r.2.2 = ((g.connections p).filter fun c => Takes channels sender c).length
  /-- A connection is as it was, or it is one of the sender and is seen now. -/
  table : ∀ p', List.Forall₂
    (fun c c' => c' = c ∨ p' = p ∧ c.machineId = sender ∧ c' = c.updateLastSeen now)
    (g.connections p') (r.1.connections p')
  buffer : r.1.buffer = g.buffer

/-- The connection as it is when an event of the sender comes. -/
def seenAt (sender : String) (now : ℕ) (c : DaemonConnection) : DaemonConnection :=
  if c.machineId = sender then c.updateLastSeen now else c

@[simp] theorem tx_seenAt (now : ℕ) (c : DaemonConnection) : (seenAt sender now c).tx = c.tx := by
  unfold seenAt
  split_ifs <;> rfl

@[simp] theorem takes_seenAt {now : ℕ} {c : DaemonConnection} :
    Takes channels sender (seenAt sender now c) ↔ Takes channels sender c := by
  unfold seenAt
  split_ifs <;> rfl

theorem connections_seen (g : GatewayServer) (p sender : String) (now : ℕ) (p' : String) :
    (g.seen p sender now).connections p' =
      if p' = p then (g.connections p).map (seenAt sender now) else g.connections p' := by
  unfold seen
  split_ifs with hp
  · rw [hp]
    exact Function.update_self ..
  · exact Function.update_of_ne hp ..

/-- Where each connection of a project has a queue of its own, forwarding sends the event once to
each of another machine that takes it, and changes nothing else. -/
theorem forwardEvent_exact (g : GatewayServer) (hown : g.OwnChannels) (channels : Channels)
    (p sender : String) (event : FileEventMessage) (now : ℕ) :
    g.ForwardsExactly channels p sender event now (g.forwardEvent channels p sender event now) := by
  have hconns : (g.seen p sender now).connections p =
      (g.connections p).map (seenAt sender now) := by
    rw [connections_seen, if_pos rfl]
  have hnodup : (((g.seen p sender now).connections p).map (·.tx)).Nodup := by
    rw [map_connections_seen g p sender now fun _ => rfl]
    exact hown p
  obtain ⟨hsent, hkept, hcount⟩ := sendToOthers_spec sender event _ channels hnodup
  rw [hconns] at hsent hkept hcount
  have hforward : g.forwardEvent channels p sender event now = (g.seen p sender now,
      sendToOthers sender event ((g.connections p).map (seenAt sender now)) channels) := by
    rw [← hconns]
    rfl
  rw [hforward]
  refine ⟨?_, ?_, ?_, ?_, rfl⟩
  · intro c hc ht
    have hc' := hsent _ (List.mem_map_of_mem hc) (takes_seenAt.2 ht)
    rwa [tx_seenAt] at hc'
  · intro ch hch
    refine hkept ch fun c' hc' ht => ?_
    obtain ⟨c, hc, rfl⟩ := List.mem_map.1 hc'
    rw [tx_seenAt]
    exact hch c hc (takes_seenAt.1 ht)
  · refine hcount.trans ?_
    rw [List.filter_map, List.length_map]
    simp [Function.comp_def]
  · intro p'
    rw [connections_seen]
    split_ifs with hp
    · subst hp
      rw [List.forall₂_map_right_iff]
      refine List.forall₂_same.2 fun c _ => ?_
      unfold seenAt
      split_ifs with hm
      · exact .inr ⟨rfl, hm, rfl⟩
      · exact .inl rfl
    · exact List.forall₂_same.2 fun c _ => .inl rfl

/-- Three daemons of a project, of which one has a full queue. -/
def threeDaemons : GatewayServer :=
  ((new.registerDaemon "p" "a" 0 0).registerDaemon "p" "b" 1 0).registerDaemon "p" "c" 2 0

/-- The second queue holds the one event there is room for. -/
def fullSecond (ch : ℕ) : Channel FileEventMessage :=
  if ch = 1 then (Channel.new 1).append ⟨90, "created", "e", "p", "user", none, "a", none, none⟩
  else .new 32

theorem threeDaemons_exact :
    let event : FileEventMessage := ⟨100, "created", "f", "p", "user", none, "a", none, none⟩
    threeDaemons.ForwardsExactly fullSecond "p" "a" event 5
        (threeDaemons.forwardEvent fullSecond "p" "a" event 5) ∧
      (threeDaemons.forwardEvent fullSecond "p" "a" event 5).2.2 = 1 := by
  intro event
  have hown : threeDaemons.OwnChannels := by
    intro p
    unfold threeDaemons
    simp only [connections_registerDaemon]
    split_ifs
    · simp [new, DaemonConnection.new]
    · exact List.nodup_nil
  have hexact := forwardEvent_exact threeDaemons hown fullSecond "p" "a" event 5
  exact ⟨hexact, hexact.count⟩

end GatewayServer

end AmbientFs
