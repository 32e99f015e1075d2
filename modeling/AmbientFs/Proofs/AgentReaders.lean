import AmbientFs.Proofs.AgentLog

/-!
# What is read of the agents, and what a prune changes of it

Which agent is found active on a file may depend on the order of the map, where several lead on the
file. What is read at some time depends on the agents that are not stale then, and a prune at that
time or before removes none of them: nothing that is read changes.
-/

namespace AmbientFs

namespace AgentTracker

variable (t : AgentTracker)

/-- The orders in which the map may be iterated. -/
def orders : Set (List AgentEntry) := {visited | visited.Perm t.agents.entries}

variable {t}

/-- The agents that may be found active on a file are those that lead on it, none is found exactly
if no agent that has the file is fresh, and the order does not matter exactly if at most one agent
leads. -/
theorem active_agent_choice (t : AgentTracker) (clock : String → DateTime) (f : String) :
    (∀ agent, (∃ visited ∈ t.orders, t.getActiveAgent clock f visited = some agent) ↔
        t.Leads clock f agent) ∧
      (∀ visited ∈ t.orders, t.getActiveAgent clock f visited = none ↔
        ∀ agent seen, t.Holds f agent seen →
          t.staleTimeout < (clock agent).nanos - seen.nanos) ∧
      ((∀ visited ∈ t.orders, ∀ visited' ∈ t.orders,
          t.getActiveAgent clock f visited = t.getActiveAgent clock f visited') ↔
        ∀ a b, t.Leads clock f a → t.Leads clock f b → a = b) := by
  refine ⟨fun agent => ⟨?_, fun h => h.exists_active⟩, fun visited hv => active_eq_none hv, ?_, ?_⟩
  · rintro ⟨visited, hv, ha⟩
    exact leads_of_active hv ha
  · intro hsame a b ha hb
    obtain ⟨v, hv, hva⟩ := ha.exists_active
    obtain ⟨w, hw, hwb⟩ := hb.exists_active
    have heq := hsame v hv w hw
    rw [hva, hwb] at heq
    exact Option.some.inj heq
  · intro hone v hv w hw
    rcases ha : t.getActiveAgent clock f v with _ | a
    · exact ((active_eq_none hw).2 ((active_eq_none hv).1 ha)).symm
    · rcases hb : t.getActiveAgent clock f w with _ | b
      · have hnone := (active_eq_none hv).2 ((active_eq_none hw).1 hb)
        rw [ha] at hnone
        cases hnone
      · rw [hone a b (leads_of_active hv ha) (leads_of_active hw hb)]

/-- Two agents report in the same second. -/
def sameSecond : AgentTracker :=
  (new 0).feed [({ ts := 0, agent := "a", action := "edit", file := "f.rs" }, .epoch),
    ({ ts := 0, agent := "b", action := "edit", file := "f.rs" }, .epoch)]

theorem sameSecond_active :
    ¬ ∀ visited ∈ sameSecond.orders, ∀ visited' ∈ sameSecond.orders,
      sameSecond.getActiveAgent (fun _ => .epoch) "f.rs" visited =
        sameSecond.getActiveAgent (fun _ => .epoch) "f.rs" visited' := by
  intro h
  have hsame := h _ (List.Perm.refl _) _ (List.reverse_perm _)
  exact absurd hsame (by decide)

/-! ## After a prune -/

/-- The entries of some order that a predicate picks are in some order of those it picks. -/
theorem filter_image_perm {α : Type*} (p : α → Bool) (l : List α) :
    List.filter p '' {v | v.Perm l} = {w | w.Perm (l.filter p)} := by
  ext w
  constructor
  · rintro ⟨v, hv, rfl⟩
    exact hv.filter p
  · intro hw
    have hpos : ∀ a ∈ w, p a := fun a ha => List.of_mem_filter (hw.subset ha)
    have hneg : (l.filter (!p ·)).filter p = [] := by
      rw [List.filter_filter]
      exact List.filter_eq_nil_iff.2 (by simp)
    refine ⟨w ++ l.filter (!p ·), ?_, ?_⟩
    · exact (hw.append_right _).trans (List.filter_append_perm p l)
    · rw [List.filter_append, List.filter_eq_self.2 hpos, hneg, List.append_nil]

variable {clock later reading : String → DateTime} {f : String} {visited : List AgentEntry}

/-- Whether the agent is fresh. -/
def fresh (t : AgentTracker) (clock : String → DateTime) (e : AgentEntry) : Bool :=
  !e.2.isStale t.staleTimeout (clock e.1)

theorem getAllAgents_filter :
    t.getAllAgents reading visited = (visited.filter (t.fresh reading)).map Sigma.snd := rfl

/-- The agents that are stale are passed over. -/
theorem getActiveAgent_filter :
    t.getActiveAgent reading f visited =
      t.getActiveAgent reading f (visited.filter (t.fresh reading)) := by
  unfold getActiveAgent
  rw [List.foldl_filter]
  congr 2
  funext best e
  by_cases he : t.fresh reading e
  · rw [if_pos he]
  · rw [if_neg he, better_of_not fun hc => he (by simp [fresh, hc.1])]

@[simp] theorem pruneStale_timeout :
    (t.pruneStale clock later).2.staleTimeout = t.staleTimeout := by
  rw [pruneStale_snd]
  rfl

/-- An agent that is fresh at some time was so at every time before. -/
theorem fresh_of_le (h : ∀ a, (later a).nanos ≤ (reading a).nanos) {e : AgentEntry}
    (he : t.fresh reading e) : t.fresh later e := by
  unfold fresh at *
  rw [Bool.not_eq_true', isStale_eq_false] at *
  have hle := h e.1
  omega

theorem filter_fresh_prune (h : ∀ a, (later a).nanos ≤ (reading a).nanos) :
    (t.pruneStale clock later).2.agents.entries.filter (t.fresh reading) =
      t.agents.entries.filter (t.fresh reading) := by
  rw [pruneStale_agents, retainFresh, List.filter_filter]
  refine List.filter_congr fun e _ => ?_
  by_cases he : t.fresh reading e
  · have hlater : t.fresh later e := fresh_of_le h he
    unfold fresh at he hlater
    simp [fresh, he, hlater]
  · simp [he]

/-- What reads only the fresh agents reads the same after a prune. -/
theorem image_orders_prune {β : Type*} {read : List AgentEntry → β}
    (h : ∀ a, (later a).nanos ≤ (reading a).nanos)
    (hread : ∀ visited, read visited = read (visited.filter (t.fresh reading))) :
    read '' (t.pruneStale clock later).2.orders = read '' t.orders := by
  have hcomp : read = read ∘ List.filter (t.fresh reading) := funext hread
  rw [hcomp, Set.image_comp, Set.image_comp]
  unfold orders
  rw [filter_image_perm, filter_image_perm, filter_fresh_prune h]

theorem card_keys_pruned :
    (t.agents.keys.toFinset \ (t.pruneStale clock later).2.agents.keys.toFinset).card =
      (t.pruneStale clock later).1 := by
  have hsub : (t.pruneStale clock later).2.agents.keys.toFinset ⊆ t.agents.keys.toFinset := by
    rw [pruneStale_agents]
    intro a ha
    rw [List.mem_toFinset] at *
    exact (List.filter_sublist.map Sigma.fst).subset ha
  have hlength : ∀ t : AgentTracker, t.agents.keys.length = t.agentCount := fun t =>
    List.length_map _
  rw [Finset.card_sdiff_of_subset hsub, List.toFinset_card_of_nodup t.agents.keys_nodup,
    List.toFinset_card_of_nodup (AList.keys_nodup _), hlength, hlength]
  unfold agentCount
  rw [pruneStale_agents]
  rfl

/-- A prune changes nothing that is read later, and returns how many agents it removed. -/
theorem pruneStale_unseen (t : AgentTracker) (clock later reading : String → DateTime)
    (h : ∀ a, (later a).nanos ≤ (reading a).nanos) :
    (t.pruneStale clock later).2.getAllAgents reading '' (t.pruneStale clock later).2.orders =
        t.getAllAgents reading '' t.orders ∧
      (∀ visited ∈ (t.pruneStale clock later).2.orders, ∀ visited' ∈ t.orders,
        (t.pruneStale clock later).2.activeAgentCount reading visited =
          t.activeAgentCount reading visited') ∧
      (∀ f, (t.pruneStale clock later).2.getActiveAgent reading f ''
          (t.pruneStale clock later).2.orders = t.getActiveAgent reading f '' t.orders) ∧
      (t.pruneStale clock later).1 =
        (t.agents.keys.toFinset \ (t.pruneStale clock later).2.agents.keys.toFinset).card := by
  have hall : (t.pruneStale clock later).2.getAllAgents reading = t.getAllAgents reading := by
    funext visited
    rw [getAllAgents_filter, getAllAgents_filter]
    unfold fresh
    rw [pruneStale_timeout]
  have hactive : ∀ f, (t.pruneStale clock later).2.getActiveAgent reading f =
      t.getActiveAgent reading f := by
    intro f
    funext visited
    unfold getActiveAgent better
    rw [pruneStale_timeout]
  refine ⟨?_, ?_, fun f => ?_, card_keys_pruned.symm⟩
  · rw [hall]
    refine image_orders_prune h fun visited => ?_
    rw [getAllAgents_filter, getAllAgents_filter, List.filter_filter]
    simp
  · intro visited hv visited' hv'
    unfold activeAgentCount
    rw [pruneStale_timeout, hv.countP_eq, List.Perm.countP_eq _ hv', List.countP_eq_length_filter,
      List.countP_eq_length_filter]
    exact congrArg List.length (filter_fresh_prune h)
  · rw [hactive f]
    exact image_orders_prune h fun visited => getActiveAgent_filter

/-- One agent is stale a minute after it was seen, and the other is not. -/
theorem pruneStale_unseen_minute :
    let t := (new (50 * nanosPerSec)).feed
      [({ ts := 0, agent := "a", action := "edit", file := "f.rs" }, .epoch),
        ({ ts := 40, agent := "b", action := "edit", file := "f.rs" }, .epoch)]
    let minute : DateTime := ⟨60 * nanosPerSec, by decide⟩
    (t.pruneStale (fun _ => minute) fun _ => minute).1 = 1 ∧
      ∀ f, (t.pruneStale (fun _ => minute) fun _ => minute).2.getActiveAgent (fun _ => minute) f ''
          (t.pruneStale (fun _ => minute) fun _ => minute).2.orders =
        t.getActiveAgent (fun _ => minute) f '' t.orders := by
  intro t minute
  obtain ⟨-, -, hactive, hcount⟩ :=
    pruneStale_unseen t (fun _ => minute) (fun _ => minute) (fun _ => minute) fun _ => le_rfl
  exact ⟨hcount.trans (by decide), hactive⟩

end AgentTracker

end AmbientFs
