import AmbientFs.Lib.Log
import AmbientFs.Lib.Run
import AmbientFs.Proofs.Agents

/-!
# The tracker as the fold of its activities

Where nothing is pruned, a file is in the list of an agent if the last activity of the agent on it
is not marked done, and is in it once; a count is that of the activities on the file. The time an
agent was last seen is that of its last activity, so it is the greatest exactly if no activity of
the agent comes with an earlier time than one before it.
-/

namespace AmbientFs

namespace AgentTracker

open Log

/-! ## Files and counts -/

/-- The files of an agent, where it is registered. -/
def filesOf (t : AgentTracker) (agent : String) : List String :=
  ((t.agents.lookup agent).map AgentState.files).getD []

/-- The last activity of the agent on the file is not marked done. -/
def onFile (log : List AgentActivity) (agent file : String) : Bool :=
  (latest (fun a => a.agent = agent ∧ a.file = file) log).any fun a => !a.isDone

variable {t : AgentTracker} {log : List AgentActivity} {a : AgentActivity} {now : DateTime}
  {agent f : String}

theorem onFile_snoc :
    onFile (log ++ [a]) agent f =
      if a.agent = agent ∧ a.file = f then !a.isDone else onFile log agent f := by
  unfold onFile
  rw [latest_snoc]
  simp only [decide_eq_true_eq]
  split_ifs <;> rfl

theorem lookup_update :
    (t.updateFromActivity a now).agents.lookup agent =
      if agent = a.agent then
        some (((t.agents.lookup a.agent).getD (.new a.agent now)).update a now)
      else t.agents.lookup agent := by
  unfold updateFromActivity
  split_ifs with h
  · subst h
    exact AList.lookup_insert _
  · exact AList.lookup_insert_ne h

theorem count_update {s : AgentState} (h : s.files.count a.file ≤ 1) :
    (s.update a now).files.count f =
      if a.file = f then (if a.isDone then 0 else 1) else s.files.count f := by
  unfold AgentState.update
  by_cases hf : a.file = f
  · subst hf
    rw [if_pos rfl]
    split_ifs with hd hm
    · exact List.count_eq_zero.2 (by simp)
    · have hpos := List.count_pos_iff.2 hm
      simp only
      omega
    · simp only [List.count_append, List.count_singleton_self, List.count_eq_zero.2 hm]
  · rw [if_neg hf]
    split_ifs with hd hm
    · exact List.count_filter (by simpa using Ne.symm hf)
    · rfl
    · simp only [List.count_append, List.count_singleton, beq_iff_eq, if_neg hf, Nat.add_zero]

theorem getD_files :
    ((t.agents.lookup agent).getD (.new agent now)).files = t.filesOf agent := by
  unfold filesOf
  rcases t.agents.lookup agent with _ | s <;> rfl

/-- The list of each agent is what the log says. -/
def Follows (t : AgentTracker) (log : List AgentActivity) : Prop :=
  ∀ agent f, (t.filesOf agent).count f = if onFile log agent f then 1 else 0

theorem Follows.update (h : t.Follows log) :
    (t.updateFromActivity a now).Follows (log ++ [a]) := by
  intro agent f
  have hle : ∀ f, (t.filesOf a.agent).count f ≤ 1 := fun f => by
    rw [h]
    split_ifs <;> simp
  rw [onFile_snoc]
  unfold filesOf
  rw [lookup_update]
  by_cases ha : agent = a.agent
  · subst ha
    have hone : ((t.agents.lookup a.agent).getD (.new a.agent now)).files.count a.file ≤ 1 := by
      rw [getD_files]
      exact hle _
    rw [if_pos rfl, Option.map_some, Option.getD_some, count_update hone, getD_files, h]
    by_cases hf : a.file = f
    · simp only [hf, and_self, if_true, Bool.not_eq_true']
      cases a.isDone <;> rfl
    · simp only [hf, and_false, if_false]
  · simp only [if_neg ha, Ne.symm ha, false_and, if_false]
    exact h agent f

/-- An activity, with the clock when it comes. -/
abbrev Update := AgentActivity × DateTime

def feed (t : AgentTracker) (updates : List Update) : AgentTracker :=
  Run.after (fun t u => t.updateFromActivity u.1 u.2) t updates

variable {timeout : ℤ}

theorem follows_feed (updates : List Update) :
    ((new timeout).feed updates).Follows (updates.map Prod.fst) := by
  induction updates using List.reverseRecOn with
  | nil => exact fun agent f => rfl
  | append_singleton updates u ih =>
    rw [feed, Run.after_snoc, List.map_append]
    exact ih.update

theorem getReferenceCount_feed (updates : List Update) (f : String) :
    ((new timeout).feed updates).getReferenceCount f =
      UInt32.ofNat (updates.countP fun u => u.1.file = f) := by
  induction updates using List.reverseRecOn with
  | nil => rfl
  | append_singleton updates u ih =>
    rw [feed, Run.after_snoc, getReferenceCount_update, List.countP_append, List.countP_singleton]
    rw [feed] at ih
    rw [ih]
    by_cases hf : u.1.file = f
    · simp [hf]
    · simp [hf]

/-- A file is in the list of an agent, once, exactly if the last activity of the agent on it is not
marked done, and its count is that of the activities on it. -/
theorem feed_files_and_count (timeout : ℤ) (updates : List Update)
    (hfew : ∀ f, (updates.countP fun u => u.1.file = f) < 2 ^ 32) (agent f : String) :
    (((new timeout).feed updates).filesOf agent).count f =
        (if onFile (updates.map Prod.fst) agent f then 1 else 0) ∧
      (((new timeout).feed updates).getReferenceCount f).toNat =
        updates.countP fun u => u.1.file = f := by
  refine ⟨follows_feed updates agent f, ?_⟩
  rw [getReferenceCount_feed, UInt32.toNat_ofNat']
  exact Nat.mod_eq_of_lt (hfew f)

/-- Two agents work on a file, and the first finishes with it. -/
def handOver : List Update :=
  [({ ts := 0, agent := "a", action := "edit", file := "f.rs" }, .epoch),
    ({ ts := 0, agent := "b", action := "read", file := "f.rs" }, .epoch),
    ({ ts := 1, agent := "a", action := "edit", file := "f.rs", done := some true }, .epoch)]

theorem handOver_files_and_count :
    (((new 0).feed handOver).filesOf "a").count "f.rs" = 0 ∧
      (((new 0).feed handOver).getReferenceCount "f.rs").toNat = 3 :=
  feed_files_and_count 0 handOver (fun _ => List.countP_le_length.trans_lt (by decide)) "a" "f.rs"

/-! ## When an agent was last seen -/

theorem lookup_retainFresh {clock : String → DateTime} {s : AgentState} :
    (t.retainFresh clock).agents.lookup agent = some s ↔
      t.agents.lookup agent = some s ∧ s.isStale t.staleTimeout (clock agent) = false := by
  rw [← Option.mem_def, ← Option.mem_def, AList.mem_lookup_iff, AList.mem_lookup_iff]
  simp [retainFresh]

/-- Where no stale agent has a file, there is nothing to reset. -/
theorem pruneStale_snd {clock later : String → DateTime} :
    (t.pruneStale clock later).2 =
      (t.retainFresh later).removeReferences (t.staleOnly clock) := by
  unfold pruneStale
  by_cases hempty : (t.collectFiles clock true).isEmpty
  · have hnone : t.staleOnly clock = [] := by
      rw [staleOnly, List.isEmpty_iff.1 hempty, List.filter_nil]
    simp only [if_pos hempty, hnone]
    rfl
  · simp only [if_neg hempty]

@[simp] theorem pruneStale_agents {clock later : String → DateTime} :
    (t.pruneStale clock later).2.agents = (t.retainFresh later).agents := by
  rw [pruneStale_snd]
  rfl

/-- The agent of an activity, and its time. -/
def seenBy : TrackerAction → Option (String × DateTime)
  | .update a now => some (a.agent, a.timestamp now)
  | .prune _ _ => none

def seen (as : List TrackerAction) : List (String × DateTime) := as.filterMap seenBy

variable {as : List TrackerAction}

@[simp] theorem seen_update :
    seen (as ++ [.update a now]) = seen as ++ [(a.agent, a.timestamp now)] :=
  List.filterMap_append

@[simp] theorem seen_prune {clock later : String → DateTime} :
    seen (as ++ [.prune clock later]) = seen as := by
  rw [seen, List.filterMap_append]
  exact List.append_nil _

theorem seen_initial {pre : List TrackerAction} (h : pre <+: as) : seen pre <+: seen as := by
  obtain ⟨post, rfl⟩ := h
  exact ⟨seen post, List.filterMap_append.symm⟩

/-- An agent is registered with the time of its last activity. -/
theorem lookup_seen (as : List TrackerAction) {agent : String} {s : AgentState}
    (h : (Run.after step (new timeout) as).agents.lookup agent = some s) :
    latest (fun x => x.1 = agent) (seen as) = some (agent, s.lastSeen) := by
  induction as using List.reverseRecOn generalizing s with
  | nil => simp [new] at h
  | append_singleton as x ih =>
    rw [Run.after_snoc] at h
    cases x with
    | update a now =>
      rw [step, lookup_update] at h
      rw [seen_update, latest_snoc]
      split_ifs at h with ha
      · subst ha
        cases h
        simp [AgentState.update]
      · rw [if_neg (by simpa using Ne.symm ha)]
        exact ih h
    | prune clock later =>
      rw [step, pruneStale_agents, lookup_retainFresh] at h
      rw [seen_prune]
      exact ih h.1

/-- After every step each agent is registered with the greatest of its times so far, so that one
seen within the timeout is not stale. -/
def SeenLatest (timeout : ℤ) (as : List TrackerAction) : Prop :=
  ∀ pre, pre <+: as → ∀ agent s,
    (Run.after step (new timeout) pre).agents.lookup agent = some s →
    IsGreatest {n | ∃ time, (agent, time) ∈ seen pre ∧ time.nanos = n} s.lastSeen.nanos ∧
      ∀ now, (∃ time, (agent, time) ∈ seen pre ∧ now.nanos - time.nanos ≤ timeout) →
        s.isStale timeout now = false

/-- No activity comes with a time before that of an earlier one of its agent. -/
def InOrder (as : List TrackerAction) : Prop :=
  (seen as).Pairwise fun x y => x.1 = y.1 → x.2.nanos ≤ y.2.nanos

theorem InOrder.isGreatest (h : InOrder as) {s : AgentState}
    (hs : (Run.after step (new timeout) as).agents.lookup agent = some s) :
    IsGreatest {n | ∃ time, (agent, time) ∈ seen as ∧ time.nanos = n} s.lastSeen.nanos := by
  have hlast := lookup_seen as hs
  refine ⟨⟨s.lastSeen, (mem_of_latest hlast).1, rfl⟩, ?_⟩
  rintro n ⟨time, hmem, rfl⟩
  have hkind : (seen as).Pairwise fun x y =>
      decide (x.1 = agent) → decide (y.1 = agent) → x.2.nanos ≤ y.2.nanos := by
    refine h.imp fun hxy hx hy => hxy ?_
    rw [of_decide_eq_true hx, of_decide_eq_true hy]
  rcases rel_latest hkind hlast hmem (by simp) with heq | hle
  · cases heq
    exact le_rfl
  · exact hle

theorem seenLatest_iff (timeout : ℤ) (as : List TrackerAction) :
    SeenLatest timeout as ↔ InOrder as := by
  constructor
  · intro h
    induction as using List.reverseRecOn with
    | nil => exact List.Pairwise.nil
    | append_singleton as x ih =>
      have hinit := ih fun pre hpre => h pre (hpre.trans (List.prefix_append as [x]))
      cases x with
      | update a now =>
        unfold InOrder
        rw [seen_update, List.pairwise_append]
        refine ⟨hinit, List.pairwise_singleton _ _, ?_⟩
        rintro ⟨agent, time⟩ hmem y hy hagent
        rw [List.mem_singleton] at hy
        subst hy
        obtain rfl : agent = a.agent := hagent
        obtain ⟨⟨-, hmax⟩, -⟩ := h _ List.prefix_rfl a.agent _ (by
          rw [Run.after_snoc, step, lookup_update, if_pos rfl])
        refine hmax ⟨time, ?_, rfl⟩
        rw [seen_update]
        exact List.mem_append_left _ hmem
      | prune clock later =>
        unfold InOrder
        rw [seen_prune]
        exact hinit
  · intro h pre hpre agent s hs
    have hg := InOrder.isGreatest (List.Pairwise.sublist (seen_initial hpre).sublist h) hs
    refine ⟨hg, fun now ⟨time, hmem, hfresh⟩ => isStale_eq_false.2 ?_⟩
    have hle := hg.2 ⟨time, hmem, rfl⟩
    omega

/-- The line of an older session file comes after that of a newer one. -/
def olderLine : List TrackerAction :=
  [.update { ts := 100, agent := "a", action := "edit", file := "f.rs" } .epoch,
    .update { ts := 0, agent := "a", action := "edit", file := "f.rs" } .epoch]

/-- Twenty seconds after the agent was seen it is stale, though the timeout is fifty. -/
theorem olderLine_not_seenLatest : ¬ SeenLatest (50 * nanosPerSec) olderLine := by
  intro h
  obtain ⟨-, hfresh⟩ := h _ List.prefix_rfl "a" _ (by
    rw [olderLine, Run.after_cons, Run.after_cons, Run.after_nil, step, lookup_update, if_pos rfl])
  have hstale := hfresh ⟨120 * nanosPerSec, by decide⟩
    ⟨⟨100 * nanosPerSec, by decide⟩, by decide, by decide⟩
  exact absurd hstale (by decide)

end AgentTracker

end AmbientFs
