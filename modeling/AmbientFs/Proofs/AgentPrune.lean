import AmbientFs.Proofs.AgentLog

/-!
# Which counts a prune resets

A prune infers from the lists of the agents who referenced a file. A file that an agent is done
with is no longer in its list, so the inference is right only where marks of the kind do not get
in the way. What the agents referenced since they were registered is kept here beside the tracker.
-/

namespace AmbientFs

namespace AgentTracker

open Log

/-- The tracker, with the activities whose agent was not removed since. -/
structure Traced where
  tracker : AgentTracker
  log : List AgentActivity

/-- A registered agent of which staleness is as given. -/
def Registered (t : AgentTracker) (clock : String → DateTime) (stale : Bool) (agent : String) :
    Prop :=
  ∃ s, t.agents.lookup agent = some s ∧ s.isStale t.staleTimeout (clock agent) = stale

namespace Traced

def init (timeout : ℤ) : Traced := ⟨new timeout, []⟩

def step (s : Traced) : TrackerAction → Traced
  | .update a now => ⟨s.tracker.updateFromActivity a now, s.log ++ [a]⟩
  | .prune clock later =>
    ⟨(s.tracker.pruneStale clock later).2,
      s.log.filter fun a => ((s.tracker.pruneStale clock later).2.agents.lookup a.agent).isSome⟩

variable (s : Traced) (clock : String → DateTime) (f : String)

/-- Some activity on the file came from an agent that is fresh now, and was not removed since. -/
def Referenced : Prop := ∃ a ∈ s.log, a.file = f ∧ s.tracker.Registered clock false a.agent

/-- A fresh agent, or a stale one, has not marked the file done. -/
def Held (stale : Bool) : Prop :=
  ∃ agent, s.tracker.Registered clock stale agent ∧ onFile s.log agent f

/-- A prune keeps the counts of the files that a fresh agent has referenced, and resets those of
all others. -/
def ResetsRight : TrackerAction → Prop
  | .update _ _ => True
  | .prune clock later => ∀ f,
    (s.Referenced clock f →
      (s.tracker.pruneStale clock later).2.getReferenceCount f = s.tracker.getReferenceCount f) ∧
    (¬ s.Referenced clock f →
      (s.tracker.pruneStale clock later).2.getReferenceCount f = 0)

/-- Of the files with a count, one that a fresh agent has referenced is still held by a fresh one or
by no stale one, and any other is still held by a stale one. -/
def DoneApart : TrackerAction → Prop
  | .update _ _ => True
  | .prune clock _ => ∀ f, s.tracker.getReferenceCount f ≠ 0 →
    (s.Referenced clock f → s.Held clock f false ∨ ¬ s.Held clock f true) ∧
    (¬ s.Referenced clock f → s.Held clock f true)

end Traced

variable {t : AgentTracker} {log : List AgentActivity} {clock later : String → DateTime}
  {f agent : String} {stale : Bool}

/-- An agent is on a file exactly if the file is in its list. -/
theorem Follows.mem_filesOf (h : t.Follows log) : f ∈ t.filesOf agent ↔ onFile log agent f := by
  rw [← List.count_pos_iff, h]
  split_ifs with ho <;> simp [ho]

theorem mem_collectFiles :
    f ∈ t.collectFiles clock stale ↔
      ∃ agent, t.Registered clock stale agent ∧ f ∈ t.filesOf agent := by
  unfold collectFiles Registered filesOf
  simp only [List.mem_flatMap, List.mem_filter, beq_iff_eq]
  constructor
  · rintro ⟨e, ⟨he, hstale⟩, hf⟩
    have hlookup : t.agents.lookup e.1 = some e.2 := AList.mem_lookup_iff.2 he
    exact ⟨e.1, ⟨e.2, hlookup, hstale⟩, by rw [hlookup]; exact hf⟩
  · rintro ⟨agent, ⟨s, hs, hstale⟩, hf⟩
    rw [hs] at hf
    exact ⟨⟨agent, s⟩, ⟨AList.mem_lookup_iff.1 hs, hstale⟩, hf⟩

theorem getReferenceCount_prune :
    (t.pruneStale clock later).2.getReferenceCount f =
      if f ∈ t.staleOnly clock then 0 else t.getReferenceCount f := by
  rw [pruneStale_snd]
  by_cases hf : f ∈ t.staleOnly clock
  · simp [getReferenceCount, removeReferences, hf]
  · simp [getReferenceCount, removeReferences, retainFresh, hf]

/-- The agents that are left keep their lists and what is known of them. -/
theorem Follows.prune (h : t.Follows log) :
    (t.pruneStale clock later).2.Follows
      (log.filter fun a => ((t.pruneStale clock later).2.agents.lookup a.agent).isSome) := by
  intro agent f
  have hkind : ∀ a : AgentActivity, decide (a.agent = agent ∧ a.file = f) → a.agent = agent :=
    fun a ha => (of_decide_eq_true ha).1
  unfold filesOf onFile
  rcases hs : (t.pruneStale clock later).2.agents.lookup agent with _ | s
  · rw [latest_filter_of_not fun a _ ha => by rw [hkind a ha, hs]; rfl]
    rfl
  · rw [latest_filter fun a _ ha => by rw [hkind a ha, hs]; rfl]
    rw [pruneStale_agents, lookup_retainFresh] at hs
    have hf := h agent f
    rw [filesOf, hs.1] at hf
    exact hf

namespace Traced

theorem follows_after (timeout : ℤ) (as : List TrackerAction) :
    (Run.after step (init timeout) as).tracker.Follows (Run.after step (init timeout) as).log := by
  induction as using List.reverseRecOn with
  | nil => exact fun agent f => rfl
  | append_singleton as x ih =>
    rw [Run.after_snoc]
    cases x with
    | update a now => exact ih.update
    | prune clock later => exact ih.prune

variable {s : Traced}

theorem mem_staleOnly (h : s.tracker.Follows s.log) :
    f ∈ s.tracker.staleOnly clock ↔ s.Held clock f true ∧ ¬ s.Held clock f false := by
  unfold staleOnly Held
  simp only [List.mem_filter, decide_eq_true_eq, mem_collectFiles, h.mem_filesOf]

/-- Whoever is on a file has referenced it. -/
theorem Held.referenced (h : s.Held clock f false) : s.Referenced clock f := by
  obtain ⟨agent, hagent, ho⟩ := h
  obtain ⟨a, ha, -⟩ := (Option.any_eq_true _ _).1 ho
  obtain ⟨hmem, hkind⟩ := mem_of_latest ha
  obtain ⟨rfl, hf⟩ := of_decide_eq_true hkind
  exact ⟨a, hmem, hf, hagent⟩

theorem resetsRight_iff (h : s.tracker.Follows s.log) (x : TrackerAction) :
    s.ResetsRight x ↔ s.DoneApart x := by
  cases x with
  | update a now => exact Iff.rfl
  | prune clock later =>
    refine forall_congr' fun f => ?_
    rw [getReferenceCount_prune]
    have hmem : f ∈ s.tracker.staleOnly clock ↔ s.Held clock f true ∧ ¬ s.Held clock f false :=
      mem_staleOnly h
    constructor
    · rintro ⟨hkeeps, hresets⟩ hc
      refine ⟨fun hr => ?_, fun hr => ?_⟩
      · by_contra hn
        rw [not_or, not_not] at hn
        have hzero := hkeeps hr
        rw [if_pos (hmem.2 hn.symm)] at hzero
        exact hc hzero.symm
      · by_contra hn
        have hzero := hresets hr
        rw [if_neg fun hf => hn (hmem.1 hf).1] at hzero
        exact hc hzero
    · intro hd
      by_cases hc : s.tracker.getReferenceCount f = 0
      · simp [hc]
      obtain ⟨hkept, hreset⟩ := hd hc
      refine ⟨fun hr => if_neg fun hf => ?_, fun hr => if_pos (hmem.2 ⟨hreset hr, ?_⟩)⟩
      · obtain ⟨hstale, hfresh⟩ := hmem.1 hf
        rcases hkept hr with hh | hh
        · exact hfresh hh
        · exact hh hstale
      · exact fun hfresh => hr hfresh.referenced

/-- In every run each prune resets the counts of exactly the files known only through agents that
are stale or were removed, exactly if marks of being done do not get in the way. -/
theorem resetsRight_run_iff (timeout : ℤ) (as : List TrackerAction) :
    Run.Steps step (init timeout) ResetsRight as ↔ Run.Steps step (init timeout) DoneApart as :=
  Run.steps_congr fun pre x => resetsRight_iff (follows_after timeout pre) x

end Traced

def minute : DateTime := ⟨60 * nanosPerSec, by decide⟩

namespace Traced

/-- An agent is done with a file before it becomes stale. -/
def doneThenStale : List TrackerAction :=
  [.update { ts := 0, agent := "a", action := "edit", file := "f.rs" } .epoch,
    .update { ts := 0, agent := "a", action := "edit", file := "f.rs", done := some true } .epoch,
    .prune (fun _ => minute) fun _ => minute]

/-- The count of a file that only a stale agent has referenced stays. -/
theorem doneThenStale_not_resetsRight :
    ¬ Run.Steps step (init (50 * nanosPerSec)) ResetsRight doneThenStale := by
  intro h
  have hprune := h (doneThenStale.take 2) _ List.prefix_rfl
  have hcount := (hprune "f.rs").2 ?_
  · exact absurd hcount (by decide)
  rintro ⟨a, ha, -, s, hs, hfresh⟩
  have hagent : a.agent = "a" := by
    simp [doneThenStale, Run.after, step, init] at ha
    rcases ha with rfl | rfl <;> rfl
  have hstale : ((Run.after step (init (50 * nanosPerSec))
      (doneThenStale.take 2)).tracker.agents.lookup "a").all
        fun s => s.isStale (50 * nanosPerSec) minute := by decide
  rw [hagent] at hs
  rw [hs] at hstale
  exact absurd (hstale.symm.trans hfresh) (by decide)

end Traced

end AgentTracker

end AmbientFs
