import AmbientFs.Agents

/-!
# Who is active

The agent that is found active on a file is one that leads on it: it holds the file, is not stale,
and no such agent was seen later. Every agent that leads is found in some order of the map, and
none is found exactly if all that hold the file are stale. An activity moves its agent to its time,
with the file it is about and the files it has.
-/

namespace AmbientFs

namespace AgentTracker

section Best

variable (t : AgentTracker) (clock : String → DateTime) (f : String)

/-- The agent is not stale, and has the file in its list. -/
def Candidate (e : AgentEntry) : Prop :=
  e.2.isStale t.staleTimeout (clock e.1) = false ∧ f ∈ e.2.files

variable {t clock f} {best : Option (String × DateTime)} {e : AgentEntry} {l : List AgentEntry}

theorem better_of_not (h : ¬ t.Candidate clock f e) : t.better clock f best e = best := by
  unfold better
  split_ifs with hs hf
  · rfl
  · exact absurd ⟨by simpa using hs, hf⟩ h
  · rfl

theorem better_none (h : t.Candidate clock f e) :
    t.better clock f none e = some (e.1, e.2.lastSeen) := by
  unfold better
  rw [if_neg (by simp [h.1]), if_pos h.2]

theorem better_some (h : t.Candidate clock f e) (a : String) (seen : DateTime) :
    t.better clock f (some (a, seen)) e =
      if seen.nanos < e.2.lastSeen.nanos then some (e.1, e.2.lastSeen) else some (a, seen) := by
  unfold better
  rw [if_neg (by simp [h.1]), if_pos h.2]

/-- What has been found stays unless one seen later comes. -/
theorem foldl_better_of_le {a : String} {seen : DateTime} :
    ∀ {l : List AgentEntry},
      (∀ e ∈ l, t.Candidate clock f e → e.2.lastSeen.nanos ≤ seen.nanos) →
      l.foldl (t.better clock f) (some (a, seen)) = some (a, seen)
  | [], _ => rfl
  | e :: l, h => by
    have hbest : t.better clock f (some (a, seen)) e = some (a, seen) := by
      by_cases hc : t.Candidate clock f e
      · rw [better_some hc, if_neg (not_lt.2 (h e List.mem_cons_self hc))]
      · exact better_of_not hc
    rw [List.foldl_cons, hbest]
    exact foldl_better_of_le fun e' he' => h e' (List.mem_cons_of_mem e he')

/-- The best is one of those visited, or what there was before, and none was seen later. -/
theorem foldl_better_some {a : String} {seen : DateTime} :
    ∀ {l : List AgentEntry} {best : Option (String × DateTime)},
      l.foldl (t.better clock f) best = some (a, seen) →
      (best = some (a, seen) ∨
        ∃ e ∈ l, t.Candidate clock f e ∧ e.1 = a ∧ e.2.lastSeen = seen) ∧
      (∀ b, best = some b → b.2.nanos ≤ seen.nanos) ∧
      ∀ e ∈ l, t.Candidate clock f e → e.2.lastSeen.nanos ≤ seen.nanos
  | [], best, h => by
    refine ⟨.inl h, ?_, by simp⟩
    rintro b rfl
    cases h
    exact le_rfl
  | e :: l, best, h => by
    rw [List.foldl_cons] at h
    obtain ⟨hfrom, hbest, hl⟩ := foldl_better_some h
    by_cases hc : t.Candidate clock f e
    · rcases best with _ | ⟨a', seen'⟩
      · rw [better_none hc] at hfrom hbest
        refine ⟨.inr ?_, by simp, ?_⟩
        · rcases hfrom with hfrom | ⟨e', he', hfrom⟩
          · simp only [Option.some.injEq, Prod.mk.injEq] at hfrom
            exact ⟨e, List.mem_cons_self, hc, hfrom⟩
          · exact ⟨e', List.mem_cons_of_mem e he', hfrom⟩
        · rintro e' he' hc'
          rcases List.mem_cons.1 he' with rfl | he'
          · exact hbest _ rfl
          · exact hl e' he' hc'
      · rw [better_some hc] at hfrom hbest
        split_ifs at hfrom hbest with hlt
        · have hle := hbest _ rfl
          refine ⟨.inr ?_, ?_, ?_⟩
          · rcases hfrom with hfrom | ⟨e', he', hfrom⟩
            · simp only [Option.some.injEq, Prod.mk.injEq] at hfrom
              exact ⟨e, List.mem_cons_self, hc, hfrom⟩
            · exact ⟨e', List.mem_cons_of_mem e he', hfrom⟩
          · rintro _ ⟨⟩
            exact hlt.le.trans hle
          · rintro e' he' hc'
            rcases List.mem_cons.1 he' with rfl | he'
            · exact hle
            · exact hl e' he' hc'
        · have hle := hbest _ rfl
          refine ⟨?_, hbest, ?_⟩
          · rcases hfrom with hfrom | ⟨e', he', hfrom⟩
            · exact .inl hfrom
            · exact .inr ⟨e', List.mem_cons_of_mem e he', hfrom⟩
          · rintro e' he' hc'
            rcases List.mem_cons.1 he' with rfl | he'
            · exact (not_lt.1 hlt).trans hle
            · exact hl e' he' hc'
    · rw [better_of_not hc] at hfrom hbest
      refine ⟨?_, hbest, ?_⟩
      · rcases hfrom with hfrom | ⟨e', he', hfrom⟩
        · exact .inl hfrom
        · exact .inr ⟨e', List.mem_cons_of_mem e he', hfrom⟩
      · rintro e' he' hc'
        rcases List.mem_cons.1 he' with rfl | he'
        · exact absurd hc' hc
        · exact hl e' he' hc'

theorem foldl_better_none : ∀ {l : List AgentEntry} {best : Option (String × DateTime)},
    l.foldl (t.better clock f) best = none ↔
      best = none ∧ ∀ e ∈ l, ¬ t.Candidate clock f e
  | [], best => by simp
  | e :: l, best => by
    rw [List.foldl_cons, foldl_better_none]
    by_cases hc : t.Candidate clock f e
    · have hne : t.better clock f best e ≠ none := by
        rcases best with _ | ⟨a, seen⟩
        · rw [better_none hc]
          exact Option.some_ne_none _
        · rw [better_some hc]
          split_ifs <;> exact Option.some_ne_none _
      simp [hne, hc]
    · simp [better_of_not hc, hc]

end Best

/-! ## Who is active -/

variable (t : AgentTracker)

/-- The agent has the file in its list and was last seen then. -/
def Holds (f agent : String) (seen : DateTime) : Prop :=
  ∃ s, t.agents.lookup agent = some s ∧ f ∈ s.files ∧ s.lastSeen = seen

/-- The agent holds the file, is not stale, and no such agent was seen later. -/
def Leads (clock : String → DateTime) (f agent : String) : Prop :=
  ∃ seen, t.Holds f agent seen ∧ (clock agent).nanos - seen.nanos ≤ t.staleTimeout ∧
    ∀ b seen', t.Holds f b seen' → (clock b).nanos - seen'.nanos ≤ t.staleTimeout →
      seen'.nanos ≤ seen.nanos

variable {t} {clock : String → DateTime} {f agent : String} {visited : List AgentEntry}

theorem isStale_eq_false {s : AgentState} {timeout : ℤ} {now : DateTime} :
    s.isStale timeout now = false ↔ now.nanos - s.lastSeen.nanos ≤ timeout := by
  simp [AgentState.isStale]

theorem mem_visited (h : visited.Perm t.agents.entries) {e : AgentEntry} :
    e ∈ visited ↔ t.agents.lookup e.1 = some e.2 := by
  rw [h.mem_iff]
  exact AList.mem_lookup_iff.symm

theorem Holds.unique {seen seen' : DateTime} (h : t.Holds f agent seen)
    (h' : t.Holds f agent seen') : seen = seen' := by
  obtain ⟨s, hs, -, rfl⟩ := h
  obtain ⟨s', hs', -, rfl⟩ := h'
  rw [hs] at hs'
  rw [Option.some.inj hs']

theorem candidate_iff (h : visited.Perm t.agents.entries) {a : String} {seen : DateTime} :
    (∃ e ∈ visited, t.Candidate clock f e ∧ e.1 = a ∧ e.2.lastSeen = seen) ↔
      t.Holds f a seen ∧ (clock a).nanos - seen.nanos ≤ t.staleTimeout := by
  constructor
  · rintro ⟨⟨a, s⟩, he, ⟨hs, hf⟩, rfl, rfl⟩
    exact ⟨⟨s, (mem_visited h).1 he, hf, rfl⟩, isStale_eq_false.1 hs⟩
  · rintro ⟨⟨s, hs, hf, rfl⟩, hfresh⟩
    exact ⟨⟨a, s⟩, (mem_visited h).2 hs, ⟨isStale_eq_false.2 hfresh, hf⟩, rfl, rfl⟩

/-- Whatever the order, an agent that is found leads. -/
theorem leads_of_active (h : visited.Perm t.agents.entries)
    (ha : t.getActiveAgent clock f visited = some agent) : t.Leads clock f agent := by
  unfold getActiveAgent at ha
  obtain ⟨⟨a, seen⟩, hfold, rfl⟩ := Option.map_eq_some_iff.1 ha
  obtain ⟨hfrom, -, hmax⟩ := foldl_better_some hfold
  rcases hfrom with hfrom | hfrom
  · cases hfrom
  obtain ⟨hholds, hfresh⟩ := (candidate_iff h).1 hfrom
  refine ⟨seen, hholds, hfresh, fun b seen' hb hb' => ?_⟩
  have hcand : ∃ e ∈ visited, t.Candidate clock f e ∧ e.1 = b ∧ e.2.lastSeen = seen' :=
    (candidate_iff h).2 ⟨hb, hb'⟩
  obtain ⟨e, he, hc, -, rfl⟩ := hcand
  exact hmax e he hc

/-- An agent that leads is found in some order. -/
theorem Leads.exists_active (h : t.Leads clock f agent) :
    ∃ visited : List AgentEntry, visited.Perm t.agents.entries ∧
      t.getActiveAgent clock f visited = some agent := by
  obtain ⟨seen, hholds, hfresh, hmax⟩ := h
  have hcand : ∃ e ∈ t.agents.entries, t.Candidate clock f e ∧ e.1 = agent ∧
      e.2.lastSeen = seen := (candidate_iff (.refl _)).2 ⟨hholds, hfresh⟩
  obtain ⟨e, he, hc, rfl, rfl⟩ := hcand
  obtain ⟨l₁, l₂, hl⟩ := List.append_of_mem he
  have hperm : (e :: (l₁ ++ l₂)).Perm t.agents.entries := hl ▸ List.perm_middle.symm
  refine ⟨e :: (l₁ ++ l₂), hperm, ?_⟩
  unfold getActiveAgent
  rw [List.foldl_cons, better_none hc, foldl_better_of_le]
  · rfl
  · intro e' he' hc'
    have hmem := List.mem_cons_of_mem e he'
    exact hmax _ _ ((candidate_iff hperm).1 ⟨e', hmem, hc', rfl, rfl⟩).1
      (isStale_eq_false.1 hc'.1)

theorem active_eq_none (h : visited.Perm t.agents.entries) :
    t.getActiveAgent clock f visited = none ↔
      ∀ b seen, t.Holds f b seen → t.staleTimeout < (clock b).nanos - seen.nanos := by
  unfold getActiveAgent
  rw [Option.map_eq_none_iff, foldl_better_none]
  constructor
  · rintro ⟨-, hn⟩ b seen hb
    by_contra hfresh
    obtain ⟨e, he, hc, -⟩ := (candidate_iff h).2 ⟨hb, not_lt.1 hfresh⟩
    exact hn e he hc
  · refine fun hn => ⟨rfl, fun e he hc => ?_⟩
    obtain ⟨hb, hfresh⟩ := (candidate_iff h).1 ⟨e, he, hc, rfl, rfl⟩
    exact absurd (hn _ _ hb) (not_lt.2 hfresh)

/-! ## What an activity changes -/

theorem mem_update {s : AgentState} {a : AgentActivity} {now : DateTime} :
    f ∈ (s.update a now).files ↔ if a.file = f then a.isDone = false else f ∈ s.files := by
  unfold AgentState.update
  by_cases hf : a.file = f
  · subst hf
    rw [if_pos rfl]
    cases a.isDone
    · by_cases hmem : a.file ∈ s.files
      · simp [hmem]
      · simp [hmem]
    · simp
  · rw [if_neg hf]
    cases a.isDone
    · by_cases hmem : a.file ∈ s.files
      · simp [hmem]
      · simp [hmem, Ne.symm hf]
    · simp [Ne.symm hf]

/-- An activity moves its agent to its time, with the file it is about and those it has. -/
theorem holds_update (a : AgentActivity) (now : DateTime) {seen : DateTime} :
    (t.updateFromActivity a now).Holds f agent seen ↔
      if agent = a.agent then seen = a.timestamp now ∧
        if a.file = f then a.isDone = false else ∃ seen', t.Holds f agent seen'
      else t.Holds f agent seen := by
  unfold Holds updateFromActivity
  by_cases ha : agent = a.agent
  · subst ha
    simp only [AList.lookup_insert, Option.some.injEq, exists_eq_left', mem_update, if_true]
    have hlast : ∀ s : AgentState, (s.update a now).lastSeen = a.timestamp now := fun _ => rfl
    rw [hlast, and_comm, eq_comm]
    refine and_congr_right fun _ => ?_
    split_ifs
    · rfl
    rcases t.agents.lookup a.agent with _ | s
    · simp [AgentState.new]
    · simp
  · simp only [AList.lookup_insert_ne ha, if_neg ha]

theorem getReferenceCount_update (a : AgentActivity) (now : DateTime) :
    (t.updateFromActivity a now).getReferenceCount f =
      if a.file = f then t.getReferenceCount f + 1 else t.getReferenceCount f := by
  unfold getReferenceCount updateFromActivity
  split_ifs with hf
  · subst hf
    simp
  · simp [Function.update_of_ne (Ne.symm hf)]

end AgentTracker

end AmbientFs
