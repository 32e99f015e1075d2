import AmbientFs.AgentSections
import AmbientFs.Proofs.AgentPrune

/-!
# Updates and prunes that interleave

Between its locks a prune that is to reset the count of a file may be overtaken by an update of that
file, or overtake one. Where neither happens, what the operations leave is what they leave one after
the other, in the order in which they took the lock of the agents; otherwise a reference may be lost
while its agent is registered.
-/

namespace AmbientFs

namespace AgentTracker

variable {t : AgentTracker}

/-- An operation with nothing in between is the one of the tracker. -/
theorem whole_sections (t : AgentTracker) (x : TrackerAction) : sections.whole t x = t.step x := by
  cases x with
  | update a now => rfl
  | prune clock later => exact pruneStale_snd.symm

theorem foldl_whole (t : AgentTracker) (order : List TrackerAction) :
    order.foldl sections.whole t = Run.after step t order :=
  congrArg (fun f => order.foldl f t) (funext fun t => funext (whole_sections t))

/-- One counts a file that the other resets. -/
def Clash : ReferenceWork → ReferenceWork → Prop
  | .count f, .reset files => f ∈ files
  | .reset files, .count f => f ∈ files
  | .count _, .count _ => False
  | .reset _, .reset _ => False

/-- No operation finishes before an older one of which it counts or resets a file that the other
resets or counts. -/
def NoOvertaking (s : SectionState) : SectionAction → Prop
  | .begin _ => True
  | .finish i => ∀ k, s.pending[i]? = some k → ∀ j ∈ s.pending.take i, ¬ Clash j k

theorem count_reset {f : String} {files : List String} :
    (∀ t : AgentTracker, (t.countReference f).removeReferences files =
      (t.removeReferences files).countReference f) ↔ f ∉ files := by
  constructor
  · intro h hf
    have hrefs := congrArg (fun t => t.fileReferences f) (h (new 0))
    simp [countReference, removeReferences, hf] at hrefs
  · intro hf t
    unfold countReference removeReferences
    congr 1
    funext g
    by_cases hg : g = f
    · subst hg
      simp [hf]
    · simp [Function.update_of_ne hg]

theorem count_count (t : AgentTracker) (f g : String) :
    (t.countReference f).countReference g = (t.countReference g).countReference f := by
  by_cases hf : f = g
  · rw [hf]
  · unfold countReference
    simp only [Function.update_of_ne hf, Function.update_of_ne (Ne.symm hf)]
    rw [Function.update_comm hf]

theorem reset_reset (t : AgentTracker) (files files' : List String) :
    (t.removeReferences files).removeReferences files' =
      (t.removeReferences files').removeReferences files := by
  unfold removeReferences
  congr 1
  funext f
  by_cases hf : f ∈ files
  · simp [hf]
  · simp [hf]

/-- What is left of two operations is the same in both orders exactly if they do not clash. -/
theorem not_clash_iff {j k : ReferenceWork} :
    ¬ Clash j k ↔
      ∀ t : AgentTracker, (t.referencesSection j).referencesSection k =
        (t.referencesSection k).referencesSection j := by
  cases j with
  | count f =>
    cases k with
    | count g => exact iff_of_true id fun t => count_count t f g
    | reset files => exact count_reset.symm
  | reset files =>
    cases k with
    | count f => exact count_reset.symm.trans (forall_congr' fun t => eq_comm)
    | reset files' => exact iff_of_true id fun t => reset_reset t files files'

theorem inTurn_iff (s : SectionState) (x : SectionAction) :
    sections.InTurn s x ↔ NoOvertaking s x := by
  cases x with
  | begin op => exact Iff.rfl
  | finish i =>
    refine forall₂_congr fun k _ => forall₂_congr fun j _ => ?_
    exact not_clash_iff.symm

/-! ## References are kept -/

/-- What an agent has in its list is counted. -/
def Counted (t : AgentTracker) : Prop :=
  ∀ agent, ∀ f ∈ t.filesOf agent, t.fileReferences f ≠ none

theorem Counted.update (h : t.Counted) (a : AgentActivity) (now : DateTime) :
    (t.updateFromActivity a now).Counted := by
  intro agent f hf
  by_cases hfile : f = a.file
  · subst hfile
    simp [updateFromActivity]
  have hrefs : (t.updateFromActivity a now).fileReferences f = t.fileReferences f :=
    Function.update_of_ne hfile _ _
  rw [hrefs]
  unfold filesOf at hf
  rw [lookup_update] at hf
  split_ifs at hf with ha
  · rw [Option.map_some, Option.getD_some, mem_update, if_neg (Ne.symm hfile), getD_files] at hf
    exact h a.agent f hf
  · exact h agent f hf

/-- An agent that is left was fresh when the files were collected. -/
theorem Counted.prune (h : t.Counted) {clock later : String → DateTime}
    (hclock : ∀ a, (clock a).nanos ≤ (later a).nanos) :
    (t.pruneStale clock later).2.Counted := by
  intro agent f hf
  unfold filesOf at hf
  rcases hs : (t.pruneStale clock later).2.agents.lookup agent with _ | s
  · rw [hs] at hf
    cases hf
  rw [hs] at hf
  rw [pruneStale_agents, lookup_retainFresh, isStale_eq_false] at hs
  obtain ⟨hlookup, hlater⟩ := hs
  have hfresh : s.isStale t.staleTimeout (clock agent) = false := by
    have hle := hclock agent
    rw [isStale_eq_false]
    omega
  have hfiles : f ∈ t.filesOf agent := by
    rw [filesOf, hlookup]
    exact hf
  have hkept : f ∉ t.staleOnly clock := by
    simp only [staleOnly, List.mem_filter, decide_eq_true_eq, mem_collectFiles]
    exact fun honly => honly.2 ⟨agent, ⟨s, hlookup, hfresh⟩, hfiles⟩
  rw [pruneStale_snd]
  simp only [removeReferences, if_neg hkept]
  exact h agent f hfiles

/-! ## Interleaved -/

/-- The same agents, with the same state, and the same counts. -/
def Same (t t' : AgentTracker) : Prop :=
  (∀ agent, t.agents.lookup agent = t'.agents.lookup agent) ∧
    ∀ f, t.fileReferences f = t'.fileReferences f

def run (t : AgentTracker) (as : List SectionAction) : SectionState :=
  Run.after sections.step ⟨t, []⟩ as

/-- What is left is what the operations leave one after the other, in some order. -/
def Linearizable (t : AgentTracker) (as : List SectionAction) : Prop :=
  ∃ order, order.Perm (Sections.begun as) ∧ (t.run as).shared.Same (Run.after step t order)

/-- The clock is not set back within a prune. -/
def Forward : TrackerAction → Prop
  | .update _ _ => True
  | .prune clock later => ∀ agent, (clock agent).nanos ≤ (later agent).nanos

theorem Counted.after {order : List TrackerAction} (h : t.Counted)
    (hforward : ∀ x ∈ order, Forward x) : (Run.after step t order).Counted := by
  induction order generalizing t with
  | nil => exact h
  | cons x order ih =>
    rw [Run.after_cons]
    refine ih ?_ fun y hy => hforward y (List.mem_cons_of_mem x hy)
    have hx := hforward x List.mem_cons_self
    cases x with
    | update a now => exact h.update a now
    | prune clock later => exact h.prune hx

/-- Where no operation overtakes one that it clashes with, the operations leave what they leave one
after the other, and no reference of a registered agent is lost. -/
theorem linearizable_of_noOvertaking (t : AgentTracker) (as : List SectionAction)
    (h : Run.Steps sections.step ⟨t, []⟩ NoOvertaking as) (hdone : (t.run as).pending = []) :
    t.Linearizable as ∧ (t.Counted → (∀ x ∈ Sections.begun as, Forward x) →
      (t.run as).shared.Counted) := by
  have hturn : Run.Steps sections.step ⟨t, []⟩ sections.InTurn as :=
    (Run.steps_congr fun pre x => inTurn_iff _ x).2 h
  have hshared : (t.run as).shared = Run.after step t (Sections.begun as) :=
    (Sections.shared_after hturn hdone).trans (foldl_whole t _)
  refine ⟨⟨Sections.begun as, .refl _, fun agent => ?_, fun f => ?_⟩, fun hc hforward => ?_⟩
  · rw [hshared]
  · rw [hshared]
  · rw [hshared]
    exact hc.after hforward

/-- An agent that was seen on a file a minute ago. -/
def lastMinute : AgentTracker :=
  (new (50 * nanosPerSec)).feed
    [({ ts := 0, agent := "a", action := "edit", file := "f.rs" }, .epoch)]

/-- A prune begins, and an update of a file comes before it ends. -/
def between (file : String) : List SectionAction :=
  [.begin (.prune (fun _ => minute) fun _ => minute),
    .begin (.update { ts := 60, agent := "b", action := "edit", file := file } minute),
    .finish 1, .finish 0]

theorem between_other_file : lastMinute.Linearizable (between "g.rs") := by
  refine (linearizable_of_noOvertaking lastMinute (between "g.rs") ?_ (by decide)).1
  simp only [between, Run.steps_cons]
  refine ⟨trivial, trivial, ?_, ?_, Run.steps_nil⟩
  · rintro k ⟨⟩ j hj
    obtain rfl : j = .reset ["f.rs"] := List.mem_singleton.1 hj
    exact fun hclash => absurd hclash (by decide : "g.rs" ∉ ["f.rs"])
  · rintro k - j hj
    cases hj

/-- The reference is lost, and the agent stays. -/
theorem between_same_file :
    ¬ lastMinute.Linearizable (between "f.rs") ∧
      ¬ (lastMinute.run (between "f.rs")).shared.Counted := by
  have hlost : (lastMinute.run (between "f.rs")).shared.fileReferences "f.rs" = none := by decide
  constructor
  · rintro ⟨order, hperm, -, hrefs⟩
    have hf := hrefs "f.rs"
    rw [hlost] at hf
    rcases List.perm_pair.1 hperm with rfl | rfl
    · exact absurd hf (by decide)
    · exact absurd hf (by decide)
  · exact fun hc => hc "b" "f.rs" (by decide) hlost

end AgentTracker

end AmbientFs
