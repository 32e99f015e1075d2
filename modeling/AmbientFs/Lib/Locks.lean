import Mathlib

/-!
# Tasks and reader-writer locks

A program acquires and releases locks and acts on a shared state; `State` is a number of tasks,
each with what is left of its program and the locks it holds. A task that is to acquire a lock
waits until no other task holds it in a conflicting mode. In a deadlock some tasks each wait for
a lock that another of them holds.
-/

namespace Locks

inductive Mode
  | read
  | write
  deriving DecidableEq

inductive Prog (κ σ : Type*)
  | done
  | acquire (l : κ) (m : Mode) (next : Prog κ σ)
  | release (l : κ) (next : Prog κ σ)
  /-- Acts on the shared state, and goes on as that says. -/
  | run (f : σ → σ) (next : σ → Prog κ σ)

structure State (ι κ σ : Type*) where
  shared : σ
  progs : ι → Prog κ σ
  holds : ι → κ → Option Mode

/-- A lock held so can be acquired by another task in a mode. -/
def Compatible (m : Mode) : Option Mode → Prop
  | none => True
  | some .read => m = .read
  | some .write => False

variable {ι κ σ : Type*} [DecidableEq ι] [DecidableEq κ]

inductive Step (s : State ι κ σ) : State ι κ σ → Prop
  | acquire {i : ι} {l : κ} {m : Mode} {next : Prog κ σ} :
    s.progs i = .acquire l m next → (∀ j ≠ i, Compatible m (s.holds j l)) →
    Step s ⟨s.shared, Function.update s.progs i next,
      Function.update s.holds i (Function.update (s.holds i) l (some m))⟩
  | release {i : ι} {l : κ} {next : Prog κ σ} : s.progs i = .release l next →
    Step s ⟨s.shared, Function.update s.progs i next,
      Function.update s.holds i (Function.update (s.holds i) l none)⟩
  | run {i : ι} {f : σ → σ} {next : σ → Prog κ σ} : s.progs i = .run f next →
    Step s ⟨f s.shared, Function.update s.progs i (next s.shared), s.holds⟩

def Reachable : State ι κ σ → State ι κ σ → Prop := Relation.ReflTransGen Step

/-- All tasks at the start of their programs. -/
def start (progs : ι → Prog κ σ) (shared : σ) : State ι κ σ := ⟨shared, progs, fun _ _ => none⟩

def Deadlock (s : State ι κ σ) : Prop :=
  ∃ T : Set ι, T.Nonempty ∧ ∀ i ∈ T, ∃ l m next, s.progs i = .acquire l m next ∧
    ∃ j ∈ T, j ≠ i ∧ ¬ Compatible m (s.holds j l)

/-! ## Mutual exclusion -/

/-- Who holds a lock to write holds it alone. -/
def Exclusive (s : State ι κ σ) : Prop :=
  ∀ i j l, i ≠ j → s.holds i l = some .write → s.holds j l = none

omit [DecidableEq ι] [DecidableEq κ] in
theorem exclusive_start (progs : ι → Prog κ σ) (shared : σ) : Exclusive (start progs shared) :=
  fun _ _ _ _ h => by cases h

omit [DecidableEq ι] [DecidableEq κ] in
theorem compatible_write {o : Option Mode} (h : Compatible .write o) : o = none := by
  rcases o with _ | _ | _
  · rfl
  · cases h
  · exact h.elim

theorem Exclusive.step {s s' : State ι κ σ} (h : Exclusive s) (hs : Step s s') :
    Exclusive s' := by
  intro a b l' hab hw
  cases hs with
  | @acquire i l m next hp hc =>
    simp only at hw ⊢
    by_cases ha : a = i
    · subst ha
      rw [Function.update_self] at hw
      rw [Function.update_of_ne hab.symm]
      by_cases hl : l' = l
      · subst hl
        rw [Function.update_self] at hw
        cases hw
        exact compatible_write (hc b hab.symm)
      · rw [Function.update_of_ne hl] at hw
        exact h a b l' hab hw
    · rw [Function.update_of_ne ha] at hw
      by_cases hb : b = i
      · subst hb
        rw [Function.update_self]
        by_cases hl : l' = l
        · subst hl
          have := hc a ha
          rw [hw] at this
          exact this.elim
        · rw [Function.update_of_ne hl]
          exact h a b l' hab hw
      · rw [Function.update_of_ne hb]
        exact h a b l' hab hw
  | @release i l next hp =>
    simp only at hw ⊢
    have hheld : s.holds a l' = some .write := by
      by_cases ha : a = i
      · subst ha
        rw [Function.update_self] at hw
        by_cases hl : l' = l
        · simp [hl] at hw
        · rwa [Function.update_of_ne hl] at hw
      · rwa [Function.update_of_ne ha] at hw
    by_cases hb : b = i
    · subst hb
      rw [Function.update_self]
      by_cases hl : l' = l
      · rw [hl, Function.update_self]
      · rw [Function.update_of_ne hl]
        exact h a b l' hab hheld
    · rw [Function.update_of_ne hb]
      exact h a b l' hab hheld
  | run hp => exact h a b l' hab hw

theorem Exclusive.reachable {s s' : State ι κ σ} (h : Exclusive s) (hr : Reachable s s') :
    Exclusive s' := by
  induction hr with
  | refl => exact h
  | tail _ hs ih => exact ih.step hs

/-! ## Schedules -/

theorem exists_acquire {s : State ι κ σ} {i : ι} {l : κ} {m : Mode} {next : Prog κ σ}
    (hp : s.progs i = .acquire l m next) (hc : ∀ j ≠ i, Compatible m (s.holds j l)) :
    ∃ s', Step s s' ∧ s'.shared = s.shared ∧
      s'.progs i = next ∧ (∀ j ≠ i, s'.progs j = s.progs j) ∧
      s'.holds i = Function.update (s.holds i) l (some m) ∧ ∀ j ≠ i, s'.holds j = s.holds j :=
  ⟨_, .acquire hp hc, rfl, Function.update_self .., fun _ hj => Function.update_of_ne hj ..,
    Function.update_self .., fun _ hj => Function.update_of_ne hj ..⟩

theorem exists_run {s : State ι κ σ} {i : ι} {f : σ → σ} {next : σ → Prog κ σ}
    (hp : s.progs i = .run f next) :
    ∃ s', Step s s' ∧ s'.shared = f s.shared ∧
      s'.progs i = next s.shared ∧ (∀ j ≠ i, s'.progs j = s.progs j) ∧ s'.holds = s.holds :=
  ⟨_, .run hp, rfl, Function.update_self .., fun _ hj => Function.update_of_ne hj .., rfl⟩

namespace Prog

/-- What a program does to the shared state when it runs alone. -/
def exec : Prog κ σ → σ → σ
  | done, x => x
  | acquire _ _ next, x => next.exec x
  | release _ next, x => next.exec x
  | run f next, x => (next x).exec (f x)

/-- The locks a program holds in the end. -/
def holdsAfter : Prog κ σ → σ → (κ → Option Mode) → κ → Option Mode
  | done, _, h => h
  | acquire l m next, x, h => next.holdsAfter x (Function.update h l (some m))
  | release l next, x, h => next.holdsAfter x (Function.update h l none)
  | run f next, x, h => (next x).holdsAfter (f x) h

end Prog

/-- While no other task holds a lock, a task can run to its end. -/
theorem run_alone {i : ι} : ∀ (p : Prog κ σ) {s : State ι κ σ}, s.progs i = p →
    (∀ j ≠ i, ∀ l, s.holds j l = none) →
    Reachable s ⟨p.exec s.shared, Function.update s.progs i .done,
      Function.update s.holds i (p.holdsAfter s.shared (s.holds i))⟩
  | .done, s, hp, _ => by
    rw [← hp, Function.update_eq_self]
    simp only [hp, Prog.exec, Prog.holdsAfter, Function.update_eq_self]
    exact .refl
  | .acquire l m next, s, hp, hfree => by
    have hstep := Step.acquire hp fun j hj => by rw [hfree j hj l]; trivial
    refine .head hstep ?_
    have hrest := run_alone (i := i) next (s := ⟨s.shared, Function.update s.progs i next,
      Function.update s.holds i (Function.update (s.holds i) l (some m))⟩)
      (Function.update_self ..) fun j hj l' => by simp [hj, hfree j hj l']
    simp only [Function.update_idem, Function.update_self] at hrest
    exact hrest
  | .release l next, s, hp, hfree => by
    refine .head (Step.release hp) ?_
    have hrest := run_alone (i := i) next (s := ⟨s.shared, Function.update s.progs i next,
      Function.update s.holds i (Function.update (s.holds i) l none)⟩)
      (Function.update_self ..) fun j hj l' => by simp [hj, hfree j hj l']
    simp only [Function.update_idem, Function.update_self] at hrest
    exact hrest
  | .run f next, s, hp, hfree => by
    refine .head (Step.run hp) ?_
    have hrest := run_alone (i := i) (next s.shared) (s := ⟨f s.shared,
      Function.update s.progs i (next s.shared), s.holds⟩) (Function.update_self ..) hfree
    simp only [Function.update_idem] at hrest
    exact hrest

end Locks
