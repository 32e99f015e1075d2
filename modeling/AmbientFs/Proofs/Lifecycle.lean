import AmbientFs.Lifecycle

/-!
# Nothing stops the socket server

The shutdown channel is made by the task that runs the socket server, under the lock that it keeps
from then on. So no call has a sender of the channel: a signal ends the call of `run` and leaves the
task listening, and a call of `shutdown` waits for the lock for ever.
-/

namespace AmbientFs

namespace Lifecycle

variable {s : Lifecycle}

structure Inv (s : Lifecycle) : Prop where
  /-- The channel is only there for the task that holds the lock. -/
  unsent : s.holder = none → s.listener.shutdownTx = none
  zero : s.listener.shutdownTx.getD 0 = 0
  held : ∀ i seen, s.tasks i = some (.listening seen) → s.holder = some i ∧ seen = 0
  sender : ∀ i, s.runs i ≠ some (.select true)
  prepared : ∀ i, s.runs i = some .signals ∨ s.runs i = some .sender → s.listener.state = true
  spawned : ∀ i, (s.tasks i).isSome → s.listener.state = true

theorem inv_new : new.Inv := by
  refine ⟨fun _ => rfl, rfl, ?_, ?_, ?_, ?_⟩ <;> simp [new]

/-- Calls of `shutdown` and the flags are not looked at. -/
theorem Inv.flags (h : s.Inv) (running watching : Bool) (shutdowns : ℕ → Option ShutdownPoint) :
    (⟨running, watching, s.listener, s.holder, s.runs, s.tasks, shutdowns⟩ : Lifecycle).Inv :=
  ⟨h.unsent, h.zero, h.held, h.sender, h.prepared, h.spawned⟩

/-- A call goes on. -/
theorem Inv.setRun (h : s.Inv) (i : ℕ) {p : RunPoint} (hp : p ≠ .select true)
    (hs : p = .signals ∨ p = .sender → s.listener.state = true) : (s.setRun i p).Inv := by
  have hruns : ∀ k q, (s.setRun i p).runs k = some q → q = p ∨ s.runs k = some q := by
    intro k q hq
    by_cases hk : k = i
    · subst hk
      left
      simpa [Lifecycle.setRun, eq_comm] using hq
    · right
      simpa [Lifecycle.setRun, hk] using hq
  refine ⟨h.unsent, h.zero, h.held, fun k hk => ?_, fun k hk => ?_, h.spawned⟩
  · rcases hruns k _ hk with he | hk
    · exact hp he.symm
    · exact h.sender k hk
  · rcases hk with hk | hk <;> rcases hruns k _ hk with he | hk
    · exact hs (.inl he.symm)
    · exact h.prepared k (.inl hk)
    · exact hs (.inr he.symm)
    · exact h.prepared k (.inr hk)

/-- A task that does not listen. -/
theorem Inv.setTask (h : s.Inv) (i : ℕ) {p : TaskPoint} (hs : s.listener.state = true)
    (hp : ∀ seen, p ≠ .listening seen) : (s.setTask i p).Inv := by
  refine ⟨h.unsent, h.zero, fun k seen hk => ?_, h.sender, fun _ _ => hs, fun _ _ => hs⟩
  by_cases hki : k = i
  · subst hki
    exact absurd (by simpa [Lifecycle.setTask] using hk) (hp seen)
  · exact h.held k seen (by simpa [Lifecycle.setTask, hki] using hk)

/-- The listeners change, and the channel is as it was. -/
theorem Inv.setListener (h : s.Inv) {l : SocketListener} (hx : l.shutdownTx = s.listener.shutdownTx)
    (hs : l.state = true) : ({ s with listener := l } : Lifecycle).Inv := by
  refine ⟨fun hh => hx.trans (h.unsent hh), ?_, h.held, h.sender, fun _ _ => hs, fun _ _ => hs⟩
  show l.shutdownTx.getD 0 = 0
  rw [hx]
  exact h.zero

/-- Binding makes no channel. -/
theorem bind_spec {l l' : SocketListener} {binds : Bool} (h : l.bind binds = some l') :
    l' = { l with stdListener := true } := by
  unfold SocketListener.bind at h
  split_ifs at h
  cases h
  rfl

/-- With its state the socket server makes the channel exactly when it comes to its loop. -/
theorem run_spec {l : SocketListener} (converts : Bool) (hstate : l.state = true) :
    ((l.run converts).2 = none ∧ (l.run converts).1.shutdownTx = l.shutdownTx ∨
      (l.run converts).2 = some (l.shutdownTx.getD 0) ∧
        (l.run converts).1.shutdownTx = some (l.shutdownTx.getD 0)) ∧
    (l.run converts).1.state = true := by
  unfold SocketListener.run
  split_ifs <;> simp [hstate]

theorem Inv.runStep (h : s.Inv) {i : ℕ} {p : RunPoint} (hi : s.runs i = some p) (ok : Bool) :
    (s.runStep i ok p).Inv := by
  cases p with
  | check =>
    simp only [Lifecycle.runStep]
    split_ifs
    · exact h.setRun i (by simp) (by simp)
    · exact (h.flags _ _ _).setRun i (by simp) (by simp)
  | start =>
    simp only [Lifecycle.runStep]
    split_ifs
    · exact (h.flags _ _ _).setRun i (by simp) (by simp)
    · exact h.setRun i (by simp) (by simp)
  | restore =>
    simp only [Lifecycle.runStep]
    split_ifs <;> exact h.setRun i (by simp) (by simp)
  | bind =>
    simp only [Lifecycle.runStep]
    rcases hh : s.holder with _ | k
    swap
    · exact h
    rcases hb : s.listener.bind ok with _ | l
    · exact h.setRun i (by simp) (by simp)
    · have hl := h.setListener (l := l.setState) (by rw [bind_spec hb]; rfl) rfl
      rw [hh] at hl
      exact hl.setRun i (by simp) fun _ => rfl
  | signals =>
    have hs := h.prepared i (.inl hi)
    simp only [Lifecycle.runStep]
    split_ifs
    · exact h.setRun i (by simp) fun _ => hs
    · exact h.setRun i (by simp) (by simp)
  | sender =>
    have hs := h.prepared i (.inr hi)
    simp only [Lifecycle.runStep]
    rcases hh : s.holder with _ | k
    swap
    · exact h
    rw [h.unsent hh]
    have hrun := h.setRun i (p := .select false) (by simp) (by simp)
    exact hrun.setTask i hs (by simp)
  | select b =>
    simp only [Lifecycle.runStep]
    split
    · exact h.setRun i (by simp) (by simp)
    · exact h.setRun i (by simp) (by simp)
    · exact h
  | clear => exact (h.flags _ _ _).setRun i (by simp) (by simp)
  | stop => exact (h.flags _ _ _).setRun i (by simp) (by simp)
  | returned b => exact h

theorem Inv.taskStep (h : s.Inv) {i : ℕ} {p : TaskPoint} (hi : s.tasks i = some p) (ok : Bool) :
    (s.taskStep i ok p).Inv := by
  have hs := h.spawned i (by rw [hi]; rfl)
  cases p with
  | waiting =>
    simp only [Lifecycle.taskStep]
    rcases hh : s.holder with _ | k
    swap
    · exact h
    have hnone := h.unsent hh
    obtain ⟨hrun, hstate⟩ := run_spec ok hs
    rcases hl : s.listener.run ok with ⟨l, _ | seen⟩
    · rw [hl, hnone] at hrun
      rw [hl] at hstate
      have hx : l.shutdownTx = none := by simpa using hrun
      have hset := h.setListener (hx.trans hnone.symm) hstate
      rw [hh] at hset
      exact hset.setTask i hstate (by simp)
    · rw [hl, hnone] at hrun
      rw [hl] at hstate
      obtain ⟨rfl, hx⟩ : seen = 0 ∧ l.shutdownTx = some 0 := by simpa using hrun
      refine ⟨nofun, ?_, fun k seen' hk => ?_, h.sender, fun _ _ => hstate,
        fun _ _ => hstate⟩
      · show l.shutdownTx.getD 0 = 0
        rw [hx]
        rfl
      · by_cases hki : k = i
        · subst hki
          exact ⟨rfl, by simpa [Lifecycle.setTask, eq_comm] using hk⟩
        · have := (h.held k seen' (by simpa [Lifecycle.setTask, hki] using hk)).1
          rw [hh] at this
          cases this
  | listening seen =>
    have hlt : ¬ seen < s.listener.shutdownTx.getD 0 := by
      rw [h.zero]
      exact Nat.not_lt_zero _
    simp only [Lifecycle.taskStep, if_neg hlt]
    exact h
  | finished b => exact h

/-- There is no channel to send to where the lock is free. -/
theorem Inv.shutdown_eq (h : s.Inv) (hh : s.holder = none) :
    s.listener.shutdown = s.listener := by
  rw [SocketListener.shutdown, h.unsent hh, Option.map_none, ← h.unsent hh]

theorem Inv.shutdownStep (h : s.Inv) (j : ℕ) (p : ShutdownPoint) : (s.shutdownStep j p).Inv := by
  cases p with
  | clear => exact h.flags _ _ _
  | signal =>
    simp only [Lifecycle.shutdownStep]
    split
    · exact h
    · rw [h.shutdown_eq ‹_›]
      exact h.flags _ _ _
  | stop => exact h.flags _ _ _
  | returned => exact h

theorem Inv.step (h : s.Inv) (a : Action) : (s.step a).Inv := by
  cases a with
  | call i =>
    simp only [Lifecycle.step]
    split_ifs
    · exact h.setRun i (by simp) (by simp)
    · exact h
  | run i ok =>
    simp only [Lifecycle.step]
    rcases hi : s.runs i with _ | p
    · exact h
    · exact h.runStep hi ok
  | signal i =>
    simp only [Lifecycle.step, Lifecycle.signal]
    split
    · exact absurd ‹_› (h.sender i)
    · exact h.setRun i (by simp) (by simp)
    · exact h
  | task i ok =>
    simp only [Lifecycle.step]
    rcases hi : s.tasks i with _ | p
    · exact h
    · exact h.taskStep hi ok
  | shutdown j =>
    simp only [Lifecycle.step]
    split_ifs
    · exact h.flags _ _ _
    · exact h
  | shutdownStep j =>
    simp only [Lifecycle.step]
    rcases s.shutdowns j with _ | p
    · exact h
    · exact h.shutdownStep j p

theorem inv_after (as : List Action) : (Run.after step new as).Inv := by
  induction as using List.reverseRecOn with
  | nil => exact inv_new
  | append_singleton as a ih =>
    rw [Run.after_snoc]
    exact ih.step a

/-- The call of `shutdown` has not got past the lock of the socket server. -/
def Waits (s : Lifecycle) (j : ℕ) : Prop :=
  s.shutdowns j = none ∨ s.shutdowns j = some .clear ∨ s.shutdowns j = some .signal

/-- Nothing makes the daemon record events again. -/
structure Deaf (s : Lifecycle) : Prop where
  running : s.running = false
  check : ∀ i, s.runs i ≠ some .check

def Action.isCall : Action → Bool
  | .call _ => true
  | _ => false

section Held

variable {i : ℕ} {seen : ℕ}

theorem runs_setRun {k : ℕ} {p q : RunPoint} (h : (s.setRun k p).runs i = some q) :
    q = p ∨ s.runs i = some q := by
  by_cases hk : i = k
  · subst hk
    left
    simpa [setRun, eq_comm] using h
  · right
    simpa [setRun, hk] using h

/-- A step leaves the task that holds the lock listening. -/
theorem Inv.listening_step (h : s.Inv) (hi : s.tasks i = some (.listening seen)) (a : Action) :
    (s.step a).tasks i = some (.listening seen) := by
  obtain ⟨hheld, rfl⟩ := h.held i seen hi
  cases a with
  | call k =>
    simp only [Lifecycle.step]
    split_ifs <;> exact hi
  | run k ok =>
    simp only [Lifecycle.step]
    rcases hk : s.runs k with _ | p
    · exact hi
    cases p with
    | sender =>
      simp only [Option.map_some, Option.getD_some, Lifecycle.runStep, hheld]
      exact hi
    | _ =>
      simp only [Option.map_some, Option.getD_some, Lifecycle.runStep, hheld]
      repeat' split
      all_goals exact hi
  | signal k =>
    simp only [Lifecycle.step, signal]
    split <;> exact hi
  | task k ok =>
    simp only [Lifecycle.step]
    rcases hk : s.tasks k with _ | p
    · exact hi
    cases p with
    | waiting =>
      simp only [Option.map_some, Option.getD_some, Lifecycle.taskStep, hheld]
      exact hi
    | listening seen' =>
      have hlt : ¬ seen' < s.listener.shutdownTx.getD 0 := by
        rw [h.zero]
        exact Nat.not_lt_zero _
      simp only [Option.map_some, Option.getD_some, Lifecycle.taskStep, if_neg hlt]
      exact hi
    | finished b => exact hi
  | shutdown j =>
    simp only [Lifecycle.step]
    split_ifs <;> exact hi
  | shutdownStep j =>
    simp only [Lifecycle.step]
    rcases s.shutdowns j with _ | p
    · exact hi
    cases p with
    | signal =>
      simp only [Option.map_some, Option.getD_some, Lifecycle.shutdownStep, hheld]
      exact hi
    | _ => exact hi

/-- A call of `shutdown` waits as long as the lock is held. -/
theorem Inv.waits_step (h : s.Inv) (hi : s.tasks i = some (.listening seen)) {j : ℕ}
    (hj : s.Waits j) (a : Action) : (s.step a).Waits j := by
  have hheld := (h.held i seen hi).1
  cases a with
  | call k =>
    simp only [Lifecycle.step]
    split_ifs <;> exact hj
  | run k ok =>
    simp only [Lifecycle.step]
    rcases hk : s.runs k with _ | p
    · exact hj
    cases p <;> simp only [Option.map_some, Option.getD_some, Lifecycle.runStep, hheld]
    all_goals repeat' split
    all_goals exact hj
  | signal k =>
    simp only [Lifecycle.step, signal]
    split <;> exact hj
  | task k ok =>
    simp only [Lifecycle.step]
    rcases hk : s.tasks k with _ | p
    · exact hj
    cases p <;> simp only [Option.map_some, Option.getD_some, Lifecycle.taskStep, hheld]
    all_goals repeat' split
    all_goals exact hj
  | shutdown k =>
    simp only [Lifecycle.step]
    split_ifs with hk
    · by_cases hjk : j = k
      · exact .inr (.inl (by simp [Lifecycle.setShutdown, hjk]))
      · simpa [Waits, Lifecycle.setShutdown, hjk] using hj
    · exact hj
  | shutdownStep k =>
    simp only [Lifecycle.step]
    rcases hk : s.shutdowns k with _ | p
    · exact hj
    simp only [Option.map_some, Option.getD_some]
    by_cases hjk : j = k
    · subst hjk
      simp only [Waits, hk, reduceCtorEq, Option.some.injEq, false_or] at hj
      rcases hj with rfl | rfl
      · exact .inr (.inr (by simp [Lifecycle.shutdownStep, Lifecycle.setShutdown]))
      · simp only [Lifecycle.shutdownStep, hheld]
        exact .inr (.inr hk)
    · have hsame : (s.shutdownStep k p).shutdowns j = s.shutdowns j := by
        cases p <;> simp [Lifecycle.shutdownStep, Lifecycle.setShutdown, hjk, hheld]
      simpa [Waits, hsame] using hj

/-- No step but a call of `run` makes the daemon record again. -/
theorem Deaf.step (h : s.Deaf) {a : Action} (ha : a.isCall = false) : (s.step a).Deaf := by
  have hset : ∀ {t : Lifecycle} {k : ℕ} {p : RunPoint}, t.Deaf → p ≠ .check →
      (t.setRun k p).Deaf := by
    intro t k p ht hp
    refine ⟨ht.running, fun i hi => ?_⟩
    rcases runs_setRun hi with he | hi
    · exact hp he.symm
    · exact ht.check i hi
  cases a with
  | call k => cases ha
  | run k ok =>
    simp only [Lifecycle.step]
    rcases hk : s.runs k with _ | p
    · exact h
    cases p with
    | check => exact absurd hk (h.check k)
    | clear => exact hset (t := { s with running := false }) ⟨rfl, h.check⟩ (by simp)
    | stop => exact hset (t := { s with watching := false }) ⟨h.running, h.check⟩ (by simp)
    | start =>
      simp only [Option.map_some, Option.getD_some, runStep]
      split_ifs
      · exact hset (t := { s with watching := true }) ⟨h.running, h.check⟩ (by simp)
      · exact hset h (by simp)
    | sender =>
      simp only [Option.map_some, Option.getD_some, runStep]
      split
      · exact h
      · have := hset (k := k) (p := .select s.listener.shutdownTx.isSome) h (by simp)
        exact ⟨this.running, this.check⟩
    | _ =>
      simp only [Option.map_some, Option.getD_some, runStep]
      repeat' split
      all_goals first
        | exact h
        | exact hset h (by simp)
        | exact hset ⟨h.running, h.check⟩ (by simp)
  | signal k =>
    simp only [Lifecycle.step, signal]
    split
    · exact hset (t := { s with listener := s.listener.shutdown }) ⟨h.running, h.check⟩ (by simp)
    · exact hset h (by simp)
    · exact h
  | task k ok =>
    simp only [Lifecycle.step]
    rcases s.tasks k with _ | p
    · exact h
    cases p <;> simp only [Option.map_some, Option.getD_some, taskStep]
    all_goals repeat' split
    all_goals exact ⟨h.running, h.check⟩
  | shutdown j =>
    simp only [Lifecycle.step]
    split_ifs <;> exact ⟨h.running, h.check⟩
  | shutdownStep j =>
    simp only [Lifecycle.step]
    rcases s.shutdowns j with _ | p
    · exact h
    cases p with
    | clear => exact ⟨rfl, h.check⟩
    | signal =>
      simp only [Option.map_some, Option.getD_some, shutdownStep]
      split <;> exact ⟨h.running, h.check⟩
    | stop => exact ⟨h.running, h.check⟩
    | returned => exact h

/-- What holds of the daemon as long as task `i` runs the socket server. -/
theorem listening_after {s : Lifecycle} (h : s.Inv) (hi : s.tasks i = some (.listening seen))
    (as : List Action) : (Run.after step s as).Inv ∧
      (Run.after step s as).tasks i = some (.listening seen) ∧
      ∀ j, s.Waits j → (Run.after step s as).Waits j := by
  induction as using List.reverseRecOn with
  | nil => exact ⟨h, hi, fun _ hj => hj⟩
  | append_singleton as a ih =>
    obtain ⟨hinv, hlisten, hwaits⟩ := ih
    rw [Run.after_snoc]
    exact ⟨hinv.step a, hinv.listening_step hlisten a,
      fun j hj => hinv.waits_step hlisten (hwaits j hj) a⟩

theorem Deaf.after (h : s.Deaf) {as : List Action} (has : ∀ a ∈ as, a.isCall = false) :
    (Run.after Lifecycle.step s as).Deaf := by
  induction as using List.reverseRecOn with
  | nil => exact h
  | append_singleton as a ih =>
    rw [Run.after_snoc]
    exact (ih fun b hb => has b (by simp [hb])).step (has a (by simp))

/-- Once the socket server accepts connections nothing stops it: it goes on through signals and
calls of `shutdown`, of which those that have not got past its lock never return. And once the
daemon does not record events, it records none until `run` is called again. -/
theorem socket_server_unstoppable (as bs : List Action) (i seen : ℕ)
    (h : (Run.after step new as).tasks i = some (.listening seen)) :
    (Run.after step new (as ++ bs)).tasks i = some (.listening seen) ∧
    (∀ j, (Run.after step new as).Waits j → (Run.after step new (as ++ bs)).Waits j) ∧
    ((Run.after step new as).Deaf → (∀ b ∈ bs, b.isCall = false) →
      (Run.after step new (as ++ bs)).Deaf) := by
  rw [Run.after_append]
  obtain ⟨-, hlisten, hwaits⟩ := listening_after (inv_after as) h bs
  exact ⟨hlisten, hwaits, fun hdeaf hbs => hdeaf.after hbs⟩

/-- A daemon that listens, and has been told by a signal to stop. -/
def signalled : List Action :=
  [.call 0, .run 0 true, .run 0 true, .run 0 true, .run 0 true, .run 0 true, .run 0 true, .task 0 true,
    .signal 0, .run 0 true, .run 0 true]

theorem deaf_signalled : (Run.after step new signalled).Deaf where
  running := rfl
  check
    | 0, h => by cases h
    | i + 1, h => by cases h

/-- A call of `shutdown` after the signal waits for the lock, and no event is recorded. -/
theorem socket_server_unstoppable_signal :
    let s := Run.after step new
      (signalled ++ [.shutdown 0, .task 0 true, .shutdownStep 0, .shutdownStep 0, .task 0 true])
    s.tasks 0 = some (.listening 0) ∧ s.Waits 0 ∧ s.Deaf := by
  obtain ⟨hlisten, hwaits, hdeaf⟩ := socket_server_unstoppable signalled
    [.shutdown 0, .task 0 true, .shutdownStep 0, .shutdownStep 0, .task 0 true] 0 0 rfl
  exact ⟨hlisten, hwaits 0 (.inl rfl), hdeaf deaf_signalled (by decide)⟩

end Held

end Lifecycle

end AmbientFs
