import AmbientFs.Lib.Run
import AmbientFs.Watches

/-!
# Watched and registered

The watched paths and those registered in the notify watcher stay the same set through calls of
which none starts the watcher while paths are watched, unless notify fails and has changed its
registration all the same (`coherent_iff`). A start that succeeds forgets the registrations and
keeps the map, whether the paths were watched before the first start or between two.
-/

namespace AmbientFs

open Watching (Contains)

@[simp] theorem contains_nil (p : PathBuf) : ¬ Contains [] p := by
  simp [Contains]

theorem contains_append (l l' : List PathBuf) (p : PathBuf) :
    Contains (l ++ l') p ↔ Contains l p ∨ Contains l' p := by
  simp [Contains, or_and_right, exists_or]

theorem contains_singleton (q p : PathBuf) : Contains [q] p ↔ q.Same p := by
  simp [Contains]

theorem contains_congr {l : List PathBuf} {p q : PathBuf} (h : p.Same q) :
    Contains l p ↔ Contains l q := by
  constructor
  · rintro ⟨r, hr, hs⟩
    exact ⟨r, hr, hs.trans h⟩
  · rintro ⟨r, hr, hs⟩
    exact ⟨r, hr, hs.trans h.symm⟩

/-- Taking a path out of a list takes out those that are the same. -/
theorem contains_filter (l : List WatchedPath) (q p : PathBuf) :
    Contains ((l.filter fun e => ¬ e.path.Same q).map WatchedPath.path) p ↔
      Contains (l.map WatchedPath.path) p ∧ ¬ q.Same p := by
  simp only [Contains, List.mem_map, List.mem_filter, decide_eq_true_eq]
  constructor
  · rintro ⟨_, ⟨e, ⟨he, hq⟩, rfl⟩, hp⟩
    exact ⟨⟨_, ⟨e, he, rfl⟩, hp⟩, fun h => hq (hp.trans h.symm)⟩
  · rintro ⟨⟨_, ⟨e, he, rfl⟩, hp⟩, hq⟩
    exact ⟨_, ⟨e, ⟨he, fun h => hq (h.symm.trans hp)⟩, rfl⟩, hp⟩

namespace NotifyWatcher

theorem contains_setRegistered_true (n : NotifyWatcher) (e : WatchedPath) (p : PathBuf) :
    Contains (n.setRegistered e true).paths p ↔ Contains n.paths p ∨ e.path.Same p := by
  simp [setRegistered, paths, contains_append, contains_singleton]

theorem contains_setRegistered_false (n : NotifyWatcher) (e : WatchedPath) (p : PathBuf) :
    Contains (n.setRegistered e false).paths p ↔ Contains n.paths p ∧ ¬ e.path.Same p :=
  contains_filter n.registered e.path p

@[simp] theorem setRegistered_tx (n : NotifyWatcher) (e : WatchedPath) (b : Bool) :
    (n.setRegistered e b).tx = n.tx := by
  cases b <;> rfl

/-- Registering what is registered, or the other way round, changes no path. -/
theorem contains_setRegistered_self {n : NotifyWatcher} {e : WatchedPath} {b : Bool}
    (h : b = true ↔ Contains n.paths e.path) (p : PathBuf) :
    Contains (n.setRegistered e b).paths p ↔ Contains n.paths p := by
  cases b with
  | true =>
    rw [contains_setRegistered_true, or_iff_left_of_imp]
    exact fun hp => (contains_congr hp).1 (h.1 rfl)
  | false =>
    rw [contains_setRegistered_false, and_iff_left_of_imp]
    intro hp hs
    exact absurd (h.2 ((contains_congr hs).2 hp)) Bool.false_ne_true

theorem contains_setRegistered (n : NotifyWatcher) (e : WatchedPath) (b : Bool) :
    Contains (n.setRegistered e b).paths e.path ↔ b = true := by
  cases b with
  | true => simp [contains_setRegistered_true, PathBuf.Same.refl]
  | false => simp [contains_setRegistered_false, PathBuf.Same.refl]

/-- An answer that is an error leaves the path registered or not, as it was. -/
def Unchanged (n : NotifyWatcher) (path : PathBuf) (answer : NotifyAnswer) : Prop :=
  ∀ text registered, answer = .failed text registered →
    (registered = true ↔ Contains n.paths path)

theorem not_unchanged {n : NotifyWatcher} {path : PathBuf} {answer : NotifyAnswer}
    (h : ¬ n.Unchanged path answer) : ∃ text registered, answer = .failed text registered ∧
      ¬ (registered = true ↔ Contains n.paths path) := by
  unfold Unchanged at h
  push Not at h
  obtain ⟨text, registered, ha, h⟩ := h
  exact ⟨text, registered, ha, by tauto⟩

end NotifyWatcher

/-- The error of notify, if there is one. -/
def NotifyAnswer.error : NotifyAnswer → Option String
  | done => none
  | failed text _ => some text

namespace Watches

variable (w : Watches)

/-- A call gets as far as asking notify to watch. -/
def AsksWatch (path : PathBuf) (look : PathLook) : Prop :=
  path.isAbsolute = true ∧ look.pathExists = true ∧ ¬ Contains w.watchedPaths path

theorem watch_of_not_asks {path : PathBuf} {look : PathLook} (h : ¬ w.AsksWatch path look)
    (answer : NotifyAnswer) : (w.watch path look answer).1 = w := by
  unfold watch
  split_ifs with h₁ h₂ h₃
  · rfl
  · rfl
  · rfl
  · exact absurd ⟨by simpa using h₁, by simpa using h₂, h₃⟩ h

theorem watch_of_asks {path : PathBuf} {look : PathLook} (h : w.AsksWatch path look)
    (answer : NotifyAnswer) : (w.watch path look answer).1 =
      match w.watcher with
      | none => { w with watched := w.watched ++ [⟨path, look.isDir⟩] }
      | some n =>
        match answer with
        | .done => { w with
            watcher := some (n.setRegistered ⟨path, look.isDir⟩ true)
            watched := w.watched ++ [⟨path, look.isDir⟩] }
        | .failed _ registered => { w with
            watcher := some (n.setRegistered ⟨path, look.isDir⟩ registered) } := by
  unfold watch
  rw [if_neg (by simp [h.1]), if_neg (by simp [h.2.1]), if_neg h.2.2]
  rcases w.watcher with _ | n
  · rfl
  · cases answer <;> rfl

theorem unwatch_of_not {path : PathBuf} (h : ¬ Contains w.watchedPaths path)
    (answer : NotifyAnswer) : (w.unwatch path answer).1 = w := by
  unfold unwatch
  rw [if_pos h]

theorem unwatch_of_contains {path : PathBuf} (h : Contains w.watchedPaths path)
    (answer : NotifyAnswer) : (w.unwatch path answer).1 =
      match w.watcher with
      | none => { w with watched := w.watched.filter fun p => ¬ p.path.Same path }
      | some n =>
        match answer with
        | .done => { w with
            watcher := some (n.setRegistered ⟨path, false⟩ false)
            watched := w.watched.filter fun p => ¬ p.path.Same path }
        | .failed _ registered => { w with
            watcher := some (n.setRegistered ⟨path, false⟩ registered) } := by
  unfold unwatch
  rw [if_neg (not_not.2 h)]
  rcases w.watcher with _ | n
  · rfl
  · cases answer <;> rfl

theorem contains_watchedPaths_append (entry : WatchedPath) (p : PathBuf) :
    Contains ({ w with watched := w.watched ++ [entry] } : Watches).watchedPaths p ↔
      Contains w.watchedPaths p ∨ entry.path.Same p := by
  simp [watchedPaths, contains_append, contains_singleton]

/-! ## The registry's watchers -/

/-- What the registry keeps of a watcher. -/
def toWatching (receiver : Bool) : Watching :=
  ⟨w.watcher.map NotifyWatcher.paths, w.watchedPaths, receiver⟩

theorem toWatching_start (channel : ℕ) (receiver : Bool) :
    (w.start channel none).1.toWatching true = (w.toWatching receiver).start := rfl

theorem toWatching_stop (receiver : Bool) :
    w.stop.toWatching receiver = (w.toWatching receiver).stop := rfl

/-- A watch of the registry's watcher is a watch. -/
theorem toWatching_watch (path : PathBuf) (look : PathLook) (answer : NotifyAnswer)
    (receiver : Bool) : (w.toWatching receiver).watch path look.pathExists answer.error =
      (w.watch path look answer).2.map fun _ =>
        (w.watch path look answer).1.toWatching receiver := by
  unfold watch Watching.watch
  have hw : (w.toWatching receiver).watched = w.watchedPaths := rfl
  rw [hw]
  split_ifs
  · rfl
  · rfl
  · rfl
  · rcases w with ⟨config, tx, _ | n, watched⟩
    · simp [toWatching, watchedPaths, Except.map]
    · cases answer with
      | done => simp [toWatching, watchedPaths, Except.map, NotifyAnswer.error, NotifyWatcher.watch,
          NotifyWatcher.setRegistered, NotifyWatcher.paths]
      | failed text registered => rfl

theorem map_path_filter (l : List WatchedPath) (path : PathBuf) :
    (l.filter fun p => ¬ p.path.Same path).map WatchedPath.path =
      (l.map WatchedPath.path).filter fun p => ¬ p.Same path := by
  rw [List.filter_map]
  rfl

theorem toWatching_unwatch (path : PathBuf) (answer : NotifyAnswer) (receiver : Bool) :
    (w.toWatching receiver).unwatch path answer.error =
      (w.unwatch path answer).2.map fun _ => (w.unwatch path answer).1.toWatching receiver := by
  unfold unwatch Watching.unwatch
  have hw : (w.toWatching receiver).watched = w.watchedPaths := rfl
  rw [hw]
  split_ifs
  · rcases w with ⟨config, tx, _ | n, watched⟩
    · simp only [toWatching, watchedPaths, Except.map, map_path_filter]
      rfl
    · cases answer with
      | done =>
        simp only [toWatching, watchedPaths, Except.map, NotifyAnswer.error, NotifyWatcher.unwatch,
          NotifyWatcher.setRegistered, NotifyWatcher.paths, Option.map_some, map_path_filter]
      | failed text registered => rfl
  · rfl

namespace Session

variable (s : Session)

/-- A live notify watcher has the watched paths registered, and reports on each of them to the
receiver of the latest start. -/
def Coherent : Prop := ∀ n, s.watches.watcher = some n →
  (∀ p, Contains s.watches.watchedPaths p ↔ Contains n.paths p) ∧
    ∀ p, Contains s.watches.watchedPaths p →
      ∀ env event, s.receiver = some (n.handle env event).1

/-- What the calls keep: the receiver is that of the live watcher, watched paths or none. -/
def Inv : Prop := ∀ n, s.watches.watcher = some n →
  (∀ p, Contains s.watches.watchedPaths p ↔ Contains n.paths p) ∧ s.receiver = some n.tx

/-- Paths are not watched where a start succeeds, and where notify fails it leaves its
registrations as they were. -/
def Keeps : Call → Prop
  | .start failure => failure = none → s.watches.watched = []
  | .watch path look answer => s.watches.AsksWatch path look →
      ∀ n, s.watches.watcher = some n → n.Unchanged path answer
  | .unwatch path answer => Contains s.watches.watchedPaths path →
      ∀ n, s.watches.watcher = some n → n.Unchanged path answer
  | .stop => True

variable {s}

theorem Inv.coherent (h : s.Inv) : s.Coherent :=
  fun n hn => ⟨(h n hn).1, fun _ _ _ _ => (h n hn).2⟩

theorem inv_new (config : FsWatcher) : (new config).Inv := by
  rintro n ⟨⟩

/-! ### One call -/

theorem Inv.start (h : s.Inv) {failure : Option String} (hk : s.Keeps (.start failure)) :
    (s.step (.start failure)).Inv := by
  rcases failure with _ | text
  · rintro n ⟨⟩
    have hw : s.watches.watched = [] := hk rfl
    refine ⟨fun p => ?_, rfl⟩
    change Contains (s.watches.watched.map _) p ↔ Contains [] p
    rw [hw]
    exact Iff.rfl
  · exact h

theorem Inv.watch (h : s.Inv) {path : PathBuf} {look : PathLook} {answer : NotifyAnswer}
    (hk : s.Keeps (.watch path look answer)) : (s.step (.watch path look answer)).Inv := by
  unfold Inv
  simp only [step]
  by_cases ha : s.watches.AsksWatch path look
  · rw [s.watches.watch_of_asks ha]
    rcases hw : s.watches.watcher with _ | n
    · simp
    obtain ⟨hp, hr⟩ := h n hw
    cases answer with
    | done =>
      rintro _ ⟨⟩
      refine ⟨fun p => ?_, by simpa using hr⟩
      rw [n.contains_setRegistered_true, ← hp]
      exact s.watches.contains_watchedPaths_append ⟨path, look.isDir⟩ p
    | failed text registered =>
      rintro _ ⟨⟩
      have hu := hk ha n hw text registered rfl
      refine ⟨fun p => ?_, by simpa using hr⟩
      rw [NotifyWatcher.contains_setRegistered_self hu]
      exact hp p
  · rw [s.watches.watch_of_not_asks ha]
    exact h

theorem Inv.unwatch (h : s.Inv) {path : PathBuf} {answer : NotifyAnswer}
    (hk : s.Keeps (.unwatch path answer)) : (s.step (.unwatch path answer)).Inv := by
  unfold Inv
  simp only [step]
  by_cases hc : Contains s.watches.watchedPaths path
  · rw [s.watches.unwatch_of_contains hc]
    rcases hw : s.watches.watcher with _ | n
    · simp
    obtain ⟨hp, hr⟩ := h n hw
    cases answer with
    | done =>
      rintro _ ⟨⟩
      refine ⟨fun p => ?_, by simpa using hr⟩
      rw [n.contains_setRegistered_false, ← hp]
      exact contains_filter s.watches.watched path p
    | failed text registered =>
      rintro _ ⟨⟩
      have hu := hk hc n hw text registered rfl
      refine ⟨fun p => ?_, by simpa using hr⟩
      rw [NotifyWatcher.contains_setRegistered_self hu]
      exact hp p
  · rw [s.watches.unwatch_of_not hc]
    exact h

theorem Inv.step (h : s.Inv) {c : Call} (hk : s.Keeps c) : (s.step c).Inv := by
  cases c with
  | start => exact h.start hk
  | watch => exact h.watch hk
  | unwatch => exact h.unwatch hk
  | stop => rintro n ⟨⟩

/-- A start that succeeds while paths are watched leaves them unregistered. -/
theorem not_coherent_start (hw : s.watches.watched ≠ []) : ¬ (s.step (.start none)).Coherent := by
  intro h
  obtain ⟨e, he⟩ := List.exists_mem_of_ne_nil _ hw
  have hp := (h _ rfl).1 e.path
  exact contains_nil e.path (hp.1 ⟨e.path, List.mem_map_of_mem he, .refl _⟩)

/-- A call of notify that fails and changes its registration parts it from the map. -/
theorem not_coherent_failed {n : NotifyWatcher} {entry : WatchedPath} {registered : Bool}
    (h : s.Inv) (hw : s.watches.watcher = some n)
    (hu : ¬ (registered = true ↔ Contains n.paths entry.path)) :
    ¬ Coherent { s with watches := { s.watches with
      watcher := some (n.setRegistered entry registered) } } := by
  intro hc
  have hp := (hc _ rfl).1 entry.path
  rw [n.contains_setRegistered] at hp
  exact hu (hp.symm.trans ((h n hw).1 entry.path))

theorem Inv.not_coherent (h : s.Inv) {c : Call} (hk : ¬ s.Keeps c) : ¬ (s.step c).Coherent := by
  cases c with
  | start failure =>
    simp only [Keeps, Classical.not_imp] at hk
    rw [hk.1]
    exact not_coherent_start hk.2
  | watch path look answer =>
    simp only [Keeps, Classical.not_imp, not_forall] at hk
    obtain ⟨ha, n, hw, hu⟩ := hk
    obtain ⟨text, registered, rfl, hne⟩ := NotifyWatcher.not_unchanged hu
    have hstep : s.step (.watch path look (.failed text registered)) = { s with
        watches := { s.watches with
          watcher := some (n.setRegistered ⟨path, look.isDir⟩ registered) } } := by
      simp only [Session.step, s.watches.watch_of_asks ha, hw]
    rw [hstep]
    exact not_coherent_failed h hw hne
  | unwatch path answer =>
    simp only [Keeps, Classical.not_imp, not_forall] at hk
    obtain ⟨hc, n, hw, hu⟩ := hk
    obtain ⟨text, registered, rfl, hne⟩ := NotifyWatcher.not_unchanged hu
    have hstep : s.step (.unwatch path (.failed text registered)) = { s with
        watches := { s.watches with
          watcher := some (n.setRegistered ⟨path, false⟩ registered) } } := by
      simp only [Session.step, s.watches.unwatch_of_contains hc, hw]
    rw [hstep]
    exact not_coherent_failed h hw hne
  | stop => exact absurd trivial hk

/-! ### Every sequence of calls -/

/-- The map and the registrations agree throughout exactly if no start succeeds while paths are
watched and no failure of notify changes a registration. -/
theorem coherent_iff (config : FsWatcher) (calls : List Call) :
    Run.Always step (new config) Coherent calls ↔ Run.Steps step (new config) Keeps calls :=
  Run.always_iff_steps (inv_new config) (fun _ h => h.coherent) (fun _ _ h hk => h.step hk)
    (fun _ _ h hk => h.not_coherent hk)

/-- A second start keeps the path in the map only. -/
theorem not_coherent_restart :
    ¬ Run.Always step (new ⟨⟨[]⟩, "p", "m", false, none, false⟩) Coherent
      [.start none, .watch (.ofString "/w") ⟨true, true⟩ .done, .start none] := by
  intro h
  refine not_coherent_start ?_ (h _ List.prefix_rfl)
  exact List.cons_ne_nil (⟨.ofString "/w", true⟩ : WatchedPath) []

end Session

end Watches

end AmbientFs
