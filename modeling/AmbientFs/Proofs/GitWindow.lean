import AmbientFs.Lib.Run
import AmbientFs.Proofs.Attribution

/-!
# The window after a change of the git index

Each detection remembers the time the index had, and a detection attributes to git only if the
index is newer than that. So of the events of one git operation the first alone is git's.
A sequence of detections attributes to git what comes within five seconds of a change since the
first of them, exactly if each that comes in time finds the index changed since the one before
just where it is changed since the first (`git_window_iff`).
-/

namespace AmbientFs

/-- A change whose source is detected, with the time of the index and that of the clock. -/
structure GitCall where
  path : String
  mtime : ℤ
  now : ℤ

namespace GitCall

/-- Less than five seconds have passed since the index changed. -/
def InWindow (c : GitCall) : Prop := c.now - c.mtime < 5 * nanosPerSec

/-- The index is newer than at the call before, and not from the future. -/
def Fresh (prev c : GitCall) : Prop := prev.mtime < c.mtime ∧ c.mtime ≤ c.now

end GitCall

namespace EventAttributor

/-- The source detected for a call, and the attributor after it. -/
def detect (a : EventAttributor) (c : GitCall) : Source × EventAttributor :=
  a.detectSource c.path (.modified c.mtime) c.now

def observe (a : EventAttributor) (c : GitCall) : EventAttributor := (a.detect c).2

variable {a : EventAttributor} {c : GitCall} {m : ℤ}

theorem observe_eq (h : a.explicitSource = none) :
    a.observe c = { a with lastGitIndexMtime := some c.mtime } := by
  unfold observe detect detectSource isGitActive
  simp only [h]
  split_ifs <;> rfl

theorem detect_eq_git_iff (h : a.explicitSource = none) (hm : a.lastGitIndexMtime = some m) :
    (a.detect c).1 = .git ↔ m < c.mtime ∧ c.mtime ≤ c.now ∧ c.InWindow := by
  have hsec : (c.now - c.mtime) / nanosPerSec < 5 ↔ c.InWindow := by
    unfold GitCall.InWindow nanosPerSec
    omega
  have hgit : (a.isGitActive (.modified c.mtime) c.now).1 = true ↔
      m < c.mtime ∧ c.mtime ≤ c.now ∧ c.InWindow := by
    unfold isGitActive
    simp only [hm, Option.any_some, Bool.and_eq_true, decide_eq_true_eq, hsec]
    tauto
  rw [← hgit]
  unfold detect detectSource
  simp only [h]
  split_ifs <;> simp_all

/-- Whether a call is attributed as it should be is told by it and the one before. -/
theorem detect_eq_git_iff_changed {changed : Prop} (h : a.explicitSource = none)
    {prev : GitCall} (hm : a.lastGitIndexMtime = some prev.mtime) :
    ((a.detect c).1 = .git ↔ changed ∧ c.InWindow) ↔
      (c.InWindow → (prev.Fresh c ↔ changed)) := by
  rw [detect_eq_git_iff h hm]
  unfold GitCall.Fresh
  tauto

theorem steps_detect_iff {changed : GitCall → Prop} : ∀ (rest : List GitCall) {prev : GitCall}
    {a : EventAttributor}, a.explicitSource = none → a.lastGitIndexMtime = some prev.mtime →
      (Run.Steps observe a (fun a c => (a.detect c).1 = .git ↔ changed c ∧ c.InWindow) rest ↔
        List.IsChain (fun prev c => c.InWindow → (prev.Fresh c ↔ changed c)) (prev :: rest))
  | [], _, _, _, _ => iff_of_true Run.steps_nil (List.isChain_singleton _)
  | c :: rest, prev, a, h, hm => by
    have hnext := observe_eq (c := c) h
    rw [Run.steps_cons, List.isChain_cons_cons, detect_eq_git_iff_changed h hm,
      steps_detect_iff rest (show (a.observe c).explicitSource = none by rw [hnext, h])
        (show (a.observe c).lastGitIndexMtime = some c.mtime by rw [hnext])]

/-- After a first call, each call is attributed to git just if the index changed since the first
and less than five seconds before, exactly if each that comes in time finds a newer index than
the call before just if it finds another than the first. -/
theorem git_window_iff (patterns : BuildPatterns) (first : GitCall) (rest : List GitCall) :
    Run.Steps observe (observe ⟨none, patterns, none⟩ first)
        (fun a c => (a.detect c).1 = .git ↔ c.mtime ≠ first.mtime ∧ c.InWindow) rest ↔
      List.IsChain (fun prev c => c.InWindow → (prev.Fresh c ↔ c.mtime ≠ first.mtime))
        (first :: rest) := by
  have hfirst := observe_eq (a := ⟨none, patterns, none⟩) (c := first) rfl
  exact steps_detect_iff rest (by rw [hfirst]) (by rw [hfirst])

/-- Of two events of one git operation the second is the user's. -/
theorem git_window_second :
    ¬ Run.Steps observe (observe .new ⟨"a", 0, 0⟩)
      (fun a c => (a.detect c).1 = .git ↔ c.mtime ≠ 0 ∧ c.InWindow)
      [⟨"a", 10 * nanosPerSec, 11 * nanosPerSec⟩, ⟨"b", 10 * nanosPerSec, 11 * nanosPerSec⟩] := by
  intro h
  have hsecond := h [⟨"a", 10 * nanosPerSec, 11 * nanosPerSec⟩]
    ⟨"b", 10 * nanosPerSec, 11 * nanosPerSec⟩ List.prefix_rfl
  revert hsecond
  unfold GitCall.InWindow
  decide

end EventAttributor

end AmbientFs
