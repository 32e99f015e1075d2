import Mathlib

/-!
# Broadcast channels with a bounded buffer

Every value sent on a channel is seen by every receiver made before it, in order, unless the
receiver falls more than the capacity behind: then it skips to the oldest value kept. What a
receiver is still to see is `pending`.
-/

namespace Broadcast

variable {α : Type*}

structure Channel (α : Type*) where
  sent : List α
  /-- The last sender is gone. -/
  closed : Bool

/-- What trying to receive answers. -/
inductive TryRecv (α : Type*)
  | ok (a : α)
  | empty
  | lagged (missed : ℕ)
  | closed
  deriving DecidableEq

namespace Channel

def new : Channel α := ⟨[], false⟩

def send (ch : Channel α) (a : α) : Channel α := { ch with sent := ch.sent ++ [a] }

def close (ch : Channel α) : Channel α := { ch with closed := true }

/-- Tries to receive at a position, and moves it. -/
def tryRecv (capacity : ℕ) (ch : Channel α) (next : ℕ) : TryRecv α × ℕ :=
  match ch.sent[next]? with
  | none => (if ch.closed then .closed else .empty, next)
  | some a =>
    if capacity < ch.sent.length - next then
      (.lagged (ch.sent.length - capacity - next), ch.sent.length - capacity)
    else (.ok a, next + 1)

def pending (ch : Channel α) (next : ℕ) : List α := ch.sent.drop next

variable {ch : Channel α} {capacity next : ℕ} {a : α}

@[simp] theorem pending_length : ch.pending ch.sent.length = [] := List.drop_length

theorem pending_send (h : next ≤ ch.sent.length) :
    (ch.send a).pending next = ch.pending next ++ [a] :=
  List.drop_append_of_le_length h

theorem tryRecv_of_pending {rest : List α} (h : ch.pending next = a :: rest)
    (hcap : (ch.pending next).length ≤ capacity) :
    ch.tryRecv capacity next = (.ok a, next + 1) ∧ ch.pending (next + 1) = rest := by
  have hget : ch.sent[next]? = some a := by
    have := congrArg List.head? h
    rwa [pending, List.head?_drop] at this
  unfold pending at h hcap
  rw [List.length_drop] at hcap
  refine ⟨?_, ?_⟩
  · unfold tryRecv
    rw [hget]
    exact if_neg (by omega)
  · unfold pending
    rw [← List.drop_drop, h]
    rfl

/-- What is received was next to be seen. -/
theorem pending_of_tryRecv (h : (ch.tryRecv capacity next).1 = .ok a) :
    (ch.tryRecv capacity next).2 = next + 1 ∧ next < ch.sent.length ∧
      ch.pending next = a :: ch.pending (next + 1) := by
  unfold tryRecv at h ⊢
  rcases hget : ch.sent[next]? with _ | x
  · rw [hget] at h
    simp only at h
    split_ifs at h
  · rw [hget] at h
    simp only at h ⊢
    split_ifs at h ⊢
    obtain ⟨hlt, rfl⟩ := List.getElem?_eq_some_iff.1 hget
    cases h
    exact ⟨rfl, hlt, List.drop_eq_getElem_cons hlt⟩

theorem pending_of_tryRecv_empty (h : (ch.tryRecv capacity next).1 = .empty) :
    ch.pending next = [] := by
  unfold tryRecv at h
  split at h
  · exact List.drop_eq_nil_of_le (List.getElem?_eq_none_iff.1 ‹_›)
  · split_ifs at h

theorem tryRecv_eq_closed (h : (ch.tryRecv capacity next).1 = .closed) : ch.closed = true := by
  unfold tryRecv at h
  split at h
  · by_contra hc
    simp [hc] at h
  · split_ifs at h

theorem tryRecv_eq_lagged {missed : ℕ} (h : (ch.tryRecv capacity next).1 = .lagged missed) :
    capacity < (ch.pending next).length := by
  unfold tryRecv at h
  unfold pending
  rw [List.length_drop]
  split at h
  · split_ifs at h
  · split_ifs at h with hlt
    exact hlt

theorem tryRecv_of_lagging (h : capacity < (ch.pending next).length) :
    ∃ missed, (ch.tryRecv capacity next).1 = .lagged missed := by
  unfold pending at h
  rw [List.length_drop] at h
  unfold tryRecv
  rw [List.getElem?_eq_getElem (by omega : next < ch.sent.length)]
  simp only [if_pos h]
  exact ⟨_, rfl⟩

theorem tryRecv_of_pending_nil (capacity : ℕ) (h : ch.pending next = []) :
    ch.tryRecv capacity next = (if ch.closed then .closed else .empty, next) := by
  unfold tryRecv
  rw [List.getElem?_eq_none (List.drop_eq_nil_iff.1 h)]

end Channel

end Broadcast
