import Mathlib

/-!
# Bounded buffers

A buffer of a capacity makes room for what is put in by dropping its oldest entry. It holds the last
entries of all that was put in.
-/

namespace Window

variable {α : Type*} {cap : ℕ}

/-- What is put in, the oldest first. -/
def push (cap : ℕ) (buffer : List α) (a : α) : List α :=
  (if cap ≤ buffer.length then buffer.tail else buffer) ++ [a]

theorem push_rtake (hcap : 0 < cap) (log : List α) (a : α) :
    push cap (log.rtake cap) a = (log ++ [a]).rtake cap := by
  obtain ⟨n, rfl⟩ := Nat.exists_eq_add_of_lt hcap
  rw [Nat.zero_add, List.rtake_concat_succ, push]
  congr 1
  simp only [List.rtake, List.length_drop]
  by_cases h : n + 1 ≤ log.length
  · rw [if_pos (by omega), List.tail_drop]
    congr 1
    omega
  · rw [if_neg (by omega)]
    congr 1
    omega

theorem foldl_push (hcap : 0 < cap) (log : List α) :
    log.foldl (push cap) [] = log.rtake cap := by
  induction log using List.reverseRecOn with
  | nil => rw [List.foldl_nil, List.rtake_nil]
  | append_singleton log a ih =>
    rw [List.foldl_append, ih]
    exact push_rtake hcap log a

end Window
