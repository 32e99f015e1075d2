import Mathlib

/-!
# The last entry of a kind

A log grows at its end. The last of its entries that a predicate picks is what a later entry of
that kind takes the place of, and an entry of no other kind does.
-/

namespace Log

variable {α : Type*} {p q : α → Bool} {log : List α} {a : α}

def latest (p : α → Bool) (log : List α) : Option α := log.reverse.find? p

@[simp] theorem latest_snoc :
    latest p (log ++ [a]) = if p a then some a else latest p log := by
  unfold latest
  rw [List.reverse_append, List.reverse_singleton, List.singleton_append, List.find?_cons]
  cases p a <;> rfl

theorem mem_of_latest (h : latest p log = some a) : a ∈ log ∧ p a :=
  ⟨List.mem_reverse.1 (List.mem_of_find?_eq_some h), List.find?_some h⟩

theorem latest_eq_none : latest p log = none ↔ ∀ a ∈ log, p a = false := by
  unfold latest
  simp

/-- Entries of other kinds can be dropped. -/
theorem latest_filter (h : ∀ a ∈ log, p a → q a) : latest p (log.filter q) = latest p log := by
  induction log using List.reverseRecOn with
  | nil => rfl
  | append_singleton log a ih =>
    have ih' := ih fun b hb => h b (List.mem_append_left [a] hb)
    rw [List.filter_append, latest_snoc]
    by_cases hq : q a
    · rw [List.filter_cons_of_pos hq, List.filter_nil, latest_snoc, ih']
    · have hp : ¬ p a := fun hp => hq (h a (by simp) hp)
      rw [List.filter_cons_of_neg hq, List.filter_nil, List.append_nil, ih', if_neg hp]

/-- The last of the entries that are left, where all of that kind are left or none. -/
theorem latest_filter_of_not (h : ∀ a ∈ log, p a → q a = false) : latest p (log.filter q) = none :=
  latest_eq_none.2 fun a ha => by
    obtain ⟨hmem, hq⟩ := List.mem_filter.1 ha
    by_contra hp
    rw [h a hmem (by simpa using hp)] at hq
    cases hq

/-- Where the entries of a kind come in an order, none comes after the last. -/
theorem rel_latest {R : α → α → Prop} (hlog : log.Pairwise fun x y => p x → p y → R x y)
    (h : latest p log = some a) {x : α} (hx : x ∈ log) (hpx : p x) : x = a ∨ R x a := by
  induction log using List.reverseRecOn with
  | nil => cases hx
  | append_singleton log b ih =>
    obtain ⟨hinit, -, hlast⟩ := List.pairwise_append.1 hlog
    rw [latest_snoc] at h
    rcases List.mem_append.1 hx with hx' | hx'
    · split_ifs at h with hb
      · cases h
        exact .inr (hlast x hx' _ (List.mem_singleton_self _) hpx hb)
      · exact ih hinit h hx'
    · rw [List.mem_singleton.1 hx'] at hpx ⊢
      rw [if_pos hpx] at h
      exact .inl (Option.some.inj h)

end Log
