import Mathlib

/-!
# Slots that keep what they have

A value that is put in a slot stays out if the slot has one already, and clearing empties it. Which
of several operations comes last decides what is left, and so does which of the values comes first;
the `exists_perm` theorems say what some order of the operations can leave.
-/

namespace Slot

variable {α β : Type*}

inductive Op (α : Type*)
  | put (a : α)
  | clear

namespace Op

def act : Option α → Op α → Option α
  | some a, put _ => some a
  | none, put a => some a
  | _, clear => none

@[simp] theorem act_clear (v : Option α) : act v clear = none := by cases v <;> rfl

@[simp] theorem act_none_put (a : α) : act none (put a) = some a := rfl

end Op

open Op

variable {ops : List (Op α)} {v : Option α}

/-- What is there stays while nothing is cleared. -/
theorem foldl_some (h : clear ∉ ops) (a : α) : ops.foldl act (some a) = some a := by
  induction ops with
  | nil => rfl
  | cons op ops ih =>
    cases op with
    | put b => exact ih fun hc => h (List.mem_cons_of_mem _ hc)
    | clear => exact absurd List.mem_cons_self h

/-- Without clearing, the first value put stays. -/
theorem foldl_none (h : clear ∉ ops) : ops.foldl act none = none ∧ ops = [] ∨
    ∃ a, put a ∈ ops ∧ ops.foldl act none = some a := by
  cases ops with
  | nil => exact .inl ⟨rfl, rfl⟩
  | cons op ops =>
    cases op with
    | put a =>
      exact .inr ⟨a, List.mem_cons_self, foldl_some (fun hc => h (List.mem_cons_of_mem _ hc)) a⟩
    | clear => exact absurd List.mem_cons_self h

/-- After a clearing there is nothing, or a value that was put. -/
theorem foldl_of_clear (h : clear ∈ ops) : ops.foldl act v = none ∨
    ∃ a, put a ∈ ops ∧ ops.foldl act v = some a := by
  induction ops using List.reverseRecOn with
  | nil => cases h
  | append_singleton ops op ih =>
    rw [List.foldl_append, List.foldl_cons, List.foldl_nil]
    cases op with
    | clear => exact .inl (act_clear _)
    | put b =>
      have hmem : clear ∈ ops := by
        rcases List.mem_append.1 h with h | h
        · exact h
        · cases List.mem_singleton.1 h
      rcases ih hmem with hn | ⟨a, ha, hs⟩
      · rw [hn]
        exact .inr ⟨b, List.mem_append_right _ List.mem_cons_self, rfl⟩
      · rw [hs]
        exact .inr ⟨a, List.mem_append_left _ ha, rfl⟩

theorem perm_snoc_of_mem {op : Op α} (h : op ∈ ops) : ∃ rest, (rest ++ [op]).Perm ops := by
  obtain ⟨l, r, rfl⟩ := List.append_of_mem h
  refine ⟨l ++ r, (List.perm_append_singleton op (l ++ r)).trans ?_⟩
  exact List.perm_middle.symm

/-- What may be left of operations one of which clears. -/
theorem exists_perm_of_clear (h : clear ∈ ops) {w : Option α} :
    (∃ σ : List (Op α), σ.Perm ops ∧ σ.foldl act v = w) ↔
      w = none ∨ ∃ a, put a ∈ ops ∧ w = some a := by
  constructor
  · rintro ⟨σ, hσ, rfl⟩
    rcases foldl_of_clear (v := v) (hσ.mem_iff.2 h) with hn | ⟨a, ha, hs⟩
    · exact .inl hn
    · exact .inr ⟨a, hσ.mem_iff.1 ha, hs⟩
  · rintro (rfl | ⟨a, ha, rfl⟩)
    · obtain ⟨rest, hrest⟩ := perm_snoc_of_mem h
      refine ⟨rest ++ [clear], hrest, ?_⟩
      rw [List.foldl_append, List.foldl_cons, List.foldl_nil, act_clear]
    · obtain ⟨rest, hrest⟩ := perm_snoc_of_mem ha
      have hclear : clear ∈ rest := by
        rcases List.mem_append.1 (hrest.mem_iff.2 h) with hc | hc
        · exact hc
        · cases List.mem_singleton.1 hc
      obtain ⟨rest', hrest'⟩ := perm_snoc_of_mem hclear
      refine ⟨rest' ++ [clear] ++ [put a], (hrest'.append_right [put a]).trans hrest, ?_⟩
      simp only [List.foldl_append, List.foldl_cons, List.foldl_nil, act_clear, act_none_put]

theorem exists_perm_some (h : clear ∉ ops) {a : α} {w : Option α} :
    (∃ σ : List (Op α), σ.Perm ops ∧ σ.foldl act (some a) = w) ↔ w = some a := by
  constructor
  · rintro ⟨σ, hσ, rfl⟩
    exact foldl_some (fun hc => h (hσ.mem_iff.1 hc)) a
  · rintro rfl
    exact ⟨ops, .refl ops, foldl_some h a⟩

theorem exists_perm_none (h : clear ∉ ops) {w : Option α} :
    (∃ σ : List (Op α), σ.Perm ops ∧ σ.foldl act none = w) ↔
      (ops = [] ∧ w = none) ∨ ∃ a, put a ∈ ops ∧ w = some a := by
  constructor
  · rintro ⟨σ, hσ, rfl⟩
    rcases foldl_none (fun hc => h (hσ.mem_iff.1 hc)) with ⟨hn, rfl⟩ | ⟨a, ha, hs⟩
    · exact .inl ⟨List.nil_perm.1 hσ, hn⟩
    · exact .inr ⟨a, hσ.mem_iff.1 ha, hs⟩
  · rintro (⟨rfl, rfl⟩ | ⟨a, ha, rfl⟩)
    · exact ⟨[], .refl [], rfl⟩
    · obtain ⟨l, r, rfl⟩ := List.append_of_mem ha
      refine ⟨put a :: (l ++ r), List.perm_middle.symm, foldl_some (fun hc => h ?_) a⟩
      rcases List.mem_append.1 hc with hc | hc
      · exact List.mem_append_left _ hc
      · exact List.mem_append_right _ (List.mem_cons_of_mem _ hc)

/-- An order of the images is that of an order of the elements. -/
theorem exists_perm_filterMap {f : β → Option α} {τ m : List α} (h : τ.Perm m) :
    ∀ l : List β, l.filterMap f = m → ∃ σ : List β, σ.Perm l ∧ σ.filterMap f = τ := by
  induction h with
  | nil => exact fun l hl => ⟨l, .refl l, hl⟩
  | cons a _ ih =>
    intro l hl
    obtain ⟨pre, x, post, rfl, hpre, hx, hpost⟩ := List.filterMap_eq_cons_iff.1 hl
    obtain ⟨σ, hσ, hτ⟩ := ih post hpost
    refine ⟨pre ++ x :: σ, (hσ.cons x).append_left pre, ?_⟩
    rw [List.filterMap_append, List.filterMap_cons_some hx, List.filterMap_eq_nil_iff.2 hpre, hτ]
    rfl
  | swap a b rest =>
    intro l hl
    obtain ⟨pre, x, post, rfl, hpre, hx, hpost⟩ := List.filterMap_eq_cons_iff.1 hl
    obtain ⟨pre', y, post', rfl, hpre', hy, hpost'⟩ := List.filterMap_eq_cons_iff.1 hpost
    refine ⟨pre ++ y :: x :: (pre' ++ post'), ?_, ?_⟩
    · refine List.Perm.append_left pre ((List.Perm.swap x y _).trans ?_)
      exact List.perm_middle.symm.cons x
    · rw [List.filterMap_append, List.filterMap_cons_some hy, List.filterMap_cons_some hx,
        List.filterMap_append, List.filterMap_eq_nil_iff.2 hpre, List.filterMap_eq_nil_iff.2 hpre',
        hpost']
      rfl
  | trans _ _ ih₁ ih₂ =>
    intro l hl
    obtain ⟨σ₂, hσ₂, hτ₂⟩ := ih₂ l hl
    obtain ⟨σ₁, hσ₁, hτ₁⟩ := ih₁ σ₂ hτ₂
    exact ⟨σ₁, hσ₁.trans hσ₂, hτ₁⟩

end Slot
