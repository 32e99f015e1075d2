import Mathlib

/-!
# Globs

A pattern matches a text if the text is the pattern with some text in the place of each star.
-/

namespace Glob

variable {α : Type*} [DecidableEq α] {star : α} {p q s : List α}

/-- The text is the pattern with some text for each star. -/
def Matches (star : α) : List α → List α → Prop
  | [], s => s = []
  | c :: p, s =>
    if c = star then ∃ u v, s = u ++ v ∧ Matches star p v
    else ∃ v, s = c :: v ∧ Matches star p v

theorem matches_nil : Matches star [] s ↔ s = [] := Iff.rfl

theorem matches_star_cons :
    Matches star (star :: p) s ↔ ∃ u v, s = u ++ v ∧ Matches star p v := by
  rw [Matches, if_pos rfl]

theorem matches_cons_of_ne {c : α} (hc : c ≠ star) :
    Matches star (c :: p) s ↔ ∃ v, s = c :: v ∧ Matches star p v := by
  rw [Matches, if_neg hc]

/-- Appended patterns match appended texts. -/
theorem matches_append : Matches star (p ++ q) s ↔
    ∃ u v, s = u ++ v ∧ Matches star p u ∧ Matches star q v := by
  induction p generalizing s with
  | nil => simp [matches_nil]
  | cons c p ih =>
    rw [List.cons_append]
    by_cases hc : c = star
    · subst hc
      simp only [matches_star_cons, ih]
      constructor
      · rintro ⟨u, _, rfl, v, w, rfl, hv, hw⟩
        exact ⟨u ++ v, w, (List.append_assoc u v w).symm, ⟨u, v, rfl, hv⟩, hw⟩
      · rintro ⟨_, w, rfl, ⟨u, v, rfl, hv⟩, hw⟩
        exact ⟨u, v ++ w, List.append_assoc u v w, v, w, rfl, hv, hw⟩
    · simp only [matches_cons_of_ne hc, ih]
      constructor
      · rintro ⟨_, rfl, v, w, rfl, hv, hw⟩
        exact ⟨c :: v, w, rfl, ⟨v, rfl, hv⟩, hw⟩
      · rintro ⟨_, w, rfl, ⟨v, rfl, hv⟩, hw⟩
        exact ⟨v ++ w, rfl, v, w, rfl, hv, hw⟩

/-- A pattern without stars matches itself only. -/
theorem matches_of_not_mem (h : star ∉ p) : Matches star p s ↔ s = p := by
  induction p generalizing s with
  | nil => exact matches_nil
  | cons c p ih =>
    obtain ⟨hc, hp⟩ := not_or.1 (mt List.mem_cons.2 h)
    rw [matches_cons_of_ne (Ne.symm hc)]
    simp [ih hp]

theorem matches_star_append (h : star ∉ p) : Matches star (star :: p) s ↔ p <:+ s := by
  simp only [matches_star_cons, matches_of_not_mem h, exists_eq_right]
  exact ⟨fun ⟨u, hu⟩ => ⟨u, hu.symm⟩, fun ⟨u, hu⟩ => ⟨u, hu.symm⟩⟩

theorem matches_append_star (h : star ∉ p) : Matches star (p ++ [star]) s ↔ p <+: s := by
  simp only [matches_append, matches_of_not_mem h, matches_star_cons, matches_nil]
  constructor
  · rintro ⟨_, v, rfl, rfl, -⟩
    exact List.prefix_append _ v
  · rintro ⟨v, rfl⟩
    exact ⟨p, v, rfl, rfl, v, [], (List.append_nil v).symm, rfl⟩

/-- A pattern matches what it is with one and the same entry for each star. -/
theorem matches_map (a : α) (p : List α) :
    Matches star p (p.map fun c => if c = star then a else c) := by
  induction p with
  | nil => rfl
  | cons c p ih =>
    by_cases hc : c = star
    · subst hc
      exact matches_star_cons.2 ⟨[a], _, by simp, ih⟩
    · exact (matches_cons_of_ne hc).2 ⟨_, by simp [hc], ih⟩

end Glob
