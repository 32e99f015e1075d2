import Mathlib

/-!
# Cutting a list at a separator
-/

namespace Split

theorem exists_mem_splitOn {α : Type*} [DecidableEq α] {a c : α} (hne : c ≠ a) :
    ∀ l : List α, (∃ part ∈ l.splitOn a, c ∈ part) ↔ c ∈ l
  | [] => by simp
  | x :: l => by
    rw [List.splitOn_cons_eq_if_modifyHead]
    have ih := exists_mem_splitOn hne l
    by_cases hx : x = a
    · rw [if_pos (beq_iff_eq.2 hx)]
      simp only [List.mem_cons, exists_eq_or_imp, List.not_mem_nil, false_or, ih]
      constructor
      · exact .inr
      · rintro (rfl | h)
        · exact absurd hx hne
        · exact h
    · rw [if_neg (by simpa using hx)]
      rcases hs : l.splitOn a with _ | ⟨part, parts⟩
      · exact absurd hs (List.splitOn_ne_nil a l)
      · rw [hs] at ih
        rw [List.modifyHead_cons]
        simp only [List.mem_cons, exists_eq_or_imp] at ih ⊢
        rw [← ih, or_assoc]

theorem not_mem_of_mem_splitOn {α : Type*} [DecidableEq α] {a : α} :
    ∀ {l part : List α}, part ∈ l.splitOn a → a ∉ part
  | [], part, h => by
    rw [List.splitOn_nil, List.mem_singleton] at h
    rw [h]
    exact List.not_mem_nil
  | x :: l, part, h => by
    rw [List.splitOn_cons_eq_if_modifyHead] at h
    split_ifs at h with hx
    · rcases List.mem_cons.1 h with rfl | h
      · exact List.not_mem_nil
      · exact not_mem_of_mem_splitOn h
    · rcases hs : l.splitOn a with _ | ⟨first, parts⟩
      · exact absurd hs (List.splitOn_ne_nil a l)
      · rw [hs, List.modifyHead_cons] at h
        rcases List.mem_cons.1 h with rfl | h
        · rw [List.mem_cons, not_or]
          refine ⟨fun ha => hx (beq_iff_eq.2 ha.symm), ?_⟩
          exact not_mem_of_mem_splitOn (hs ▸ List.mem_cons_self)
        · exact not_mem_of_mem_splitOn (hs ▸ List.mem_cons_of_mem _ h)

theorem splitOn_map {α β : Type*} [DecidableEq α] [DecidableEq β] {f : α → β} {a : α} {b : β}
    (hf : ∀ c, f c = b ↔ c = a) :
    ∀ l : List α, (l.map f).splitOn b = (l.splitOn a).map (List.map f)
  | [] => rfl
  | x :: l => by
    rw [List.map_cons, List.splitOn_cons_eq_if_modifyHead, List.splitOn_cons_eq_if_modifyHead,
      splitOn_map hf l]
    by_cases hx : x = a
    · rw [if_pos (beq_iff_eq.2 hx), if_pos (beq_iff_eq.2 ((hf x).2 hx))]
      rfl
    · rw [if_neg fun h => hx (beq_iff_eq.1 h), if_neg fun h => hx ((hf x).1 (beq_iff_eq.1 h))]
      rcases l.splitOn a <;> rfl

/-! ## A part of a list, by the pieces between the separators -/

section Pieces

variable {α : Type*} {ps qs : List (List α)}

/-- The pieces stand first among the others, the last of them perhaps only as the beginning of
one. -/
def Opens (ps qs : List (List α)) : Prop :=
  ∃ front last q rest, ps = front ++ [last] ∧ qs = front ++ q :: rest ∧ last <+: q

/-- The pieces stand last among the others, the first of them perhaps only as the end of one. -/
def Closes (ps qs : List (List α)) : Prop :=
  ∃ first tail before q, ps = first :: tail ∧ qs = before ++ q :: tail ∧ first <:+ q

/-- The pieces stand in a row among the others, the first of them perhaps only as the end of one
and the last as the beginning of one. -/
def Within (ps qs : List (List α)) : Prop := ∃ rs, Closes rs qs ∧ Opens ps rs

/-- The pieces stand in a row before another piece, the first of them perhaps only as the end of
one. -/
def Precedes (ps qs : List (List α)) : Prop := ∃ q rest, Closes (ps ++ q :: rest) qs

/-! A single piece stands in one piece. -/

variable {p : List α}

theorem opens_singleton : Opens [p] qs ↔ ∃ q ∈ qs.head?, p <+: q := by
  constructor
  · rintro ⟨front, last, q, rest, hp, rfl, hq⟩
    obtain ⟨rfl, rfl⟩ := List.append_singleton_inj.1 (show [] ++ [p] = front ++ [last] from hp)
    exact ⟨q, rfl, hq⟩
  · rintro ⟨q, hq, hp⟩
    obtain ⟨rest, rfl⟩ := List.head?_eq_some_iff.1 hq
    exact ⟨[], p, q, rest, rfl, rfl, hp⟩

theorem closes_singleton : Closes [p] qs ↔ ∃ q ∈ qs.getLast?, p <:+ q := by
  constructor
  · rintro ⟨first, tail, before, q, hp, rfl, hq⟩
    obtain ⟨rfl, rfl⟩ := List.cons.inj hp
    exact ⟨q, List.getLast?_concat, hq⟩
  · rintro ⟨q, hq, hp⟩
    obtain ⟨before, rfl⟩ := List.getLast?_eq_some_iff.1 hq
    exact ⟨p, [], before, q, rfl, rfl, hp⟩

theorem within_singleton : Within [p] qs ↔ ∃ q ∈ qs, p <:+: q := by
  constructor
  · rintro ⟨rs, ⟨first, tail, before, q, rfl, rfl, hq⟩, hopens⟩
    obtain ⟨r, hr, hp⟩ := opens_singleton.1 hopens
    obtain rfl := Option.some.inj hr
    exact ⟨q, by simp, hp.isInfix.trans hq.isInfix⟩
  · rintro ⟨q, hq, hp⟩
    obtain ⟨before, rest, rfl⟩ := List.append_of_mem hq
    obtain ⟨m, hpm, hmq⟩ := List.infix_iff_prefix_suffix.1 hp
    exact ⟨m :: rest, ⟨m, rest, before, q, rfl, rfl, hmq⟩, [], p, m, rest, rfl, rfl, hpm⟩

theorem precedes_singleton : Precedes [p] qs ↔ ∃ q ∈ qs.dropLast, p <:+ q := by
  constructor
  · rintro ⟨r, rest, first, tail, before, q, hp, rfl, hq⟩
    obtain ⟨rfl, rfl⟩ := List.cons.inj hp
    refine ⟨q, ?_, hq⟩
    rw [List.dropLast_append_of_ne_nil (by simp), List.dropLast_cons_of_ne_nil (by simp)]
    simp
  · rintro ⟨q, hq, hp⟩
    obtain ⟨before, tail, hdrop⟩ := List.append_of_mem hq
    have hne : qs ≠ [] := by
      rintro rfl
      simp at hq
    have hlast := List.dropLast_append_getLast hne
    rw [hdrop, List.append_assoc, List.cons_append] at hlast
    obtain ⟨r, rest, hrest⟩ := List.exists_cons_of_ne_nil
      (List.append_ne_nil_of_right_ne_nil tail (List.cons_ne_nil (qs.getLast hne) []))
    rw [hrest] at hlast
    exact ⟨r, rest, p, r :: rest, before, q, rfl, hlast.symm, hp⟩


variable [DecidableEq α] {a : α} {l m t x y : List α} {front rest : List (List α)}

/-- Pieces that stand last are those of a list. -/
theorem Closes.splitOn_intercalate (h : Closes ps (t.splitOn a)) :
    ([a].intercalate ps).splitOn a = ps := by
  obtain ⟨first, tail, before, q, rfl, ht, hq⟩ := h
  refine List.splitOn_intercalate a (fun part hpart => ?_) (by simp)
  have hpieces : ∀ r ∈ before ++ q :: tail, a ∉ r := fun r hr => not_mem_of_mem_splitOn (ht ▸ hr)
  rcases List.mem_cons.1 hpart with rfl | hpart
  · exact fun ha => hpieces q (by simp) (hq.subset ha)
  · exact hpieces part (by simp [hpart])

end Pieces

end Split
