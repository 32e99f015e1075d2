import Mathlib

/-!
# Searching a list

`updateFirst` rewrites the first entry a predicate picks, in place, and hands back what the
rewriting function returned. `binarySearchBy` narrows a window by halves, so on a list that an
ordering partitions the index it returns separates the entries below from those above.
-/

namespace ListSearch

variable {α β : Type*} {l : List α}

/-- Rewrites the first entry with `p` by `f`, and returns what `f` returned beside it. -/
def updateFirst (p : α → Bool) (f : α → α × β) : List α → Option (List α × β)
  | [] => none
  | a :: as => if p a then some ((f a).1 :: as, (f a).2)
    else (updateFirst p f as).map fun r => (a :: r.1, r.2)

theorem updateFirst_of_none {p : α → Bool} {f : α → α × β} :
    ∀ {l : List α}, l.find? p = none → updateFirst p f l = none
  | [], _ => rfl
  | a :: as, h => by
    simp only [List.find?_eq_none, List.mem_cons, forall_eq_or_imp] at h
    rw [updateFirst, if_neg h.1, updateFirst_of_none (List.find?_eq_none.2 h.2)]
    rfl

/-- The rewritten entry is the one `find?` returns, and the rest of the list stays. -/
theorem updateFirst_of_some {p : α → Bool} {f : α → α × β} :
    ∀ {l : List α} {a : α}, l.find? p = some a →
      ∃ l₁ l₂, l = l₁ ++ a :: l₂ ∧ updateFirst p f l = some (l₁ ++ (f a).1 :: l₂, (f a).2) ∧
        p a ∧ ∀ c ∈ l₁, p c = false
  | [], _, h => by simp at h
  | b :: as, a, h => by
    by_cases hb : p b
    · rw [List.find?_cons_of_pos hb, Option.some.injEq] at h
      subst h
      exact ⟨[], as, rfl, by rw [updateFirst, if_pos hb]; rfl, hb, by simp⟩
    · rw [List.find?_cons_of_neg hb] at h
      obtain ⟨l₁, l₂, rfl, hu, ha, hl⟩ := updateFirst_of_some (f := f) h
      refine ⟨b :: l₁, l₂, rfl, by rw [updateFirst, if_neg hb, hu]; rfl, ha, fun c hc => ?_⟩
      rcases List.mem_cons.1 hc with rfl | hc
      · simpa using hb
      · exact hl c hc

/-- What a rewriting function returns besides can be looked at afterwards. -/
theorem updateFirst_map {γ : Type*} {p : α → Bool} {f : α → α × β} {f' : α → α × γ} {g : γ → β}
    (h : ∀ a, f a = ((f' a).1, g (f' a).2)) :
    ∀ l : List α, updateFirst p f l = (updateFirst p f' l).map fun r => (r.1, g r.2)
  | [] => rfl
  | a :: as => by
    simp only [updateFirst, h a]
    split_ifs
    · rfl
    · simp only [updateFirst_map h as, Option.map_map, Function.comp_def]

/-- Dropping every entry with key `a` hides `a` and no other key. -/
theorem find?_filter_ne {κ : Type*} [DecidableEq κ] (key : α → κ) (a b : κ) :
    ∀ l : List α, (l.filter fun c => key c != a).find? (fun c => key c == b) =
      if a = b then none else l.find? fun c => key c == b
  | [] => by simp
  | c :: l => by
    have ih := find?_filter_ne key a b l
    by_cases hc : key c = a
    · rw [List.filter_cons_of_neg (by simp [hc]), ih]
      split_ifs with hab
      · rfl
      · rw [List.find?_cons_of_neg (by simpa [hc] using hab)]
    · rw [List.filter_cons_of_pos (by simpa using hc), List.find?_cons, List.find?_cons, ih]
      split
      · rename_i hb
        rw [if_neg (by rintro rfl; simp [hc] at hb)]
      · rfl

/-- In a list without repetitions two entries stand in one order only. -/
theorem not_sublist_swap {a b : α} (hne : a ≠ b) : ∀ {l : List α}, l.Nodup →
    [a, b].Sublist l → ¬ [b, a].Sublist l
  | [], _, h => absurd h (by simp)
  | c :: l, hnd, h => by
    obtain ⟨hc, hnd⟩ := List.nodup_cons.1 hnd
    intro h'
    rcases List.sublist_cons_iff.1 h with h | ⟨r, hr, h⟩
    · rcases List.sublist_cons_iff.1 h' with h' | ⟨r', hr', -⟩
      · exact not_sublist_swap hne hnd h h'
      · rw [List.cons.injEq] at hr'
        exact hc (h.subset (by simp [← hr'.1]))
    · rw [List.cons.injEq] at hr
      rcases List.sublist_cons_iff.1 h' with h' | ⟨r', hr', -⟩
      · exact hc (h'.subset (by simp [← hr.1]))
      · rw [List.cons.injEq] at hr'
        exact hne (hr.1.trans hr'.1.symm)

section Insert

variable {p : α → Bool} {l₁ l₂ : List α} {a : α}

theorem find?_insert_of_pos (h : (l₁ ++ l₂).find? p = none) (ha : p a) :
    (l₁ ++ a :: l₂).find? p = some a := by
  rw [List.find?_append, Option.or_eq_none_iff] at h
  rw [List.find?_append, h.1]
  simp [ha]

theorem find?_insert_of_neg (ha : p a = false) :
    (l₁ ++ a :: l₂).find? p = (l₁ ++ l₂).find? p := by
  simp [List.find?_append, ha]

theorem find?_append_cons (hl : ∀ c ∈ l₁, p c = false) (ha : p a) :
    (l₁ ++ a :: l₂).find? p = some a := by
  rw [List.find?_append, List.find?_eq_none.2 (by simpa using hl)]
  simp [ha]

end Insert

theorem insertIdx_eq_append {i : ℕ} (hi : i ≤ l.length) (a : α) :
    l.insertIdx i a = l.take i ++ a :: l.drop i := by
  apply List.ext_getElem?
  intro j
  rw [List.getElem?_insertIdx]
  rcases Nat.lt_trichotomy j i with h | rfl | h
  · rw [if_pos h, List.getElem?_append_left (by simp; omega), List.getElem?_take_of_lt h]
  · rw [if_neg (lt_irrefl _), if_pos rfl, if_pos hi, List.getElem?_append_right (by simp)]
    simp [hi]
  · rw [if_neg (by omega), if_neg (by omega), List.getElem?_append_right (by simp; omega)]
    obtain ⟨k, hk⟩ : ∃ k, j - i = k + 1 := ⟨j - i - 1, by omega⟩
    rw [List.length_take, min_eq_left hi, hk, List.getElem?_cons_succ, List.getElem?_drop]
    congr 1
    omega

/-! ## Binary search -/

/-- What comparing the entry at `i` says; past the end, that it is above. -/
def probe (f : α → Ordering) (l : List α) (i : ℕ) : Ordering :=
  (l[i]?).elim .gt f

/-- Narrows the window of `size` entries at `base` to one entry. -/
def narrow (g : ℕ → Ordering) : (fuel base size : ℕ) → ℕ
  | 0, base, _ => base
  | fuel + 1, base, size =>
    if 1 < size then
      let mid := base + size / 2
      narrow g fuel (if g mid = .gt then base else mid) (size - size / 2)
    else base

/-- An index with an equal entry, or else the index where one would be inserted. -/
def binarySearchBy (f : α → Ordering) (l : List α) : Except ℕ ℕ :=
  if l.length = 0 then .error 0
  else
    let base := narrow (probe f l) l.length 0 l.length
    match probe f l base with
    | .eq => .ok base
    | .lt => .error (base + 1)
    | .gt => .error base

/-- The index either way. -/
def position : Except ℕ ℕ → ℕ
  | .ok i => i
  | .error i => i

/-- `f` puts nothing above an entry before one it does not put above, and likewise below. -/
def Partitioned (f : α → Ordering) (l : List α) : Prop :=
  l.Pairwise fun a b => (f b ≠ .gt → f a ≠ .gt) ∧ (f b = .lt → f a = .lt)

variable {f : α → Ordering}

theorem narrow_spec {g : ℕ → Ordering} {n : ℕ}
    (hn : ∀ i j, i ≤ j → j < n → g i = .gt → g j = .gt) :
    ∀ (fuel base size : ℕ), size ≤ fuel → 0 < size → base + size ≤ n →
      (base = 0 ∨ g base ≠ .gt) → (∀ i, base + size ≤ i → i < n → g i = .gt) →
      narrow g fuel base size < n ∧
        (narrow g fuel base size = 0 ∨ g (narrow g fuel base size) ≠ .gt) ∧
        ∀ i, narrow g fuel base size < i → i < n → g i = .gt
  | 0, base, size, hf, hs, _, _, _ => by omega
  | fuel + 1, base, size, hf, hs, hb, hlo, hhi => by
    simp only [narrow]
    split_ifs with h hm
    · refine narrow_spec hn _ _ _ (by omega) (by omega) (by omega) hlo fun i hi hin => ?_
      exact hn (base + size / 2) i (by omega) hin hm
    · refine narrow_spec hn _ _ _ (by omega) (by omega) (by omega) (.inr hm) fun i hi hin => ?_
      exact hhi i (by omega) hin
    · exact ⟨by omega, hlo, fun i hi hin => hhi i (by omega) hin⟩

theorem narrow_lt (g : ℕ → Ordering) {n : ℕ} : ∀ (fuel base size : ℕ), 0 < size →
    base + size ≤ n → narrow g fuel base size < n
  | 0, base, size, hs, hb => by simp only [narrow]; omega
  | fuel + 1, base, size, hs, hb => by
    simp only [narrow]
    split_ifs with h hm
    · exact narrow_lt g _ _ _ (by omega) (by omega)
    · exact narrow_lt g _ _ _ (by omega) (by omega)
    · omega

theorem position_le_length : position (binarySearchBy f l) ≤ l.length := by
  unfold binarySearchBy
  split_ifs with h
  · simp [position]
  · have := narrow_lt (probe f l) l.length 0 l.length (Nat.pos_of_ne_zero h) (Nat.zero_add _).le
    simp only []
    split <;> simp only [position] <;> omega

theorem probe_mono (hp : Partitioned f l) {i j : ℕ} (hij : i ≤ j) (hj : j < l.length) :
    (probe f l j ≠ .gt → probe f l i ≠ .gt) ∧ (probe f l j = .lt → probe f l i = .lt) := by
  rcases Nat.lt_or_eq_of_le hij with h | rfl
  · have := List.pairwise_iff_getElem.1 hp i j (by omega) hj h
    simpa [probe, List.getElem?_eq_getElem hj,
      List.getElem?_eq_getElem (show i < l.length by omega)]
      using this
  · exact ⟨id, id⟩

/-- Of a single equal entry the search returns the index, so inserting there puts the new one
first. -/
theorem insertIdx_position_singleton {a b : α} (h : f b = .eq) :
    [b].insertIdx (position (binarySearchBy f [b])) a = [a, b] := by
  have hn : narrow (probe f [b]) 1 0 1 = 0 := rfl
  have hp : probe f [b] 0 = .eq := h
  simp [binarySearchBy, hn, hp, position]

/-- On a partitioned list nothing before the position is above, and nothing from it on below. -/
theorem position_spec (hp : Partitioned f l) :
    (∀ i, i < position (binarySearchBy f l) → probe f l i ≠ .gt) ∧
      ∀ i, position (binarySearchBy f l) ≤ i → i < l.length → probe f l i ≠ .lt := by
  unfold binarySearchBy
  split_ifs with h
  · exact ⟨fun i hi => by simp [position] at hi, fun i _ hi => by omega⟩
  have hmono : ∀ i j, i ≤ j → j < l.length → probe f l i = .gt → probe f l j = .gt := by
    intro i j hij hj hi
    by_contra hne
    exact (probe_mono hp hij hj).1 hne hi
  obtain ⟨hb, hlo, hhi⟩ := narrow_spec hmono l.length 0 l.length le_rfl (Nat.pos_of_ne_zero h)
    (by omega) (.inl rfl) (fun i hi hin => by omega)
  set base := narrow (probe f l) l.length 0 l.length
  have habove : ∀ i, base < i → i < l.length → probe f l i ≠ .lt := by
    intro i hi hin
    rw [hhi i hi hin]
    decide
  simp only []
  split <;> rename_i hc <;> simp only [position]
  · refine ⟨fun i hi => (probe_mono hp hi.le hb).1 (by simp [hc]), fun i hi hin => ?_⟩
    rcases Nat.lt_or_eq_of_le hi with hi | rfl
    · exact habove i hi hin
    · simp [hc]
  · refine ⟨fun i hi => (probe_mono hp (by omega) hb).1 (by simp [hc]), fun i hi hin => ?_⟩
    exact habove i (by omega) hin
  · have hz : base = 0 := hlo.resolve_right (not_not.2 hc)
    refine ⟨fun i hi => by omega, fun i hi hin => ?_⟩
    rcases Nat.eq_zero_or_pos i with rfl | hi
    · rw [← hz, hc]
      decide
    · exact habove i (by omega) hin

/-- Inserting at the position keeps what is not above before the new entry, and what is not
below after it. -/
theorem insertIdx_position (hp : Partitioned f l) (a : α) :
    ∃ l₁ l₂, l = l₁ ++ l₂ ∧ l.insertIdx (position (binarySearchBy f l)) a = l₁ ++ a :: l₂ ∧
      (∀ c ∈ l₁, f c ≠ .gt) ∧ ∀ c ∈ l₂, f c ≠ .lt := by
  obtain ⟨hlo, hhi⟩ := position_spec hp
  have hle := position_le_length (f := f) (l := l)
  set i := position (binarySearchBy f l)
  refine ⟨l.take i, l.drop i, (List.take_append_drop i l).symm, insertIdx_eq_append hle a,
    fun c hc => ?_, fun c hc => ?_⟩
  · obtain ⟨j, hj, rfl⟩ := List.mem_iff_getElem.1 hc
    rw [List.length_take] at hj
    have := hlo j (by omega)
    rw [List.getElem_take]
    simpa [probe, List.getElem?_eq_getElem (show j < l.length by omega)] using this
  · obtain ⟨j, hj, rfl⟩ := List.mem_iff_getElem.1 hc
    rw [List.length_drop] at hj
    have := hhi (i + j) (by omega) (by omega)
    rw [List.getElem_drop]
    simpa [probe, List.getElem?_eq_getElem (show i + j < l.length by omega)] using this

end ListSearch
