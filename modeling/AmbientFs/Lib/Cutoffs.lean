import Mathlib

/-!
# The greatest entries above a cutoff

Entries are listed from the greatest key down, as many as are asked for, of those that are above a
cutoff. Of two cutoffs one is the stricter, and they cannot be told apart exactly if they let the
same entries through, or if no more are asked for than get through both.
-/

namespace Cutoffs

variable {α κ : Type*} [LinearOrder κ] {key : α → κ} {l sorted : List α} {p q : α → Bool} {n : ℕ}

def Descending (key : α → κ) (l : List α) : Prop := l.Pairwise fun a b => key b ≤ key a

/-- What is let through does not end below what is not. -/
def Upward (key : α → κ) (l : List α) (p : α → Bool) : Prop :=
  ∀ a ∈ l, ∀ b ∈ l, p a → key a ≤ key b → p b

/-- The list starts as some list does that has the entries, from the greatest down. -/
def TopOf (key : α → κ) (n : ℕ) (entries found : List α) : Prop :=
  ∃ sorted : List α, sorted.Perm entries ∧ Descending key sorted ∧ found = sorted.take n

theorem subset_or (hp : Upward key l p) (hq : Upward key l q) :
    (∀ a ∈ l, p a → q a) ∨ ∀ a ∈ l, q a → p a := by
  by_contra h
  push Not at h
  obtain ⟨⟨a, ha, hpa, hqa⟩, b, hb, hqb, hpb⟩ := h
  rcases le_total (key a) (key b) with hle | hle
  · exact hpb (hp a ha b hb hpa hle)
  · exact hqa (hq b hb a ha hqb hle)

theorem perm_filter_iff : (l.filter p).Perm (l.filter q) ↔ ∀ a ∈ l, p a = q a := by
  refine ⟨fun h a ha => ?_, fun h => .of_eq (List.filter_congr h)⟩
  have hmem := h.mem_iff (a := a)
  rw [List.mem_filter, List.mem_filter, and_iff_right ha, and_iff_right ha] at hmem
  exact Bool.eq_iff_iff.2 hmem

theorem filter_and_of_imp (h : ∀ a ∈ l, p a → q a) :
    (l.filter fun a => p a && q a) = l.filter p :=
  List.filter_congr fun a ha => by
    have := h a ha
    cases hpa : p a <;> simp_all

/-- Of two cutoffs one of which lets through what the other does, as much gets through both only if
the same does. -/
theorem eq_of_imp_of_length (h : ∀ a ∈ l, p a → q a)
    (hlength : (l.filter p).length = (l.filter q).length) : ∀ a ∈ l, p a = q a := by
  have hsub : (l.filter p).Sublist (l.filter q) := by
    rw [← filter_and_of_imp h, ← List.filter_filter]
    exact List.filter_sublist
  exact perm_filter_iff.1 (.of_eq (hsub.eq_of_length hlength))

/-- Entries that get through come first. -/
theorem filter_append_filter (h : Descending key sorted) (hq : Upward key sorted q) :
    sorted.filter q ++ sorted.filter (fun a => !q a) = sorted := by
  induction sorted with
  | nil => rfl
  | cons a as ih =>
    obtain ⟨hle, hrest⟩ := List.pairwise_cons.1 h
    have hq' : Upward key as q := fun b hb c hc =>
      hq b (List.mem_cons_of_mem _ hb) c (List.mem_cons_of_mem _ hc)
    by_cases ha : q a
    · simpa [ha] using ih hrest hq'
    · have hnone : ∀ b ∈ as, q b = false := by
        intro b hb
        by_contra hqb
        exact ha (hq b (List.mem_cons_of_mem _ hb) a List.mem_cons_self (by simpa using hqb)
          (hle b hb))
      have hnil : as.filter q = [] := List.filter_eq_nil_iff.2 fun b hb => by simp [hnone b hb]
      have hall : as.filter (fun b => !q b) = as :=
        List.filter_eq_self.2 fun b hb => by simp [hnone b hb]
      simp [ha, hnil, hall]

theorem topOf_of_imp (hperm : sorted.Perm (l.filter p)) (hs : Descending key sorted)
    (hq : Upward key l q) (hqp : ∀ a ∈ l, q a → p a) (hn : n ≤ (l.filter q).length) :
    TopOf key n (l.filter q) (sorted.take n) := by
  have hfilter : (sorted.filter q).Perm (l.filter q) := by
    have hperm' := hperm.filter q
    rwa [List.filter_filter, filter_and_of_imp hqp] at hperm'
  have hup : Upward key sorted q := fun a ha b hb =>
    hq a (List.mem_of_mem_filter (hperm.mem_iff.1 ha)) b
      (List.mem_of_mem_filter (hperm.mem_iff.1 hb))
  refine ⟨sorted.filter q, hfilter, hs.sublist List.filter_sublist, ?_⟩
  have happend := filter_append_filter hs hup
  rw [← hfilter.length_eq] at hn
  conv_lhs => rw [← happend]
  exact List.take_append_of_le_length hn

theorem topOf_of_imp' (hperm : sorted.Perm (l.filter p)) (hs : Descending key sorted)
    (hp : Upward key l p) (hpq : ∀ a ∈ l, p a → q a) (hn : n ≤ (l.filter p).length) :
    TopOf key n (l.filter q) (sorted.take n) := by
  have htotal : Std.Total fun a b : α => key b ≤ key a := ⟨fun a b => le_total (key b) (key a)⟩
  have htrans : IsTrans α fun a b => key b ≤ key a := ⟨fun a b c hab hbc => le_trans hbc hab⟩
  let rest := (l.filter fun a => !p a && q a).insertionSort fun a b => key b ≤ key a
  have hrest : rest.Perm (l.filter fun a => !p a && q a) := List.perm_insertionSort _ _
  refine ⟨sorted ++ rest, ?_, ?_, ?_⟩
  · have hsplit := List.filter_append_perm p (l.filter q)
    rw [List.filter_filter, List.filter_filter, filter_and_of_imp hpq] at hsplit
    exact (hperm.append hrest).trans hsplit
  · refine List.pairwise_append.2 ⟨hs, List.pairwise_insertionSort _ _, fun a ha b hb => ?_⟩
    have ha' := List.mem_filter.1 (hperm.mem_iff.1 ha)
    have hb' := List.mem_filter.1 (hrest.mem_iff.1 hb)
    by_contra hle
    have hpb := hp a ha'.1 b hb'.1 ha'.2 (le_of_lt (not_le.1 hle))
    simp [hpb] at hb'
  · rw [← hperm.length_eq] at hn
    exact (List.take_append_of_le_length hn).symm

theorem topOf_iff (hperm : sorted.Perm (l.filter p)) (hs : Descending key sorted)
    (hp : Upward key l p) (hq : Upward key l q) :
    TopOf key n (l.filter q) (sorted.take n) ↔
      (∀ a ∈ l, p a = q a) ∨ n ≤ (l.filter fun a => p a && q a).length := by
  have hswap : (l.filter fun a => p a && q a) = l.filter fun a => q a && p a := by
    simp only [Bool.and_comm]
  constructor
  · rintro ⟨sorted', hperm', -, htake⟩
    by_contra hno
    push Not at hno
    obtain ⟨hne, hn⟩ := hno
    have hlength := congrArg List.length htake
    rw [List.length_take, List.length_take, hperm.length_eq, hperm'.length_eq] at hlength
    obtain ⟨a, ha, hpq⟩ := hne
    rcases subset_or hp hq with himp | himp
    · rw [filter_and_of_imp himp] at hn
      have heq : (l.filter p).length = (l.filter q).length := by omega
      exact hpq ((eq_of_imp_of_length himp heq) a ha)
    · rw [hswap, filter_and_of_imp himp] at hn
      have heq : (l.filter q).length = (l.filter p).length := by omega
      exact hpq ((eq_of_imp_of_length himp heq) a ha).symm
  · rintro (heq | hn)
    · exact ⟨sorted, hperm.trans (perm_filter_iff.2 heq), hs, rfl⟩
    · rcases subset_or hp hq with himp | himp
      · rw [filter_and_of_imp himp] at hn
        exact topOf_of_imp' hperm hs hp himp hn
      · rw [hswap, filter_and_of_imp himp] at hn
        exact topOf_of_imp hperm hs hq himp hn

end Cutoffs
