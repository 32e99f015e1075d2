import Mathlib

/-!
# Decimal text of fixed width

`padded w n` is the last `w` digits of a number and `number w` reads so many digits back. Texts
of one width are ordered as the numbers are.
-/

namespace Decimal

/-- The last digits of a number, in a given width. -/
def padded : ℕ → ℕ → List Char
  | 0, _ => []
  | w + 1, n => Nat.digitChar (n / 10 ^ w % 10) :: padded w n

def digitVal (c : Char) : Option ℕ :=
  if '0' ≤ c ∧ c ≤ '9' then some (c.toNat - '0'.toNat) else none

/-- A number of so many digits, after digits read before. -/
def number : ℕ → ℕ → List Char → Option (ℕ × List Char)
  | 0, acc, s => some (acc, s)
  | _ + 1, _, [] => none
  | w + 1, acc, c :: s =>
    match digitVal c with
    | none => none
    | some d => number w (10 * acc + d) s

theorem digitVal_digitChar : ∀ d < 10, digitVal (Nat.digitChar d) = some d := by decide

theorem digitChar_lt : ∀ d < 10, ∀ e < 10, d < e → Nat.digitChar d < Nat.digitChar e := by decide

@[simp] theorem length_padded (w n : ℕ) : (padded w n).length = w := by
  induction w with
  | zero => rfl
  | succ w ih => simp [padded, ih]

theorem isSome_digitVal_of_mem_padded {w n : ℕ} {c : Char} (h : c ∈ padded w n) :
    (digitVal c).isSome := by
  induction w with
  | zero => simp [padded] at h
  | succ w ih =>
    rw [padded, List.mem_cons] at h
    rcases h with rfl | h
    · rw [digitVal_digitChar _ (Nat.mod_lt _ (by omega))]
      rfl
    · exact ih h

theorem number_padded (w n acc : ℕ) (s : List Char) :
    number w acc (padded w n ++ s) = some (acc * 10 ^ w + n % 10 ^ w, s) := by
  induction w generalizing acc with
  | zero => simp [padded, number, Nat.mod_one]
  | succ w ih =>
    rw [padded, List.cons_append, number, digitVal_digitChar _ (Nat.mod_lt _ (by omega))]
    simp only [ih]
    have hmod : n % 10 ^ (w + 1) = 10 ^ w * (n / 10 ^ w % 10) + n % 10 ^ w := by
      rw [pow_succ, Nat.mod_mul, add_comm]
    rw [hmod, pow_succ]
    congr 2
    ring

theorem padded_add (v w n : ℕ) : padded (v + w) n = padded v (n / 10 ^ w) ++ padded w n := by
  induction v with
  | zero => simp [padded]
  | succ v ih =>
    rw [Nat.succ_add, padded, padded, ih, Nat.div_div_eq_div_mul, ← pow_add, add_comm w v]
    rfl

theorem padded_mod (w n : ℕ) : padded w (n % 10 ^ w) = padded w n := by
  have hmod : ∀ v ≤ w, padded v (n % 10 ^ w) = padded v n := by
    intro v hv
    induction v with
    | zero => rfl
    | succ v ih =>
      rw [padded, padded, ih (by omega)]
      obtain ⟨k, rfl⟩ := Nat.exists_eq_add_of_le hv
      have hdigit : n % 10 ^ (v + 1 + k) / 10 ^ v % 10 = n / 10 ^ v % 10 := by
        rw [show v + 1 + k = v + (1 + k) by omega, pow_add, Nat.mod_mul_right_div_self,
          pow_add, pow_one, Nat.mod_mul_right_mod]
      rw [hdigit]
  exact hmod w le_rfl

/-- A smaller number makes the smaller text, whatever follows. -/
theorem padded_append_lt {w m n : ℕ} (h : m < n) (hn : n < 10 ^ w) (s t : List Char) :
    padded w m ++ s < padded w n ++ t := by
  induction w generalizing m n with
  | zero => simp at hn; omega
  | succ w ih =>
    have hpos : 0 < 10 ^ w := by positivity
    rw [pow_succ] at hn
    have hdn : n / 10 ^ w < 10 := Nat.div_lt_of_lt_mul (by omega)
    have hdm : m / 10 ^ w ≤ n / 10 ^ w := Nat.div_le_div_right h.le
    rw [padded, padded, List.cons_append, List.cons_append, List.cons_lt_cons_iff,
      Nat.mod_eq_of_lt hdn, Nat.mod_eq_of_lt (by omega)]
    rcases Nat.lt_or_eq_of_le hdm with hlt | heq
    · exact .inl (digitChar_lt _ (by omega) _ hdn hlt)
    · refine .inr ⟨by rw [heq], ?_⟩
      rw [← padded_mod w m, ← padded_mod w n]
      refine ih ?_ (Nat.mod_lt _ hpos)
      have hm := Nat.div_add_mod m (10 ^ w)
      have hn := Nat.div_add_mod n (10 ^ w)
      rw [heq] at hm
      omega

end Decimal
