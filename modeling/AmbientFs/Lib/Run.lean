import Mathlib

/-!
# Runs of a step function

A run applies a list of actions one after the other. `Always` says that something holds in every
state of a run, the first one included, and `Steps` that every action is taken in a state where
something holds of it. A schedule is a run without an end.
-/

namespace Run

variable {σ α : Type*} {step : σ → α → σ} {s : σ} {as : List α}

/-- The state after some actions. -/
def after (step : σ → α → σ) (s : σ) (as : List α) : σ := as.foldl step s

def Always (step : σ → α → σ) (s : σ) (P : σ → Prop) (as : List α) : Prop :=
  ∀ pre, pre <+: as → P (after step s pre)

def Steps (step : σ → α → σ) (s : σ) (G : σ → α → Prop) (as : List α) : Prop :=
  ∀ pre a, pre ++ [a] <+: as → G (after step s pre) a

@[simp] theorem after_nil : after step s [] = s := rfl

@[simp] theorem after_snoc (as : List α) (a : α) :
    after step s (as ++ [a]) = step (after step s as) a := by
  simp [after]

theorem after_cons (a : α) (as : List α) : after step s (a :: as) = after step (step s a) as := rfl

theorem always_nil {P : σ → Prop} : Always step s P [] ↔ P s := by
  constructor
  · exact fun h => h [] List.prefix_rfl
  · rintro h pre hpre
    rw [List.prefix_nil.1 hpre]
    exact h

theorem always_cons {P : σ → Prop} {a : α} :
    Always step s P (a :: as) ↔ P s ∧ Always step (step s a) P as := by
  constructor
  · intro h
    exact ⟨h [] List.nil_prefix, fun pre hpre => h (a :: pre) (List.cons_prefix_cons.2 ⟨rfl, hpre⟩)⟩
  · rintro ⟨h, hs⟩ pre hpre
    rcases pre with _ | ⟨b, pre⟩
    · exact h
    · obtain ⟨rfl, hpre'⟩ := List.cons_prefix_cons.1 hpre
      exact hs pre hpre'

theorem steps_nil {G : σ → α → Prop} : Steps step s G [] := by
  intro pre a hpre
  simp at hpre

theorem steps_cons {G : σ → α → Prop} {a : α} :
    Steps step s G (a :: as) ↔ G s a ∧ Steps step (step s a) G as := by
  constructor
  · intro h
    exact ⟨h [] a (List.cons_prefix_cons.2 ⟨rfl, List.nil_prefix⟩),
      fun pre b hpre => h (a :: pre) b (List.cons_prefix_cons.2 ⟨rfl, hpre⟩)⟩
  · rintro ⟨h, hs⟩ pre b hpre
    rcases pre with _ | ⟨c, pre⟩
    · obtain ⟨rfl, -⟩ := List.cons_prefix_cons.1 hpre
      exact h
    · obtain ⟨rfl, hpre'⟩ := List.cons_prefix_cons.1 hpre
      exact hs pre b hpre'

theorem Steps.of_prefix {G : σ → α → Prop} {pre : List α} (h : Steps step s G as)
    (hpre : pre <+: as) : Steps step s G pre :=
  fun pre' a hpre' => h pre' a (hpre'.trans hpre)

/-- Conditions on steps are the same where they agree in the states of the run. -/
theorem steps_congr {G G' : σ → α → Prop}
    (h : ∀ pre a, G (Run.after step s pre) a ↔ G' (Run.after step s pre) a) :
    Steps step s G as ↔ Steps step s G' as := by
  constructor
  · exact fun hs pre a hpre => (h pre a).1 (hs pre a hpre)
  · exact fun hs pre a hpre => (h pre a).2 (hs pre a hpre)

theorem steps_and {G G' : σ → α → Prop} :
    Steps step s (fun s a => G s a ∧ G' s a) as ↔ Steps step s G as ∧ Steps step s G' as := by
  constructor
  · exact fun h => ⟨fun pre a hpre => (h pre a hpre).1, fun pre a hpre => (h pre a hpre).2⟩
  · exact fun h pre a hpre => ⟨h.1 pre a hpre, h.2 pre a hpre⟩

/-- An invariant that such steps keep holds at the end of a run of them. -/
theorem Steps.after {I : σ → Prop} {G : σ → α → Prop} (hg : Steps step s G as) (h0 : I s)
    (hstep : ∀ s a, I s → G s a → I (step s a)) : I (after step s as) := by
  induction as using List.reverseRecOn with
  | nil => exact h0
  | append_singleton as a ih =>
    rw [after_snoc]
    exact hstep _ _ (ih (hg.of_prefix (List.prefix_append as [a]))) (hg as a List.prefix_rfl)

theorem Steps.always {I : σ → Prop} {G : σ → α → Prop} (hg : Steps step s G as) (h0 : I s)
    (hstep : ∀ s a, I s → G s a → I (step s a)) : Always step s I as :=
  fun _ hpre => (hg.of_prefix hpre).after h0 hstep

/-- Steps that keep an invariant are of a second kind, if they are so where it holds. -/
theorem Steps.imp {I : σ → Prop} {G G' : σ → α → Prop} (hg : Steps step s G as) (h0 : I s)
    (hstep : ∀ s a, I s → G s a → I (step s a)) (himp : ∀ s a, I s → G s a → G' s a) :
    Steps step s G' as := by
  intro pre a hpre
  have hpre' := (List.prefix_append pre [a]).trans hpre
  exact himp _ a ((hg.of_prefix hpre').after h0 hstep) (hg pre a hpre)

/-- Where the steps that keep an invariant are exactly those that keep a property it implies,
the property holds throughout a run exactly if all steps are such. -/
theorem always_iff_steps {I P : σ → Prop} {G : σ → α → Prop} (h0 : I s) (hI : ∀ s, I s → P s)
    (hstep : ∀ s a, I s → G s a → I (step s a))
    (hbad : ∀ s a, I s → ¬ G s a → ¬ P (step s a)) :
    Always step s P as ↔ Steps step s G as := by
  constructor
  · intro h
    induction as using List.reverseRecOn with
    | nil => exact steps_nil
    | append_singleton as a ih =>
      have hg := ih fun pre hpre => h pre (hpre.trans (List.prefix_append as [a]))
      intro pre b hpre
      rcases List.prefix_concat_iff.1 hpre with heq | hpre
      · obtain ⟨rfl, rfl⟩ := List.append_singleton_inj.1 heq
        have hlast := h _ List.prefix_rfl
        rw [after_snoc] at hlast
        exact of_not_not fun hn => hbad _ _ (hg.after h0 hstep) hn hlast
      · exact hg pre b hpre
  · exact fun hg pre hpre => hI _ ((hg.of_prefix hpre).after h0 hstep)

section Map

variable {τ : Type*} {step' : τ → α → τ} {g : σ → τ}

/-- What is looked at in each state runs by steps of its own. -/
theorem after_map (h : ∀ s a, g (step s a) = step' (g s) a) (s : σ) (as : List α) :
    g (after step s as) = after step' (g s) as := by
  induction as using List.reverseRecOn with
  | nil => rfl
  | append_singleton as a ih => rw [after_snoc, after_snoc, h, ih]

theorem steps_map (h : ∀ s a, g (step s a) = step' (g s) a) {G : τ → α → Prop} :
    Steps step s (fun s a => G (g s) a) as ↔ Steps step' (g s) G as := by
  unfold Steps
  simp only [after_map h]

end Map

/-- What is looked at is the same without the actions that leave it alone, if it is all that the
others make of it. -/
theorem after_filter {τ : Type*} {view : σ → τ} {p : α → Bool}
    (hstep : ∀ s s' a, p a → view s = view s' → view (step s a) = view (step s' a)) (s : σ)
    (halone : ∀ s, ∀ a ∈ as, p a = false → view (step s a) = view s) :
    view (after step s as) = view (after step s (as.filter p)) := by
  induction as using List.reverseRecOn with
  | nil => rfl
  | append_singleton as a ih =>
    have hsame := ih fun s b hb => halone s b (List.mem_append_left [a] hb)
    rw [after_snoc, List.filter_append]
    cases ha : p a with
    | false => simpa [ha, halone _ a (by simp) ha] using hsame
    | true => simpa [ha] using hstep _ _ a ha hsame

theorem after_append (s : σ) (as bs : List α) :
    after step s (as ++ bs) = after step (after step s as) bs :=
  List.foldl_append

/-- Two systems stay related if they take related actions. -/
theorem after_related {τ β : Type*} {step' : τ → β → τ} (R : σ → τ → Prop) {Q : α → β → Prop}
    (hstep : ∀ s t a b, R s t → Q a b → R (step s a) (step' t b)) {bs : List β}
    (has : List.Forall₂ Q as bs) {t : τ} (h : R s t) : R (after step s as) (after step' t bs) := by
  induction has generalizing s t with
  | nil => exact h
  | cons hab _ ih => exact ih (hstep _ _ _ _ h hab)

/-- Rounds that leave less to do, as long as there is something, come to an end. -/
theorem exists_rounds {left : σ → ℕ → Prop} {round : List α}
    (hround : ∀ s n, left s n → n ≠ 0 → ∃ m < n, left (after step s round) m) {n : ℕ}
    (h : left s n) : ∃ k, left (after step s (List.replicate k round).flatten) 0 := by
  induction n using Nat.strong_induction_on generalizing s with
  | _ n ih =>
    by_cases hn : n = 0
    · subst hn
      exact ⟨0, h⟩
    · obtain ⟨m, hm, hleft⟩ := hround s n h hn
      obtain ⟨k, hk⟩ := ih m hm hleft
      refine ⟨k + 1, ?_⟩
      rwa [List.replicate_succ, List.flatten_cons, after_append]

/-- The state after the first actions of a schedule. -/
def state (step : σ → α → σ) (s : σ) (schedule : ℕ → α) : ℕ → σ
  | 0 => s
  | n + 1 => step (state step s schedule n) (schedule n)

/-- Actions of a kind are taken again and again. -/
def Fair (helps : α → Prop) (schedule : ℕ → α) : Prop := ∀ n, ∃ k, n ≤ k ∧ helps (schedule k)

theorem state_of_invariant {I : σ → Prop} {schedule : ℕ → α} (h0 : I s)
    (hstep : ∀ s a, I s → I (step s a)) : ∀ n, I (state step s schedule n)
  | 0 => h0
  | n + 1 => hstep _ _ (state_of_invariant h0 hstep n)

/-- What no action adds to and the helping ones take from cannot be there for ever. -/
theorem Fair.exists_done {helps : α → Prop} {schedule : ℕ → α} (hfair : Fair helps schedule)
    (I done : σ → Prop) (left : σ → ℕ) (h0 : I s)
    (hstep : ∀ s a, I s → I (step s a))
    (hle : ∀ s a, I s → ¬ done s → ¬ done (step s a) → left (step s a) ≤ left s)
    (hlt : ∀ s a, I s → helps a → ¬ done s → ¬ done (step s a) → left (step s a) < left s) :
    ∃ n, done (state step s schedule n) := by
  by_contra hn
  have hn : ∀ n, ¬ done (state step s schedule n) := fun n hd => hn ⟨n, hd⟩
  have hI : ∀ n, I (state step s schedule n) := state_of_invariant h0 hstep
  have hanti : ∀ n k, n ≤ k →
      left (state step s schedule k) ≤ left (state step s schedule n) := by
    intro n k hk
    induction k, hk using Nat.le_induction with
    | base => exact le_rfl
    | succ k hk ih => exact (hle _ _ (hI k) (hn k) (hn (k + 1))).trans ih
  have hless : ∀ n, ∃ k, left (state step s schedule k) < left (state step s schedule n) := by
    intro n
    obtain ⟨k, hk, hhelps⟩ := hfair n
    exact ⟨k + 1, (hlt _ _ (hI k) hhelps (hn k) (hn (k + 1))).trans_le (hanti n k hk)⟩
  have hbelow : ∀ m n, m ≤ left (state step s schedule n) := by
    intro m
    induction m with
    | zero => exact fun n => Nat.zero_le _
    | succ m ih =>
      intro n
      obtain ⟨k, hk⟩ := hless n
      exact (ih k).trans_lt hk
  exact absurd (hbelow _ 0) (Nat.not_succ_le_self _)

end Run
