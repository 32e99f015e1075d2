import AmbientFs.Lib.Run

/-!
# Operations of two sections

An operation runs a first section and, after others have run theirs, a second one, with what the
first left for it. Where a second section that runs before older ones commutes with them, the run is
that of whole operations in the order in which they began.
-/

/-- Operations of two sections, of which the first reads nothing that the second writes. -/
structure Sections (σ ω κ : Type*) where
  first : σ → ω → σ × κ
  second : σ → κ → σ
  apart : ∀ s k op, first (second s k) op = (second (first s op).1 k, (first s op).2)

namespace Sections

variable {σ ω κ : Type*} (S : Sections σ ω κ)

/-- What is shared, and what the operations that have begun have left to do, the oldest first. -/
structure State (σ κ : Type*) where
  shared : σ
  pending : List κ

inductive Action (ω : Type*)
  | begin (op : ω)
  /-- The pending operation at this place runs its second section. -/
  | finish (i : ℕ)

def step (s : State σ κ) : Action ω → State σ κ
  | .begin op => ⟨(S.first s.shared op).1, s.pending ++ [(S.first s.shared op).2]⟩
  | .finish i => match s.pending[i]? with
    | some k => ⟨S.second s.shared k, s.pending.eraseIdx i⟩
    | none => s

/-- An operation with nothing in between. -/
def whole (s : σ) (op : ω) : σ := S.second (S.first s op).1 (S.first s op).2

/-- The operations of a run, in the order in which they began. -/
def begun (as : List (Action ω)) : List ω :=
  as.filterMap fun a => match a with
    | .begin op => some op
    | .finish _ => none

/-- The state after all that is pending, the oldest first. -/
def settle (s : State σ κ) : σ := s.pending.foldl S.second s.shared

/-- A second section commutes with the older ones that are pending. -/
def InTurn (s : State σ κ) : Action ω → Prop
  | .begin _ => True
  | .finish i => ∀ k, s.pending[i]? = some k → ∀ j ∈ s.pending.take i,
    ∀ x, S.second (S.second x j) k = S.second (S.second x k) j

variable {S}

theorem foldl_second_comm {k : κ} :
    ∀ {older : List κ} {x : σ},
      (∀ j ∈ older, ∀ x, S.second (S.second x j) k = S.second (S.second x k) j) →
      older.foldl S.second (S.second x k) = S.second (older.foldl S.second x) k
  | [], _, _ => rfl
  | j :: older, x, h => by
    rw [List.foldl_cons, ← h j List.mem_cons_self x, List.foldl_cons]
    exact foldl_second_comm fun j' hj' => h j' (List.mem_cons_of_mem j hj')

/-- First sections see nothing of what is pending. -/
theorem first_foldl (op : ω) : ∀ (pending : List κ) (x : σ),
    S.first (pending.foldl S.second x) op =
      (pending.foldl S.second (S.first x op).1, (S.first x op).2)
  | [], _ => rfl
  | k :: pending, x => by
    rw [List.foldl_cons, first_foldl op pending, S.apart]
    rfl

theorem settle_begin (s : State σ κ) (op : ω) :
    S.settle (S.step s (.begin op)) = S.whole (S.settle s) op := by
  unfold settle whole step
  rw [first_foldl, List.foldl_append]
  rfl

theorem settle_finish {s : State σ κ} {i : ℕ} (h : S.InTurn s (.finish i)) :
    S.settle (S.step s (.finish i)) = S.settle s := by
  rcases hk : s.pending[i]? with _ | k
  · simp only [step, hk]
  have hstep : S.step s (.finish i) = ⟨S.second s.shared k, s.pending.eraseIdx i⟩ := by
    simp only [step, hk]
  obtain ⟨hi, heq⟩ := List.getElem?_eq_some_iff.1 hk
  have hsplit : s.pending = s.pending.take i ++ k :: s.pending.drop (i + 1) := by
    rw [← heq, ← List.drop_eq_getElem_cons hi, List.take_append_drop]
  rw [hstep]
  unfold settle
  calc (s.pending.eraseIdx i).foldl S.second (S.second s.shared k)
      = (s.pending.drop (i + 1)).foldl S.second
          ((s.pending.take i).foldl S.second (S.second s.shared k)) := by
        rw [List.eraseIdx_eq_take_drop_succ, List.foldl_append]
    _ = (k :: s.pending.drop (i + 1)).foldl S.second
          ((s.pending.take i).foldl S.second s.shared) := by
        rw [foldl_second_comm (h k hk), List.foldl_cons]
    _ = s.pending.foldl S.second s.shared := by
        rw [← List.foldl_append, ← hsplit]

theorem begun_snoc_begin (as : List (Action ω)) (op : ω) :
    begun (as ++ [.begin op]) = begun as ++ [op] :=
  List.filterMap_append

theorem begun_snoc_finish (as : List (Action ω)) (i : ℕ) :
    begun (as ++ [.finish i]) = begun as := by
  rw [begun, List.filterMap_append]
  exact List.append_nil _

/-- What a run settles to is what whole operations leave, in the order in which they began. -/
theorem settle_after {s : State σ κ} {as : List (Action ω)}
    (h : Run.Steps S.step s S.InTurn as) :
    S.settle (Run.after S.step s as) = (begun as).foldl S.whole (S.settle s) := by
  induction as using List.reverseRecOn with
  | nil => rfl
  | append_singleton as a ih =>
    have ih' := ih (h.of_prefix (List.prefix_append as [a]))
    have ha := h as a List.prefix_rfl
    rw [Run.after_snoc]
    cases a with
    | begin op => rw [settle_begin, ih', begun_snoc_begin, List.foldl_append]; rfl
    | finish i => rw [settle_finish ha, ih', begun_snoc_finish]

/-- Once nothing is pending any more, the run is that of whole operations. -/
theorem shared_after {x : σ} {as : List (Action ω)} (h : Run.Steps S.step ⟨x, []⟩ S.InTurn as)
    (hdone : (Run.after S.step ⟨x, []⟩ as).pending = []) :
    (Run.after S.step ⟨x, []⟩ as).shared = (begun as).foldl S.whole x := by
  have hsettle := settle_after h
  rw [settle, hdone] at hsettle
  exact hsettle

end Sections
