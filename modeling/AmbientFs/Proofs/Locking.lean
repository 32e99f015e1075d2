import AmbientFs.Locking
import AmbientFs.Proofs.Subscriptions

/-!
# When the manager deadlocks

A deadlock is a subscription that holds the channels' lock and waits for the counts' lock, and an
unsubscription that has brought a count to zero, holds the counts' lock and waits for the
channels' lock. Tasks can get there exactly if they have enough unsubscriptions for some project
to bring its count to zero, and a subscription besides.
-/

namespace AmbientFs

open Locks

/-- How far a task has come: whether it has done its work on the counts, and whether that
brought a count to zero. -/
inductive Stage
  | pending
  | performed
  | emptied
  deriving DecidableEq

def held (projects counts : Option Mode) : ManagerLock → Option Mode
  | .projects => projects
  | .counts => counts

/-- The points of the operations' programs, with the locks held there. -/
inductive At : ManagerOp → Stage → Prog ManagerLock SubscriptionManager →
    (ManagerLock → Option Mode) → Prop
  | subscribe (p : String) : At (.subscribe p) .pending
    (.acquire .projects .write <| .acquire .counts .write <|
      .run (fun m => (m.subscribe p).1) fun _ => .release .counts <| .release .projects .done)
    (held none none)
  | subscribe₁ (p : String) : At (.subscribe p) .pending
    (.acquire .counts .write <|
      .run (fun m => (m.subscribe p).1) fun _ => .release .counts <| .release .projects .done)
    (held (some .write) none)
  | subscribe₂ (p : String) : At (.subscribe p) .pending
    (.run (fun m => (m.subscribe p).1) fun _ => .release .counts <| .release .projects .done)
    (held (some .write) (some .write))
  | subscribe₃ (p : String) : At (.subscribe p) .performed
    (.release .counts <| .release .projects .done) (held (some .write) (some .write))
  | subscribe₄ (p : String) : At (.subscribe p) .performed
    (.release .projects .done) (held (some .write) none)
  | unsubscribe (p : String) : At (.unsubscribe p) .pending (ManagerOp.unsubscribe p).prog
    (held none none)
  | unsubscribe₁ (p : String) : At (.unsubscribe p) .pending
    (.run (fun m => (m.decrement p).1) fun m =>
      if (m.decrement p).2 then
        .acquire .projects .write <| .run (fun m => m.removeProject p) fun _ =>
        .release .projects <| .release .counts .done
      else .release .counts .done)
    (held none (some .write))
  | unsubscribe₂ (p : String) : At (.unsubscribe p) .emptied
    (.acquire .projects .write <| .run (fun m => m.removeProject p) fun _ =>
      .release .projects <| .release .counts .done)
    (held none (some .write))
  | unsubscribe₃ (p : String) : At (.unsubscribe p) .emptied
    (.run (fun m => m.removeProject p) fun _ => .release .projects <| .release .counts .done)
    (held (some .write) (some .write))
  | unsubscribe₄ (p : String) : At (.unsubscribe p) .emptied
    (.release .projects <| .release .counts .done) (held (some .write) (some .write))
  | unsubscribe₅ (p : String) {st : Stage} : st ≠ .pending → At (.unsubscribe p) st
    (.release .counts .done) (held none (some .write))
  | broadcast (n : Notification) : At (.broadcast n) .pending (ManagerOp.broadcast n).prog
    (held none none)
  | broadcast₁ (n : Notification) : At (.broadcast n) .pending
    (.run (fun m => m.broadcast n) fun _ => .release .projects .done) (held (some .read) none)
  | broadcast₂ (n : Notification) : At (.broadcast n) .performed
    (.release .projects .done) (held (some .read) none)
  | done (op : ManagerOp) {st : Stage} : st ≠ .pending → At op st .done (held none none)

namespace At

variable {op : ManagerOp} {st : Stage} {l : ManagerLock} {m : Mode}
  {next : Prog ManagerLock SubscriptionManager} {h : ManagerLock → Option Mode}

theorem start : ∀ op : ManagerOp, At op .pending op.prog (fun _ => none) := by
  have hnone : (fun _ : ManagerLock => (none : Option Mode)) = held none none := by
    funext l
    cases l <;> rfl
  intro op
  rw [hnone]
  cases op with
  | subscribe p => exact .subscribe p
  | unsubscribe p => exact .unsubscribe p
  | broadcast n => exact .broadcast n

theorem update_projects (a b c : Option Mode) :
    Function.update (held a b) .projects c = held c b := by
  funext l
  cases l <;> simp [held, Function.update]

theorem update_counts (a b c : Option Mode) :
    Function.update (held a b) .counts c = held a c := by
  funext l
  cases l <;> simp [held, Function.update]

theorem acquire (ha : At op st (.acquire l m next) h) :
    At op st next (Function.update h l (some m)) := by
  cases ha with
  | subscribe p => rw [update_projects]; exact .subscribe₁ p
  | subscribe₁ p => rw [update_counts]; exact .subscribe₂ p
  | unsubscribe p => rw [update_counts]; exact .unsubscribe₁ p
  | unsubscribe₂ p => rw [update_projects]; exact .unsubscribe₃ p
  | broadcast n => rw [update_projects]; exact .broadcast₁ n

theorem release (ha : At op st (.release l next) h) :
    At op st next (Function.update h l none) := by
  cases ha with
  | subscribe₃ p => rw [update_counts]; exact .subscribe₄ p
  | subscribe₄ p => rw [update_projects]; exact .done _ (by decide)
  | unsubscribe₄ p => rw [update_projects]; exact .unsubscribe₅ p (by decide)
  | unsubscribe₅ p hst => rw [update_counts]; exact .done _ hst
  | broadcast₂ n => rw [update_projects]; exact .done _ (by decide)

theorem run_cases {f : SubscriptionManager → SubscriptionManager}
    {next : SubscriptionManager → Prog ManagerLock SubscriptionManager}
    (ha : At op st (.run f next) h) :
    (∃ p, op = .subscribe p ∧ st = .pending ∧ h .counts = some .write ∧
      f = (fun m => (m.subscribe p).1) ∧ ∀ m, At op .performed (next m) h) ∨
    (∃ p, op = .unsubscribe p ∧ st = .pending ∧ h .counts = some .write ∧
      f = (fun m => (m.decrement p).1) ∧
      ∀ m, At op (if (m.decrement p).2 then .emptied else .performed) (next m) h) ∨
    ((∀ m, (f m).counts = m.counts) ∧
      ((st = .emptied ∧ ∀ m, At op .emptied (next m) h) ∨
        ∃ n, op = .broadcast n ∧ ∀ m, At op .performed (next m) h)) := by
  cases ha with
  | subscribe₂ p => exact .inl ⟨p, rfl, rfl, rfl, rfl, fun _ => .subscribe₃ p⟩
  | unsubscribe₁ p =>
    refine .inr (.inl ⟨p, rfl, rfl, rfl, rfl, fun m => ?_⟩)
    beta_reduce
    split_ifs with hz
    · exact .unsubscribe₂ p
    · exact .unsubscribe₅ p (by decide)
  | unsubscribe₃ p =>
    refine .inr (.inr ⟨fun m => ?_, .inl ⟨rfl, fun _ => .unsubscribe₄ p⟩⟩)
    exact m.removeProject_counts p
  | broadcast₁ n =>
    refine .inr (.inr ⟨fun m => ?_, .inr ⟨n, rfl, fun _ => .broadcast₂ n⟩⟩)
    exact SubscriptionManager.broadcast_counts n

/-- Who waits holds nothing, or is one of the two that can deadlock. -/
theorem waiting (ha : At op st (.acquire l m next) h) :
    (st = .pending ∧ h = held none none) ∨
    (∃ p, op = .subscribe p ∧ st = .pending ∧ l = .counts ∧ h = held (some .write) none) ∨
    ∃ p, op = .unsubscribe p ∧ st = .emptied ∧ l = .projects ∧ h = held none (some .write) := by
  cases ha with
  | subscribe p => exact .inl ⟨rfl, rfl⟩
  | subscribe₁ p => exact .inr (.inl ⟨p, rfl, rfl, rfl, rfl⟩)
  | unsubscribe p => exact .inl ⟨rfl, rfl⟩
  | unsubscribe₂ p => exact .inr (.inr ⟨p, rfl, rfl, rfl, rfl⟩)
  | broadcast n => exact .inl ⟨rfl, rfl⟩

end At

section Tasks

variable {ι : Type*} [Fintype ι] [DecidableEq ι] (ops : ι → ManagerOp)

/-- The tasks past their work on the counts. -/
def past (st : ι → Stage) (op : ManagerOp) : ℕ :=
  (Finset.univ.filter fun i => ops i = op ∧ st i ≠ .pending).card

variable {ops} {st : ι → Stage} {op : ManagerOp}

theorem past_update_of_ne {i : ι} {x : Stage} (h : ops i ≠ op) :
    past ops (Function.update st i x) op = past ops st op := by
  unfold past
  congr 1
  ext j
  by_cases hj : j = i
  · subst hj
    simp [h]
  · simp [hj]

theorem past_update {i : ι} {x : Stage} (h : ops i = op) (hst : st i = .pending)
    (hx : x ≠ .pending) : past ops (Function.update st i x) op = past ops st op + 1 := by
  unfold past
  have hset : (Finset.univ.filter fun j => ops j = op ∧ Function.update st i x j ≠ .pending) =
      insert i (Finset.univ.filter fun j => ops j = op ∧ st j ≠ .pending) := by
    ext j
    by_cases hj : j = i
    · subst hj
      simp [h, hx]
    · simp [hj]
  rw [hset, Finset.card_insert_of_notMem (by simp [hst])]

theorem past_update_same {i : ι} : past ops (Function.update st i (st i)) op = past ops st op := by
  rw [Function.update_eq_self]

variable (ops)

/-- Where the tasks are, and how the counts come from what they have done: `n` is the count of
each project at the start. -/
structure Progress (n : String → ℕ) (s : State ι ManagerLock SubscriptionManager)
    (st : ι → Stage) : Prop where
  at_ : ∀ i, At (ops i) (st i) (s.progs i) (s.holds i)
  exclusive : Exclusive s
  positive : ∀ p, s.shared.counts p ≠ some 0
  lower : ∀ p, n p + past ops st (.subscribe p) ≤ s.shared.count p + past ops st (.unsubscribe p)
  upper : ∀ p, s.shared.count p ≤ n p + past ops st (.subscribe p)
  before : ∀ i p, ops i = .unsubscribe p → st i = .emptied →
    1 ≤ n p + past ops st (.subscribe p)
  zero : ∀ i p, ops i = .unsubscribe p → st i = .emptied → s.holds i .counts = some .write →
    s.shared.count p = 0

variable {ops} {n : String → ℕ} {s s' : State ι ManagerLock SubscriptionManager}

omit [DecidableEq ι] in
theorem progress_start {m : SubscriptionManager} (hm : ∀ p, m.counts p ≠ some 0) :
    Progress ops m.count (start (fun i => (ops i).prog) m) fun _ => .pending := by
  refine ⟨fun i => At.start (ops i), exclusive_start _ _, hm, fun p => ?_, fun p => ?_,
    fun _ _ _ h => (nomatch h), fun _ _ _ h => (nomatch h)⟩
  · simp [past, start]
  · simp [past, start]

/-- A step on locks leaves every task at its stage. -/
theorem Progress.moved (h : Progress ops n s st) {i : ι} {l : ManagerLock} {o : Option Mode}
    {next : Prog ManagerLock SubscriptionManager}
    (hex : Exclusive ⟨s.shared, Function.update s.progs i next,
      Function.update s.holds i (Function.update (s.holds i) l o)⟩)
    (hat : At (ops i) (st i) next (Function.update (s.holds i) l o))
    (hz : st i = .emptied → Function.update (s.holds i) l o .counts = some .write →
      s.holds i .counts = some .write) :
    Progress ops n ⟨s.shared, Function.update s.progs i next,
      Function.update s.holds i (Function.update (s.holds i) l o)⟩ st := by
  refine ⟨fun j => ?_, hex, h.positive, h.lower, h.upper, h.before, fun j p hj hst hh => ?_⟩
  · by_cases hj : j = i
    · subst hj
      simpa using hat
    · simpa [hj] using h.at_ j
  · by_cases hji : j = i
    · subst hji
      simp only [Function.update_self] at hh
      exact h.zero j p hj hst (hz hst hh)
    · simp only [Function.update_of_ne hji] at hh
      exact h.zero j p hj hst hh

/-- A step on the shared state takes one task to its next stage. -/
theorem Progress.at_run (h : Progress ops n s st) {i : ι} {x : Stage}
    {next : Prog ManagerLock SubscriptionManager} (hat : At (ops i) x next (s.holds i)) (j : ι) :
    At (ops j) (Function.update st i x j) (Function.update s.progs i next j) (s.holds j) := by
  by_cases hj : j = i
  · subst hj
    simpa using hat
  · simpa [hj] using h.at_ j

omit [DecidableEq ι] in
theorem Progress.not_holds (h : Progress ops n s st) {i j : ι} (hne : i ≠ j)
    (hi : s.holds i .counts = some .write) : s.holds j .counts ≠ some .write := by
  rw [h.exclusive i j .counts hne hi]
  simp

theorem Progress.subscribe (h : Progress ops n s st) {i : ι} {p : String}
    {next : Prog ManagerLock SubscriptionManager} (hop : ops i = .subscribe p)
    (hst : st i = .pending) (hh : s.holds i .counts = some .write)
    (hat : At (ops i) .performed next (s.holds i)) :
    Progress ops n ⟨(s.shared.subscribe p).1, Function.update s.progs i next, s.holds⟩
      (Function.update st i .performed) := by
  have hcount : ∀ q, (s.shared.subscribe p).1.count q =
      if q = p then s.shared.count p + 1 else s.shared.count q := fun q =>
    SubscriptionManager.count_update (s.shared.subscribe_counts p)
  have hself := past_update (x := .performed) hop hst (by decide)
  have hsub : ∀ q, q ≠ p → past ops (Function.update st i .performed) (.subscribe q) =
      past ops st (.subscribe q) := fun q hq =>
    past_update_of_ne fun he => hq (ManagerOp.subscribe.inj (he.symm.trans hop))
  have hunsub : ∀ q, past ops (Function.update st i .performed) (.unsubscribe q) =
      past ops st (.unsubscribe q) := fun q =>
    past_update_of_ne fun he => by rw [hop] at he; cases he
  have hne : ∀ j q, ops j = .unsubscribe q → j ≠ i := by
    rintro j q hj rfl
    rw [hop] at hj
    cases hj
  refine ⟨h.at_run hat, h.exclusive, fun q => ?_, fun q => ?_, fun q => ?_, fun j q hj hst' => ?_,
    fun j q hj hst' hhj => absurd hhj (h.not_holds (hne j q hj).symm hh)⟩
  · show (s.shared.subscribe p).1.counts q ≠ some 0
    rw [s.shared.subscribe_counts p]
    by_cases hq : q = p
    · simp [hq]
    · simpa [hq] using h.positive q
  · have := h.lower q
    show _ ≤ (s.shared.subscribe p).1.count q + _
    rw [hcount, hunsub]
    split_ifs with hq
    · subst hq
      omega
    · rw [hsub q hq]
      exact this
  · have := h.upper q
    show (s.shared.subscribe p).1.count q ≤ _
    rw [hcount]
    split_ifs with hq
    · subst hq
      omega
    · rw [hsub q hq]
      exact this
  · rw [Function.update_of_ne (hne j q hj)] at hst'
    have := h.before j q hj hst'
    by_cases hq : q = p
    · subst hq
      omega
    · rw [hsub q hq]
      exact this

theorem Progress.unsubscribe (h : Progress ops n s st) {i : ι} {p : String}
    {next : Prog ManagerLock SubscriptionManager} (hop : ops i = .unsubscribe p)
    (hst : st i = .pending) (hh : s.holds i .counts = some .write)
    (hat : At (ops i) (if (s.shared.decrement p).2 then .emptied else .performed) next
      (s.holds i)) :
    Progress ops n ⟨(s.shared.decrement p).1, Function.update s.progs i next, s.holds⟩
      (Function.update st i (if (s.shared.decrement p).2 then .emptied else .performed)) := by
  obtain ⟨hcount, hother, hpos, hlast⟩ := SubscriptionManager.decrement_spec h.positive p
  have hcount' : ∀ q, q ≠ p → (s.shared.decrement p).1.count q = s.shared.count q := fun q hq =>
    congrArg (Option.getD · 0) (hother q hq)
  have hself := past_update (x := if (s.shared.decrement p).2 then .emptied else .performed) hop hst
    (by split_ifs <;> decide)
  have hunsub : ∀ q, q ≠ p → past ops (Function.update st i
      (if (s.shared.decrement p).2 then .emptied else .performed)) (.unsubscribe q) =
      past ops st (.unsubscribe q) := fun q hq =>
    past_update_of_ne fun he => hq (ManagerOp.unsubscribe.inj (he.symm.trans hop))
  have hsub : ∀ q, past ops (Function.update st i
      (if (s.shared.decrement p).2 then .emptied else .performed)) (.subscribe q) =
      past ops st (.subscribe q) := fun q =>
    past_update_of_ne fun he => by rw [hop] at he; cases he
  refine ⟨h.at_run hat, h.exclusive, hpos, fun q => ?_, fun q => ?_, fun j q hj hst' => ?_,
    fun j q hj hst' hhj => ?_⟩
  · have := h.lower q
    show _ ≤ (s.shared.decrement p).1.count q + _
    rw [hsub]
    by_cases hq : q = p
    · subst hq
      omega
    · rw [hcount' q hq, hunsub q hq]
      exact this
  · have := h.upper q
    show (s.shared.decrement p).1.count q ≤ _
    rw [hsub]
    by_cases hq : q = p
    · subst hq
      omega
    · rw [hcount' q hq]
      exact this
  · rw [hsub]
    by_cases hji : j = i
    · subst hji
      have hqp : q = p := ManagerOp.unsubscribe.inj (hj.symm.trans hop)
      subst hqp
      rw [Function.update_self] at hst'
      split_ifs at hst' with hz
      have := h.upper q
      have := hlast hz
      omega
    · rw [Function.update_of_ne hji] at hst'
      exact h.before j q hj hst'
  · by_cases hji : j = i
    · subst hji
      have hqp : q = p := ManagerOp.unsubscribe.inj (hj.symm.trans hop)
      subst hqp
      rw [Function.update_self] at hst'
      split_ifs at hst' with hz
      have := hlast hz
      show (s.shared.decrement q).1.count q = 0
      omega
    · exact absurd hhj (h.not_holds (Ne.symm hji) hh)

/-- A step that leaves the counts. -/
theorem Progress.same_counts (h : Progress ops n s st) {i : ι} {x : Stage}
    {f : SubscriptionManager → SubscriptionManager}
    {next : Prog ManagerLock SubscriptionManager} (hf : (f s.shared).counts = s.shared.counts)
    (hat : At (ops i) x next (s.holds i)) (hx : x = st i ∨ ∃ b, ops i = .broadcast b) :
    Progress ops n ⟨f s.shared, Function.update s.progs i next, s.holds⟩
      (Function.update st i x) := by
  have hcount : ∀ q, (f s.shared).count q = s.shared.count q := fun q => by
    rw [SubscriptionManager.count, hf]
    rfl
  have hpast : ∀ op, (∀ b, op ≠ .broadcast b) →
      past ops (Function.update st i x) op = past ops st op := by
    intro op hop
    rcases hx with rfl | ⟨b, hb⟩
    · exact past_update_same
    · exact past_update_of_ne fun he => hop b (he.symm.trans hb)
  have hst : ∀ j q, ops j = .unsubscribe q → Function.update st i x j = st j := by
    intro j q hj
    by_cases hji : j = i
    · subst hji
      rcases hx with rfl | ⟨b, hb⟩
      · simp
      · rw [hj] at hb
        cases hb
    · simp [hji]
  refine ⟨h.at_run hat, h.exclusive, fun q => ?_, fun q => ?_, fun q => ?_, fun j q hj hst' => ?_,
    fun j q hj hst' hhj => ?_⟩
  · show (f s.shared).counts q ≠ some 0
    rw [hf]
    exact h.positive q
  · show _ ≤ (f s.shared).count q + _
    rw [hcount, hpast _ (by simp), hpast _ (by simp)]
    exact h.lower q
  · show (f s.shared).count q ≤ _
    rw [hcount, hpast _ (by simp)]
    exact h.upper q
  · rw [hst j q hj] at hst'
    rw [hpast _ (by simp)]
    exact h.before j q hj hst'
  · rw [hst j q hj] at hst'
    exact (hcount q).trans (h.zero j q hj hst' hhj)

/-- A step moves one task on. -/
theorem Progress.step (h : Progress ops n s st) (hs : Step s s') :
    ∃ st', Progress ops n s' st' := by
  have hex := h.exclusive.step hs
  cases hs with
  | @acquire i l m next hp hc =>
    have hat := h.at_ i
    rw [hp] at hat
    refine ⟨st, h.moved hex hat.acquire fun hst _ => ?_⟩
    rcases hat.waiting with ⟨hst', -⟩ | ⟨p, -, hst', -⟩ | ⟨p, -, -, -, hh⟩
    · rw [hst] at hst'
      cases hst'
    · rw [hst] at hst'
      cases hst'
    · rw [hh]
      rfl
  | @release i l next hp =>
    have hat := h.at_ i
    rw [hp] at hat
    refine ⟨st, h.moved hex hat.release fun _ hh => ?_⟩
    by_cases hl : ManagerLock.counts = l
    · simp [hl] at hh
    · rwa [Function.update_of_ne hl] at hh
  | @run i f next hp =>
    have hat := h.at_ i
    rw [hp] at hat
    rcases hat.run_cases with ⟨p, hop, hst, hh, rfl, hat'⟩ | ⟨p, hop, hst, hh, rfl, hat'⟩ |
      ⟨hf, ⟨hst, hat'⟩ | ⟨b, hb, hat'⟩⟩
    · exact ⟨_, h.subscribe hop hst hh (hat' _)⟩
    · exact ⟨_, h.unsubscribe hop hst hh (hat' _)⟩
    · exact ⟨_, h.same_counts (hf _) (hat' _) (.inl hst.symm)⟩
    · exact ⟨_, h.same_counts (hf _) (hat' _) (.inr ⟨b, hb⟩)⟩

theorem Progress.reachable (h : Progress ops n s st) (hr : Reachable s s') :
    ∃ st', Progress ops n s' st' := by
  induction hr with
  | refl => exact ⟨st, h⟩
  | tail _ hs ih =>
    obtain ⟨st', h'⟩ := ih
    exact h'.step hs

/-! ## What a deadlock takes -/

omit [DecidableEq ι] in
/-- A deadlock is a subscription and an unsubscription that wait for each other. -/
theorem Progress.of_deadlock (h : Progress ops n s st) (hd : Deadlock s) :
    ∃ w u p q, ops w = .subscribe q ∧ st w = .pending ∧
      ops u = .unsubscribe p ∧ st u = .emptied ∧ s.holds u .counts = some .write := by
  obtain ⟨T, ⟨i, hi⟩, hT⟩ := hd
  -- whoever is waited for holds a lock while it waits
  have hkind : ∀ i ∈ T, ∃ j ∈ T, ∃ l m next, s.progs i = .acquire l m next ∧
      ((∃ q, ops j = .subscribe q ∧ st j = .pending ∧ l = .projects ∧
          ∃ m' next', s.progs j = .acquire .counts m' next') ∨
        ∃ p, ops j = .unsubscribe p ∧ st j = .emptied ∧ l = .counts ∧
          s.holds j .counts = some .write ∧
            ∃ m' next', s.progs j = .acquire .projects m' next') := by
    intro i hi
    obtain ⟨l, m, next, hp, j, hj, -, hc⟩ := hT i hi
    obtain ⟨l', m', next', hp', -⟩ := hT j hj
    have hat := h.at_ j
    rw [hp'] at hat
    refine ⟨j, hj, l, m, next, hp, ?_⟩
    rcases hat.waiting with ⟨-, hh⟩ | ⟨q, hop, hst, rfl, hh⟩ | ⟨p, hop, hst, rfl, hh⟩
    · rw [hh] at hc
      cases l <;> exact absurd trivial hc
    · rw [hh] at hc
      cases l with
      | projects => exact .inl ⟨q, hop, hst, rfl, m', next', hp'⟩
      | counts => exact absurd trivial hc
    · rw [hh] at hc
      cases l with
      | projects => exact absurd trivial hc
      | counts => exact .inr ⟨p, hop, hst, rfl, by rw [hh]; rfl, m', next', hp'⟩
  obtain ⟨j, hj, _, _, _, _, hjk⟩ := hkind i hi
  obtain ⟨k, hk, l, m, next, hp, hkk⟩ := hkind j hj
  rcases hjk with ⟨q, hop, hst, -, m', next', hp'⟩ | ⟨p, hop, hst, -, hh, m', next', hp'⟩
  · rw [hp] at hp'
    cases hp'
    rcases hkk with ⟨_, _, _, hl, _⟩ | ⟨p, hop', hst', -, hh, -⟩
    · cases hl
    · exact ⟨j, k, p, q, hop, hst, hop', hst', hh⟩
  · rw [hp] at hp'
    cases hp'
    rcases hkk with ⟨q, hop', hst', -⟩ | ⟨_, _, _, hl, _⟩
    · exact ⟨k, j, p, q, hop', hst', hop, hst, hh⟩
    · cases hl

variable (ops)

def tasks (op : ManagerOp) : Finset ι := Finset.univ.filter fun i => ops i = op

def subscribers : Finset ι := Finset.univ.filter fun i => (ops i).isSubscribe

/-- The tasks can bring the project's count to zero and have a subscription left then. -/
def Empties (n : ℕ) (p : String) : Prop :=
  (1 ≤ n ∧ n ≤ (tasks ops (.unsubscribe p)).card ∧ 1 ≤ (subscribers ops).card) ∨
  (n = 0 ∧ 1 ≤ (tasks ops (.unsubscribe p)).card ∧ 1 ≤ (tasks ops (.subscribe p)).card ∧
    2 ≤ (subscribers ops).card)

variable {ops}

omit [DecidableEq ι] in
theorem mem_tasks {op : ManagerOp} {i : ι} : i ∈ tasks ops op ↔ ops i = op := by
  simp [tasks]

omit [DecidableEq ι] in
theorem mem_subscribers {i : ι} : i ∈ subscribers ops ↔ ∃ p, ops i = .subscribe p := by
  simp only [subscribers, Finset.mem_filter, Finset.mem_univ, true_and]
  cases ops i <;> simp [ManagerOp.isSubscribe]

omit [DecidableEq ι] in
theorem past_le (st : ι → Stage) (op : ManagerOp) : past ops st op ≤ (tasks ops op).card :=
  Finset.card_le_card fun i hi => by
    simp only [tasks, Finset.mem_filter, Finset.mem_univ, true_and] at hi ⊢
    exact hi.1

omit [DecidableEq ι] in
theorem Progress.empties_of_deadlock (h : Progress ops n s st) (hd : Deadlock s) :
    ∃ p, Empties ops (n p) p := by
  obtain ⟨w, u, p, q, hw, hwst, hu, hust, hhu⟩ := h.of_deadlock hd
  have hlow := h.lower p
  rw [h.zero u p hu hust hhu, Nat.zero_add] at hlow
  have hun : past ops st (.unsubscribe p) ≤ (tasks ops (.unsubscribe p)).card := past_le st _
  have hw' : w ∈ subscribers ops := mem_subscribers.2 ⟨q, hw⟩
  have hu' : u ∈ tasks ops (.unsubscribe p) := mem_tasks.2 hu
  have hcard := Finset.card_pos.2 ⟨w, hw'⟩
  refine ⟨p, ?_⟩
  rcases Nat.eq_zero_or_pos (n p) with hn | hn
  · -- a subscription to the project is past its work, and the one that waits is not
    have hbefore := h.before u p hu hust
    rw [hn, Nat.zero_add] at hbefore
    obtain ⟨i, hi⟩ := Finset.card_pos.1 hbefore
    simp only [Finset.mem_filter, Finset.mem_univ, true_and] at hi
    have hi' : i ∈ subscribers ops := mem_subscribers.2 ⟨p, hi.1⟩
    have hne : i ≠ w := fun he => hi.2 (he ▸ hwst)
    refine .inr ⟨hn, Finset.card_pos.2 ⟨u, hu'⟩, Finset.card_pos.2 ⟨i, mem_tasks.2 hi.1⟩, ?_⟩
    exact Finset.one_lt_card.2 ⟨i, hi', w, hw', hne⟩
  · exact .inl ⟨hn, by omega, hcard⟩

/-! ## Getting there -/

/-- The tasks in `D` are over and the others at their start. -/
structure Quiet (ops : ι → ManagerOp) (s : State ι ManagerLock SubscriptionManager)
    (D : Finset ι) : Prop where
  progs : ∀ i, i ∉ D → s.progs i = (ops i).prog
  holds : ∀ i, s.holds i = fun _ => none

omit [Fintype ι] in
theorem Quiet.run {D : Finset ι} (h : Quiet ops s D) {i : ι} (hi : i ∉ D) :
    ∃ s', Reachable s s' ∧ Quiet ops s' (insert i D) ∧
      s'.shared = (ops i).prog.exec s.shared := by
  refine ⟨_, run_alone _ (h.progs i hi) fun j _ l => congrFun (h.holds j) l, ⟨?_, ?_⟩, rfl⟩
  · intro j hj
    rw [Finset.mem_insert, not_or] at hj
    simp only [Function.update_of_ne hj.1]
    exact h.progs j hj.2
  · intro j
    by_cases hj : j = i
    · subst hj
      simp only [Function.update_self, h.holds j]
      exact ManagerOp.holdsAfter_prog (ops j) _
    · simp only [Function.update_of_ne hj]
      exact h.holds j

omit [Fintype ι] in
/-- Unsubscriptions run one after the other, down to a count of one. -/
theorem Quiet.run_unsubscribe {p : String} {A : Finset ι} (hA : ∀ i ∈ A, ops i = .unsubscribe p) :
    ∀ {s : State ι ManagerLock SubscriptionManager} {D : Finset ι}, Quiet ops s D →
      Disjoint A D → s.shared.counts p = some (A.card + 1) →
      ∃ s', Reachable s s' ∧ Quiet ops s' (A ∪ D) ∧ s'.shared.counts p = some 1 := by
  induction A using Finset.induction_on with
  | empty =>
    intro s D h _ hc
    exact ⟨s, .refl, by simpa using h, by simpa using hc⟩
  | insert i A hi ih =>
    intro s D h hdis hc
    rw [Finset.disjoint_insert_left] at hdis
    rw [Finset.card_insert_of_notMem hi] at hc
    obtain ⟨s₁, hr₁, hq₁, hs₁⟩ := h.run hdis.1
    rw [hA i (Finset.mem_insert_self i A), ManagerOp.exec_unsubscribe,
      SubscriptionManager.unsubscribe_of_one_lt hc (by omega)] at hs₁
    obtain ⟨s₂, hr₂, hq₂, hc₂⟩ := ih (fun j hj => hA j (Finset.mem_insert_of_mem hj)) hq₁
      (Finset.disjoint_insert_right.2 ⟨hi, hdis.2⟩) (by simp [hs₁])
    refine ⟨s₂, hr₁.trans hr₂, ?_, hc₂⟩
    rwa [Finset.union_insert, ← Finset.insert_union] at hq₂

omit [Fintype ι] in
/-- The subscription takes the channels' lock, and the unsubscription the counts' lock and the
count to zero. -/
theorem Quiet.deadlock {D : Finset ι} (h : Quiet ops s D) {w u : ι} {p q : String}
    (hw : ops w = .subscribe q) (hwD : w ∉ D) (hu : ops u = .unsubscribe p) (huD : u ∉ D)
    (hc : s.shared.counts p = some 1) : ∃ s', Reachable s s' ∧ Deadlock s' := by
  have hwu : w ≠ u := by
    rintro rfl
    rw [hu] at hw
    cases hw
  have hpw := h.progs w hwD
  have hpu := h.progs u huD
  rw [hw] at hpw
  rw [hu] at hpu
  obtain ⟨s₁, hs₁, hm₁, hpw₁, hp₁, hhw₁, hh₁⟩ := exists_acquire hpw fun j _ => by
    rw [h.holds j]
    trivial
  obtain ⟨s₂, hs₂, hm₂, hpu₂, hp₂, hhu₂, hh₂⟩ := exists_acquire ((hp₁ u hwu.symm).trans hpu)
    fun j _ => by
      by_cases hj : j = w
      · simp [hj, hhw₁, h.holds w, Compatible]
      · simp [hh₁ j hj, h.holds j, Compatible]
  obtain ⟨s₃, hs₃, -, hpu₃, hp₃, hh₃⟩ := exists_run hpu₂
  have hz : (s₂.shared.decrement p).2 = true := by
    rw [hm₂, hm₁, SubscriptionManager.decrement_of_le_one hc (by omega)]
  refine ⟨s₃, .tail (.tail (.single hs₁) hs₂) hs₃, {w, u}, ⟨w, by simp⟩, ?_⟩
  rintro i (rfl | rfl)
  · have hwait := (hp₃ i hwu).trans ((hp₂ i hwu).trans hpw₁)
    refine ⟨.counts, .write, _, hwait, u, by simp, hwu.symm, ?_⟩
    simp [hh₃, hhu₂, Compatible]
  · have hwait := hpu₃.trans (if_pos hz)
    refine ⟨.projects, .write, _, hwait, w, by simp, hwu, ?_⟩
    simp [hh₃, hh₂ w hwu, hhw₁, Compatible]

theorem deadlock_of_empties {m : SubscriptionManager} {p : String}
    (h : Empties ops (m.count p) p) :
    ∃ s, Reachable (start (fun i => (ops i).prog) m) s ∧ Deadlock s := by
  have hstart : Quiet ops (start (fun i => (ops i).prog) m) ∅ := ⟨fun _ _ => rfl, fun _ => rfl⟩
  rcases h with ⟨hn, hle, hsub⟩ | ⟨hn, hun, hsub, htwo⟩
  · -- all but one of as many unsubscriptions as the count says, then the last of them
    obtain ⟨w, hw⟩ := Finset.card_pos.1 hsub
    obtain ⟨A, hA, hcard⟩ := Finset.exists_subset_card_eq hle
    have hops : ∀ i ∈ A, ops i = .unsubscribe p := fun i hi => mem_tasks.1 (hA hi)
    obtain ⟨q, hw⟩ := mem_subscribers.1 hw
    obtain ⟨u, hu⟩ := Finset.card_pos.1 (by omega : 0 < A.card)
    have hcounts : m.counts p = some ((A.erase u).card + 1) := by
      rw [Finset.card_erase_add_one hu, hcard]
      unfold SubscriptionManager.count at hn ⊢
      cases hm : m.counts p with
      | none => simp [hm] at hn
      | some k => rfl
    obtain ⟨s, hr, hq, hc⟩ := hstart.run_unsubscribe
      (fun i hi => hops i (Finset.mem_of_mem_erase hi)) (Finset.disjoint_empty_right _) hcounts
    rw [Finset.union_empty] at hq
    have hwA : w ∉ A.erase u := fun hwA => by
      have := hops w (Finset.mem_of_mem_erase hwA)
      rw [hw] at this
      cases this
    obtain ⟨s', hr', hd⟩ := hq.deadlock hw hwA (hops u hu) (Finset.notMem_erase u A) hc
    exact ⟨s', hr.trans hr', hd⟩
  · -- a subscription makes the count one, and another one is left
    obtain ⟨i, hi⟩ := Finset.card_pos.1 hsub
    obtain ⟨u, hu⟩ := Finset.card_pos.1 hun
    obtain ⟨w, hw, hwi⟩ := Finset.exists_mem_ne htwo i
    have hi := mem_tasks.1 hi
    have hu := mem_tasks.1 hu
    obtain ⟨q, hw⟩ := mem_subscribers.1 hw
    obtain ⟨s, hr, hq, hs⟩ := hstart.run (Finset.notMem_empty i)
    have hc : s.shared.counts p = some 1 := by
      rw [hs, hi, ManagerOp.exec_subscribe, SubscriptionManager.subscribe_counts]
      simp [start, hn]
    have huD : u ∉ insert i (∅ : Finset ι) := by
      rw [Finset.mem_insert, not_or]
      refine ⟨?_, Finset.notMem_empty u⟩
      rintro rfl
      rw [hi] at hu
      cases hu
    obtain ⟨s', hr', hd⟩ := hq.deadlock hw (by simpa using hwi) hu huD hc
    exact ⟨s', hr.trans hr', hd⟩

theorem deadlock_free_iff {m : SubscriptionManager} (hm : ∀ p, m.counts p ≠ some 0) :
    (∀ s, Reachable (start (fun i => (ops i).prog) m) s → ¬ Deadlock s) ↔
      ∀ p, ¬ Empties ops (m.count p) p := by
  constructor
  · intro h p he
    obtain ⟨s, hr, hd⟩ := deadlock_of_empties he
    exact h s hr hd
  · intro h s hr hd
    obtain ⟨st, hp⟩ := Progress.reachable (progress_start hm) hr
    obtain ⟨p, he⟩ := hp.empties_of_deadlock hd
    exact h p he

end Tasks

/-- A project with two subscriptions. -/
def twice : SubscriptionManager := ((SubscriptionManager.new.subscribe "p").1.subscribe "p").1

/-- One of them is cancelled, while another project is subscribed to and something is broadcast. -/
def besideOther (i : Fin 3) : ManagerOp :=
  if i = 0 then .subscribe "q"
  else if i = 1 then .unsubscribe "p"
  else .broadcast (.treePatch "p" (.remove "a"))

/-- One unsubscription does not bring a count of two to zero. -/
theorem deadlock_free_subscribe :
    ¬ ∃ s, Reachable (start (fun i => (besideOther i).prog) twice) s ∧ Deadlock s := by
  rintro ⟨s, hr, hd⟩
  have hnew := SubscriptionManager.valid_new
  have honce := (SubscriptionManager.subscribe_spec hnew "p").valid hnew
  have hvalid : twice.Valid := (SubscriptionManager.subscribe_spec honce "p").valid honce
  refine (deadlock_free_iff hvalid.positive).2 (fun p => ?_) s hr hd
  by_cases hp : p = "p"
  · subst hp
    unfold Empties
    decide
  · have hnone : (tasks besideOther (.unsubscribe p)).card = 0 := by
      refine Finset.card_eq_zero.2 (Finset.filter_eq_empty_iff.2 fun i _ => ?_)
      unfold besideOther
      split_ifs <;> simp [Ne.symm hp]
    rintro (⟨h, hcard, -⟩ | ⟨-, hcard, -⟩) <;> omega

/-- A subscription to one project and the last unsubscription from another. -/
theorem not_deadlock_free : ¬ ∀ s, Reachable (start (fun i : Bool =>
    (bif i then ManagerOp.subscribe "q" else .unsubscribe "p").prog)
      (SubscriptionManager.new.subscribe "p").1) s → ¬ Deadlock s := by
  intro h
  have he : Empties (fun i : Bool => bif i then ManagerOp.subscribe "q" else .unsubscribe "p")
      ((SubscriptionManager.new.subscribe "p").1.count "p") "p" :=
    .inl ⟨by decide, by decide, by decide⟩
  obtain ⟨s, hr, hd⟩ := deadlock_of_empties he
  exact h s hr hd

end AmbientFs
