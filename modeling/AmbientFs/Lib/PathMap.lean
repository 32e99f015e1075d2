import Mathlib

/-!
# Maps on paths

A path map sends each path, a list of components, to what is there. Adding a path fills in what
is missing on the way to it, erasing a path erases everything below it, and moving a path erases
it and adds its target, but only where the path is there.

A sequence of such operations each of which did something (`TakesAll`) can be run again on its
own result and changes nothing, unless a move's target had been erased by an earlier operation
(`run_run`): then the second run erases the target, and the move that put it there finds nothing
to move.
-/

/-- What is at each path. -/
abbrev PathMap (κ ε : Type*) := List κ → Option ε

namespace PathMap

variable {κ ε : Type*} [DecidableEq κ]

/-- Whatever lies above something is there. -/
def Closed (m : PathMap κ ε) : Prop := ∀ p q, q <+: p → m q = none → m p = none

/-- Fills in `f` where nothing is, at `p` and above it. -/
def add (m : PathMap κ ε) (p : List κ) (f : List κ → ε) : PathMap κ ε :=
  fun q => if q <+: p ∧ m q = none then some (f q) else m q

/-- Erases `p` and all below it. -/
def erase (m : PathMap κ ε) (p : List κ) : PathMap κ ε :=
  fun q => if p <+: q then none else m q

/-- Puts what is at and below `o` at `n`, and `d` where nothing is left above `n`. -/
def relocate (m : PathMap κ ε) (o n : List κ) (d : ε) : PathMap κ ε :=
  fun q =>
    if n <+: q then m (o ++ q.drop n.length)
    else if q <+: n ∧ m.erase o q = none then some d else m.erase o q

variable {m s r : PathMap κ ε} {p q : List κ}

omit [DecidableEq κ] in
theorem Closed.above (h : Closed m) (hq : q <+: p) (hp : m p ≠ none) : m q ≠ none :=
  fun hn => hp (h p q hq hn)

theorem Closed.add (h : Closed m) (p : List κ) (f : List κ → ε) : Closed (m.add p f) := by
  intro a b hb hn
  unfold PathMap.add at *
  split_ifs at hn with hc
  have ha : ¬ a <+: p := fun ha => hc ⟨hb.trans ha, hn⟩
  rw [if_neg (fun hc' => ha hc'.1)]
  exact h a b hb hn

theorem Closed.erase (h : Closed m) (p : List κ) : Closed (m.erase p) := by
  intro a b hb hn
  unfold PathMap.erase at *
  by_cases ha : p <+: a
  · rw [if_pos ha]
  · rw [if_neg fun hb' => ha (hb'.trans hb)] at hn
    rw [if_neg ha]
    exact h a b hb hn

/-- Adds paths one after the other, each with what it fills in. -/
def addAll (m : PathMap κ ε) (l : List (List κ × (List κ → ε))) : PathMap κ ε :=
  l.foldl (fun m a => m.add a.1 a.2) m

section AddAll

variable {l l' : List (List κ × (List κ → ε))} {v : ε}

theorem addAll_of_some (h : m q = some v) : m.addAll l q = some v := by
  induction l generalizing m with
  | nil => exact h
  | cons a l ih =>
    have hadd : m.add a.1 a.2 q = some v := by
      rw [add, if_neg fun hc => by simp [h] at hc, h]
    exact ih hadd

/-- What is filled in where nothing was, the first path at or below has filled in. -/
theorem addAll_cons_of_prefix {a : List κ × (List κ → ε)} (ha : q <+: a.1) (h : m q = none) :
    m.addAll (a :: l) q = some (a.2 q) := by
  have hadd : m.add a.1 a.2 q = some (a.2 q) := if_pos ⟨ha, h⟩
  exact addAll_of_some (m := m.add a.1 a.2) hadd

theorem addAll_of_none (h : m q = none) :
    (m.addAll l q = none ∧ ∀ a ∈ l, ¬ q <+: a.1) ∨
      ∃ a ∈ l, q <+: a.1 ∧ m.addAll l q = some (a.2 q) := by
  induction l generalizing m with
  | nil => exact .inl ⟨h, by simp⟩
  | cons a l ih =>
    by_cases ha : q <+: a.1
    · exact .inr ⟨a, List.mem_cons_self, ha, addAll_cons_of_prefix ha h⟩
    · have hadd : m.add a.1 a.2 q = none := by rw [add, if_neg fun hc => ha hc.1, h]
      rcases ih hadd with ⟨hn, hl⟩ | ⟨b, hb, hq, hs⟩
      · exact .inl ⟨hn, List.forall_mem_cons.2 ⟨ha, hl⟩⟩
      · exact .inr ⟨b, List.mem_cons_of_mem a hb, hq, hs⟩

/-- The order does not matter where all fill in the same. -/
theorem addAll_congr (hl : ∀ a, a ∈ l ↔ a ∈ l')
    (h : ∀ a ∈ l, ∀ b ∈ l, ∀ q, q <+: a.1 → q <+: b.1 → m q = none → a.2 q = b.2 q) :
    m.addAll l = m.addAll l' := by
  funext q
  rcases hm : m q with _ | v
  · rcases addAll_of_none (l := l) hm with ⟨hn, hno⟩ | ⟨a, ha, haq, hs⟩
    · rcases addAll_of_none (l := l') hm with ⟨hn', -⟩ | ⟨b, hb, hbq, -⟩
      · rw [hn, hn']
      · exact absurd hbq (hno b ((hl b).2 hb))
    · rcases addAll_of_none (l := l') hm with ⟨-, hno⟩ | ⟨b, hb, hbq, hs'⟩
      · exact absurd haq (hno a ((hl a).1 ha))
      · rw [hs, hs', h a ha b ((hl b).2 hb) q haq hbq hm]
  · rw [addAll_of_some hm, addAll_of_some hm]

end AddAll

section Map

variable {δ : Type*} (g : ε → δ)

/-- Something of what is at each path. -/
def mapValues (m : PathMap κ ε) : PathMap κ δ := fun q => (m q).map g

theorem mapValues_add (f : List κ → ε) :
    (m.add p f).mapValues g = (m.mapValues g).add p (g ∘ f) := by
  funext q
  simp only [mapValues, add, Option.map_eq_none_iff]
  split_ifs <;> rfl

theorem mapValues_erase : (m.erase p).mapValues g = (m.mapValues g).erase p := by
  funext q
  simp only [mapValues, erase]
  split_ifs <;> rfl

omit [DecidableEq κ] in
theorem Closed.mapValues (h : Closed m) : Closed (m.mapValues g) := by
  intro a b hb hn
  simp only [PathMap.mapValues, Option.map_eq_none_iff] at hn ⊢
  exact h a b hb hn

end Map

/-- Erasing a path and adding one that is missing then, with `f` to fill in, relocates exactly if
nothing is below the path erased and `f` fills in what was there. -/
theorem erase_add_eq_relocate_iff {o n : List κ} {f : List κ → ε} {d : ε} (hm : Closed m)
    (hn : m.erase o n = none) (hf : ∀ q, q <+: n → q ≠ n → f q = d) :
    (m.erase o).add n f = m.relocate o n d ↔
      m o = some (f n) ∧ ∀ k, m (o ++ [k]) = none := by
  have hbelow : ∀ r ≠ [], ((m.erase o).add n f) (n ++ r) = none := by
    intro r hr
    have hlong : ¬ n ++ r <+: n := fun h => hr (by simpa using h.length_le)
    rw [add, if_neg fun h => hlong h.1]
    exact hm.erase o _ _ (List.prefix_append n r) hn
  have hat : ((m.erase o).add n f) n = some (f n) := if_pos ⟨List.prefix_rfl, hn⟩
  have hrel : ∀ r, m.relocate o n d (n ++ r) = m (o ++ r) := by
    intro r
    rw [relocate, if_pos (List.prefix_append n r), List.drop_left]
  constructor
  · intro h
    refine ⟨?_, fun k => ?_⟩
    · have := hrel []
      rw [List.append_nil, List.append_nil, ← h, hat] at this
      exact this.symm
    · rw [← hrel, ← h]
      exact hbelow [k] (List.cons_ne_nil k [])
  · rintro ⟨ho, hk⟩
    funext q
    by_cases hq : n <+: q
    · obtain ⟨r, rfl⟩ := hq
      rw [hrel]
      rcases r with _ | ⟨k, r⟩
      · rw [List.append_nil, List.append_nil, hat, ho]
      · rw [hbelow _ (List.cons_ne_nil k r)]
        exact (hm _ _ ⟨r, by simp⟩ (hk k)).symm
    · rw [relocate, if_neg hq, add]
      by_cases hc : q <+: n ∧ m.erase o q = none
      · rw [if_pos hc, if_pos hc, hf q hc.1 fun h => hq (h ▸ List.prefix_rfl)]
      · rw [if_neg hc, if_neg hc]

/-- An operation, with what it fills in where it adds. -/
inductive Op (κ ε : Type*)
  | add (p : List κ) (f : List κ → ε)
  | remove (p : List κ)
  | move (o n : List κ) (f : List κ → ε)

namespace Op

def act : Op κ ε → PathMap κ ε → PathMap κ ε
  | add p f, m => m.add p f
  | remove p, m => m.erase p
  | move o n f, m => if m o = none then m else (m.erase o).add n f

/-- The operation does something: what it adds is missing, what it takes away is there. -/
def Takes : Op κ ε → PathMap κ ε → Prop
  | add p _, m => m p = none
  | remove p, m => m p ≠ none
  | move o n _, m => m o ≠ none ∧ m.erase o n = none

/-- The operation erases `q` where it is carried out. -/
def Erases : Op κ ε → List κ → Prop
  | add _ _, _ => False
  | remove p, q => p <+: q
  | move o _ _, q => o <+: q

/-- The operation puts something at `q` where it is carried out. -/
def Adds : Op κ ε → List κ → Prop
  | add p _, q => q <+: p
  | remove _, _ => False
  | move _ n _, q => q <+: n

variable {o : Op κ ε}

theorem closed_act (h : Closed m) : ∀ o : Op κ ε, Closed (o.act m)
  | add p f => h.add p f
  | remove p => h.erase p
  | move o n f => by
    simp only [act]
    split_ifs
    · exact h
    · exact (h.erase o).add n f

theorem act_of_not_erases (he : ¬ o.Erases p) (h : o.Adds p → m p ≠ none) :
    o.act m p = m p := by
  cases o with
  | add q f =>
    simp only [act, PathMap.add]
    exact if_neg fun hc => h hc.1 hc.2
  | remove q => exact if_neg he
  | move o n f =>
    simp only [act]
    split_ifs with hm
    · rfl
    · have : m.erase o p = m p := if_neg he
      simp only [PathMap.add, this]
      exact if_neg fun hc => h hc.1 hc.2

theorem act_of_erases (hm : Closed m) (he : o.Erases p) (ha : ¬ o.Adds p) :
    o.act m p = none := by
  cases o with
  | add q f => exact he.elim
  | remove q => exact if_pos he
  | move o n f =>
    simp only [act]
    split_ifs with h
    · exact hm p o he h
    · have : m.erase o p = none := if_pos he
      simp only [PathMap.add, this]
      exact if_neg fun hc => ha hc.1

theorem act_of_adds (ht : o.Takes m) (ha : o.Adds p) : o.act m p ≠ none := by
  cases o with
  | add q f =>
    simp only [act, PathMap.add]
    split_ifs with h
    · simp
    · exact fun hn => h ⟨ha, hn⟩
  | remove q => exact ha.elim
  | move o n f =>
    simp only [act, if_neg ht.1, PathMap.add]
    split_ifs with h
    · simp
    · exact fun hn => h ⟨ha, hn⟩

end Op

/-- The operations in order. -/
def run (l : List (Op κ ε)) (m : PathMap κ ε) : PathMap κ ε := l.foldl (fun m o => o.act m) m

@[simp] theorem run_cons (o : Op κ ε) (l : List (Op κ ε)) : run (o :: l) m = run l (o.act m) :=
  rfl

theorem closed_run : ∀ (l : List (Op κ ε)) {m : PathMap κ ε}, Closed m → Closed (run l m)
  | [], _, h => h
  | o :: l, _, h => closed_run l (o.closed_act h)

/-- Every operation does something when its turn comes. -/
def TakesAll : List (Op κ ε) → PathMap κ ε → Prop
  | [], _ => True
  | o :: l, m => o.Takes m ∧ TakesAll l (o.act m)

/-- No move's target has been erased by an operation before it. -/
def NoStaleMove (l : List (Op κ ε)) : Prop :=
  l.Pairwise fun a b => ∀ o n f, b = .move o n f → ¬ a.Erases n

omit [DecidableEq κ] in
theorem Op.Erases.trans {o : Op κ ε} (h : o.Erases p) (hq : p <+: q) : o.Erases q := by
  cases o with
  | add => exact h
  | remove => exact List.IsPrefix.trans h hq
  | move => exact List.IsPrefix.trans h hq

/-- Where nothing is left in the end, a second run leaves nothing either, unless no operation
touches the path. -/
theorem run_eq_none : ∀ {l : List (Op κ ε)} {s r : PathMap κ ε}, Closed r → TakesAll l s →
    run l s p = none → run l r p = none ∨
      (∀ o ∈ l, ¬ o.Erases p ∧ ¬ o.Adds p) ∧ run l r p = r p ∧ run l s p = s p
  | [], _, _, _, _, _ => .inr ⟨by simp, rfl, rfl⟩
  | o :: l, s, r, hr, ht, hn => by
    rcases run_eq_none (o.closed_act hr) ht.2 hn with h | ⟨hl, hrl, hsl⟩
    · exact .inl h
    rw [run_cons] at hn ⊢
    have hadd : ¬ o.Adds p := fun ha => Op.act_of_adds ht.1 ha (hsl ▸ hn)
    by_cases he : o.Erases p
    · exact .inl (hrl.trans (Op.act_of_erases hr he hadd))
    · have hsame : ∀ m : PathMap κ ε, o.act m p = m p := fun m =>
        Op.act_of_not_erases he fun ha => absurd ha hadd
      refine .inr ⟨?_, hrl.trans (hsame r), hsl.trans (hsame s)⟩
      rintro o' (_ | ⟨_, ho'⟩)
      · exact ⟨he, hadd⟩
      · exact hl o' ho'

/-- Two runs that agree at a path go on agreeing there while no move adds it. -/
theorem run_congr_at : ∀ {l : List (Op κ ε)} {s r : PathMap κ ε}, Closed r → TakesAll l s →
    (∀ o ∈ l, ∀ a n f, o = .move a n f → ¬ p <+: n) → r p = s p → run l r p = run l s p
  | [], _, _, _, _, _, h => h
  | o :: l, s, r, hr, ht, hmv, h => by
    rw [run_cons, run_cons]
    refine run_congr_at (o.closed_act hr) ht.2
      (fun o' ho' => hmv o' (List.mem_cons_of_mem _ ho')) ?_
    cases o with
    | add q f => simp only [Op.act, add, h]
    | remove q => simp only [Op.act, erase, h]
    | move a n f =>
      have hn : ¬ (Op.move a n f).Adds p := hmv _ List.mem_cons_self a n f rfl
      have hs : (Op.move a n f).act s p = s.erase a p := by
        simp only [Op.act, if_neg ht.1.1, add]
        exact if_neg fun hc => hn hc.1
      rw [hs]
      by_cases hap : (Op.move a n f).Erases p
      · rw [Op.act_of_erases hr hap hn]
        exact (if_pos hap).symm
      · rw [Op.act_of_not_erases hap fun ha => absurd ha hn, h]
        exact (if_neg hap).symm

/-- What is left in the end and there from the start of the second run stays through it. -/
theorem run_eq_some {v : ε} : ∀ {l : List (Op κ ε)} {s r : PathMap κ ε}, Closed r → TakesAll l s →
    NoStaleMove l → run l s p = some v → r p = some v → run l r p = some v
  | [], _, _, _, _, _, _, h => h
  | o :: l, s, r, hr, ht, hst, hs, h => by
    obtain ⟨hst₁, hst₂⟩ := List.pairwise_cons.1 hst
    rw [run_cons] at hs ⊢
    by_cases he : o.Erases p
    · rw [← hs]
      refine run_congr_at (o.closed_act hr) ht.2
        (fun o' ho' a n f hn hp => hst₁ o' ho' a n f hn (he.trans hp)) ?_
      cases o with
      | add q f => exact he.elim
      | remove q => exact (if_pos he).trans (if_pos he).symm
      | move a n f =>
        have hra : r a ≠ none := hr.above he (by simp [h])
        have hre : r.erase a p = none := if_pos he
        have hse : s.erase a p = none := if_pos he
        simp only [Op.act, if_neg hra, if_neg ht.1.1, add, hre, hse]
    · refine run_eq_some (o.closed_act hr) ht.2 hst₂ hs ?_
      rw [Op.act_of_not_erases he fun _ => by simp [h], h]

/-- A second run over its own result changes nothing. -/
theorem run_run {l : List (Op κ ε)} (hm : Closed m) (ht : TakesAll l m) (hst : NoStaleMove l) :
    run l (run l m) = run l m := by
  funext p
  have hc := closed_run l hm
  rcases h : run l m p with _ | v
  · rcases run_eq_none hc ht h with hn | ⟨-, hn, -⟩
    · exact hn
    · exact hn.trans h
  · exact run_eq_some hc ht hst h h

end PathMap
