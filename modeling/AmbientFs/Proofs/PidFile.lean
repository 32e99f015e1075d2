import AmbientFs.Lib.Run
import AmbientFs.PidFile

/-!
# One daemon

What a process finds out from the pid file holds until another process writes it. While no process
opens or writes the file after another has done so since it last read it, and none opens it while a
daemon that has taken it away is still there, the file names whoever has written its pid, and two
daemons are never there at once (`at_most_one`). The check and the write are apart, so a second
process can come in between.
-/

namespace AmbientFs

theorem parseU32_of_ne_plus {s : List Char} (hs : ∀ rest, s ≠ '+' :: rest) :
    parseU32 s =
      if s ≠ [] ∧ s.all Char.isDigit ∧ Nat.ofDigitChars 10 s 0 < 2 ^ 32 then
        some (Nat.ofDigitChars 10 s 0)
      else none := by
  unfold parseU32
  simp only

theorem parseU32_toDigits {n : ℕ} (h : n < 2 ^ 32) : parseU32 (Nat.toDigits 10 n) = some n := by
  have hdigits : ∀ c ∈ Nat.toDigits 10 n, c.isDigit := fun c hc =>
    Nat.isDigit_of_mem_toDigits (by decide) (by decide) hc
  have hplus : ∀ rest, Nat.toDigits 10 n ≠ '+' :: rest := by
    intro rest heq
    have := hdigits '+' (heq ▸ List.mem_cons_self)
    exact absurd this (by decide)
  rw [parseU32_of_ne_plus hplus, Nat.ofDigitChars_ten_toDigits]
  exact if_pos ⟨Nat.toDigits_ne_nil, List.all_eq_true.2 hdigits, h⟩

theorem trim_toDigits (n : ℕ) :
    Lines.trim Lines.whiteSpace (Nat.toDigits 10 n ++ ['\n']) = Nat.toDigits 10 n := by
  have hblank : ∀ c ∈ Nat.toDigits 10 n, Lines.whiteSpace c = false := by
    intro c hc
    have hd := Nat.isDigit_of_mem_toDigits (by decide) (by decide) hc
    simp only [Char.isDigit, Bool.and_eq_true, decide_eq_true_eq] at hd
    have h₁ : 48 ≤ c.toNat := hd.1
    have h₂ : c.toNat ≤ 57 := hd.2
    simp only [Lines.whiteSpace, decide_eq_false_iff_not]
    omega
  have hne : Nat.toDigits 10 n ≠ [] := Nat.toDigits_ne_nil
  rw [Lines.trim_append_blank (by decide)]
  exact Lines.trim_of_ends (List.head?_eq_some_head hne) (List.getLast?_eq_some_getLast hne)
    (hblank _ (List.head_mem hne)) (hblank _ (List.getLast_mem hne))

namespace Daemon

theorem readPid_pidText (p : Pid) (inode : ℕ) : readPid (some ⟨inode, pidText p⟩) = .ok p.1 := by
  have hp : p.1 < 2 ^ 32 := p.2.2.trans (by decide)
  unfold readPid pidText
  simp only [trim_toDigits, parseU32_toDigits hp]

namespace Stage

/-- The process has written its pid and the file is not taken away. -/
def Wrote (stage : Option Stage) : Prop := stage = some .written ∨ stage = some .passed

/-- The process is there and its `start` has returned `Ok`. -/
def Started (stage : Option Stage) : Prop := stage = some .passed ∨ stage = some .stopping

def Holds (stage : Option Stage) : Prop := Wrote stage ∨ Started stage

/-- The process is no daemon, and it is not about to make its file. -/
def IsIdle : Option Stage → Prop
  | some .written | some .passed | some .stopping | some (.createChecking _) | some .opening
  | some (.writing _) => False
  | _ => True

end Stage

open Stage

namespace System

def AtMostOne (s : System) : Prop := ∀ p q, Started (s.procs p) → Started (s.procs q) → p = q

/-- A daemon that is there is named in the file, and the other processes have not begun to start
one. The file can be missing, or name any process or none. -/
def Initial (s : System) : Prop :=
  ∀ p, s.procs p = none ∨ s.procs p = some .other ∨
    s.procs p = some .passed ∧ readPid s.file = .ok p.1

theorem checkProcess_of_isSome {s : System} {p : Pid} (h : (s.procs p).isSome) (group : Bool) :
    s.checkProcess group p.1 = true := by
  unfold checkProcess
  rw [dif_pos p.2]
  exact h

end System

/-- The processes and the file, and which of them were overtaken: another has opened or written the
file since they read it. -/
structure Audit where
  system : System
  overtaken : Pid → Bool

namespace Audit

variable (a : Audit)

/-- All but one are overtaken. -/
def overtake (p : Pid) : Pid → Bool := fun q => q ≠ p || a.overtaken q

def step (a : Audit) (x : Action) : Audit where
  system := a.system.step x
  overtaken :=
    match x with
    | .read p =>
      match a.system.procs p with
      | some .reading | some .rereading | some .createReading | some .createRereading =>
        Function.update a.overtaken p false
      | _ => a.overtaken
    | .openFile p =>
      match a.system.procs p with
      | some .opening => a.overtake p
      | _ => a.overtaken
    | .write p =>
      match a.system.procs p with
      | some (.writing _) => a.overtake p
      | _ => a.overtaken
    | _ => a.overtaken

/-- A process that opens the file or writes to it has not been overtaken, and it does not open it
while a daemon that has taken it away is still there. -/
def Undisturbed : Action → Prop
  | .openFile p => a.system.procs p = some .opening →
      a.overtaken p = false ∧ ∀ q, a.system.procs q ≠ some .stopping
  | .write p => ∀ inode, a.system.procs p = some (.writing inode) → a.overtaken p = false
  | _ => True

/-- The file names whoever has written its pid, and a process that was not overtaken knows. -/
structure Inv : Prop where
  named : ∀ q, Wrote (a.system.procs q) → readPid a.system.file = .ok q.1
  unique : ∀ q r, Holds (a.system.procs q) → Holds (a.system.procs r) → q = r
  checking : ∀ p pid, a.system.procs p = some (.createChecking pid) → a.overtaken p = false →
    ∀ q, Wrote (a.system.procs q) → pid = q.1
  opening : ∀ p, a.system.procs p = some .opening → a.overtaken p = false →
    ∀ q, ¬ Wrote (a.system.procs q)
  writing : ∀ p inode, a.system.procs p = some (.writing inode) → a.overtaken p = false →
    a.system.file = some ⟨inode, []⟩ ∧ ∀ q, ¬ Holds (a.system.procs q)

variable {a}

theorem holds_of_update {procs : Pid → Option Stage} {P : Option Stage → Prop} {p q : Pid}
    {stage : Option Stage} (hp : P stage → P (procs p))
    (hq : P (Function.update procs p stage q)) : P (procs q) := by
  by_cases hqp : q = p
  · subst hqp
    rw [Function.update_self] at hq
    exact hp hq
  · rwa [Function.update_of_ne hqp] at hq

theorem eq_or_of_update {procs : Pid → Option Stage} {p q : Pid} {stage x : Option Stage}
    (h : Function.update procs p stage q = x) : q = p ∧ stage = x ∨ q ≠ p ∧ procs q = x := by
  by_cases hqp : q = p
  · subst hqp
    rw [Function.update_self] at h
    exact .inl ⟨rfl, h⟩
  · rw [Function.update_of_ne hqp] at h
    exact .inr ⟨hqp, h⟩

/-- A process moves on without touching the file, and has not come to have written by it. -/
theorem Inv.setStage (h : a.Inv) {p : Pid} {stage : Option Stage} {overtaken : Pid → Bool}
    (ho : ∀ q, q ≠ p → overtaken q = false → a.overtaken q = false)
    (hw : Wrote stage → Wrote (a.system.procs p)) (hs : Holds stage → Holds (a.system.procs p))
    (hcheck : ∀ pid, stage = some (.createChecking pid) → overtaken p = false →
      ∀ q, Wrote (a.system.procs q) → pid = q.1)
    (hopen : stage = some .opening → overtaken p = false → ∀ q, ¬ Wrote (a.system.procs q))
    (hwrite : ∀ inode, stage ≠ some (.writing inode)) :
    Inv ⟨a.system.setStage p stage, overtaken⟩ := by
  have hwrote : ∀ q, Wrote (Function.update a.system.procs p stage q) →
      Wrote (a.system.procs q) := fun q hq => holds_of_update hw hq
  have hholds : ∀ q, Holds (Function.update a.system.procs p stage q) →
      Holds (a.system.procs q) := fun q hq => holds_of_update hs hq
  refine ⟨fun q hq => h.named q (hwrote q hq),
    fun q r hq hr => h.unique q r (hholds q hq) (hholds r hr), ?_, ?_, ?_⟩
  · intro q pid hq hov r hr
    rcases eq_or_of_update hq with ⟨rfl, hstage⟩ | ⟨hqp, hold⟩
    · exact hcheck pid hstage hov r (hwrote r hr)
    · exact h.checking q pid hold (ho q hqp hov) r (hwrote r hr)
  · intro q hq hov r hr
    rcases eq_or_of_update hq with ⟨rfl, hstage⟩ | ⟨hqp, hold⟩
    · exact hopen hstage hov r (hwrote r hr)
    · exact h.opening q hold (ho q hqp hov) r (hwrote r hr)
  · intro q inode hq hov
    rcases eq_or_of_update hq with ⟨rfl, hstage⟩ | ⟨hqp, hold⟩
    · exact absurd hstage (hwrite inode)
    · obtain ⟨hfile, hnone⟩ := h.writing q inode hold (ho q hqp hov)
      exact ⟨hfile, fun r hr => hnone r (hholds r hr)⟩

/-- A process touches the file when there is no daemon, and all others are overtaken. -/
theorem Inv.touch (hnone : ∀ q, ¬ Holds (a.system.procs q)) {p : Pid} {stage : Stage}
    {file : Option File} {inodes : ℕ}
    (hnamed : Wrote (some stage) → readPid file = .ok p.1)
    (hcheck : ∀ pid, stage ≠ .createChecking pid) (hopen : stage ≠ .opening)
    (hwrite : ∀ inode, stage = .writing inode → file = some ⟨inode, []⟩) :
    Inv ⟨⟨file, inodes, Function.update a.system.procs p (some stage)⟩, a.overtake p⟩ := by
  have hself : ∀ {q}, Holds (Function.update a.system.procs p (some stage) q) → q = p := by
    intro q hq
    by_contra hqp
    rw [Function.update_of_ne hqp] at hq
    exact hnone q hq
  have hov : ∀ {q}, a.overtake p q = false → q = p := by
    intro q hq
    simp only [overtake, Bool.or_eq_false_iff, decide_eq_false_iff_not, not_not] at hq
    exact hq.1
  refine ⟨?_, ?_, ?_, ?_, ?_⟩
  · intro q hq
    obtain rfl := hself (.inl hq)
    dsimp only at hq
    rw [Function.update_self] at hq
    exact hnamed hq
  · intro q r hq hr
    rw [hself hq, hself hr]
  · intro q pid hq ho
    obtain rfl := hov ho
    dsimp only at hq
    rw [Function.update_self, Option.some.injEq] at hq
    exact absurd hq (hcheck pid)
  · intro q hq ho
    obtain rfl := hov ho
    dsimp only at hq
    rw [Function.update_self, Option.some.injEq] at hq
    exact absurd hq hopen
  · intro q inode hq ho
    obtain rfl := hov ho
    dsimp only at hq
    rw [Function.update_self, Option.some.injEq] at hq
    refine ⟨hwrite inode hq, fun r hr => ?_⟩
    obtain rfl := hself hr
    dsimp only at hr
    rw [Function.update_self, hq] at hr
    simp [Holds, Wrote, Started] at hr

/-- As `Inv.setStage`, to a stage that says nothing about the file. -/
theorem Inv.setStage_of_idle (h : a.Inv) {p : Pid} {stage : Option Stage} {overtaken : Pid → Bool}
    (ho : ∀ q, q ≠ p → overtaken q = false → a.overtaken q = false) (hidle : IsIdle stage) :
    Inv ⟨a.system.setStage p stage, overtaken⟩ := by
  refine h.setStage ho ?_ ?_ ?_ ?_ ?_
  · rintro (rfl | rfl)
    all_goals exact hidle.elim
  · rintro ((rfl | rfl) | rfl | rfl)
    all_goals exact hidle.elim
  · rintro pid rfl
    exact hidle.elim
  · rintro rfl
    exact hidle.elim
  · rintro inode rfl
    exact hidle

theorem Inv.no_wrote_of_error (h : a.Inv) {e : PidError} (he : readPid a.system.file = .error e)
    (q : Pid) : ¬ Wrote (a.system.procs q) := by
  intro hq
  rw [h.named q hq] at he
  simp at he

theorem Inv.read (h : a.Inv) (p : Pid) : (a.step (.read p)).Inv := by
  have ho : ∀ q, q ≠ p → Function.update a.overtaken p false q = false → a.overtaken q = false := by
    intro q hq hov
    rwa [Function.update_of_ne hq] at hov
  have hopens : ∀ e, readPid a.system.file = .error e →
      Inv ⟨a.system.setStage p (some .opening), Function.update a.overtaken p false⟩ := by
    intro e he
    refine h.setStage ho (by simp [Wrote]) (by simp [Holds, Wrote, Started]) (by simp) ?_ (by simp)
    exact fun _ _ => h.no_wrote_of_error he
  rcases hp : a.system.procs p with _ | stage
  · simpa only [step, System.step, System.read, hp] using h
  cases stage with
  | reading =>
    rcases hr : readPid a.system.file with (_ | text) | pid
    all_goals
      simp only [step, System.step, System.read, hp, hr]
      exact h.setStage_of_idle ho trivial
  | rereading =>
    simp only [step, System.step, System.read, hp]
    exact h.setStage_of_idle ho trivial
  | createReading =>
    rcases hr : readPid a.system.file with e | pid
    · simp only [step, System.step, System.read, hp, hr]
      exact hopens e hr
    · simp only [step, System.step, System.read, hp, hr]
      refine h.setStage ho (by simp [Wrote]) (by simp [Holds, Wrote, Started]) ?_ (by simp)
        (by simp)
      intro pid' hpid _ q hq
      have heq := (h.named q hq).symm.trans hr
      simp only [Option.some.injEq, Stage.createChecking.injEq, Except.ok.injEq] at hpid heq
      rw [← hpid, ← heq]
  | createRereading =>
    rcases hr : readPid a.system.file with e | pid
    · simp only [step, System.step, System.read, hp, hr]
      exact hopens e hr
    · simp only [step, System.step, System.read, hp, hr]
      exact h.setStage_of_idle ho trivial
  | _ => simpa only [step, System.step, System.read, hp] using h

theorem Inv.check (h : a.Inv) (p : Pid) (group : Bool) : (a.step (.check p group)).Inv := by
  have ho : ∀ q, q ≠ p → a.overtaken q = false → a.overtaken q = false := fun _ _ hov => hov
  rcases hp : a.system.procs p with _ | stage
  · simpa only [step, System.step, System.check, hp] using h
  cases stage with
  | checking pid =>
    simp only [step, System.step, System.check, hp]
    split_ifs
    all_goals
      exact h.setStage_of_idle ho trivial
  | createChecking pid =>
    simp only [step, System.step, System.check, hp]
    split_ifs with hrun
    · exact h.setStage_of_idle ho trivial
    · refine h.setStage ho (by simp [Wrote]) (by simp [Holds, Wrote, Started]) (by simp) ?_
        (by simp)
      -- the process that has written is the one that was asked for, and it is there
      intro _ hov q hq
      have hpid := h.checking p pid hp hov q hq
      have hsome : (a.system.procs q).isSome := by
        rcases hq with hq | hq <;> simp [hq]
      rw [hpid, System.checkProcess_of_isSome hsome] at hrun
      exact hrun rfl
  | _ => simpa only [step, System.step, System.check, hp] using h

theorem Inv.fork (h : a.Inv) (p : Pid) (child : Option Pid) : (a.step (.fork p child)).Inv := by
  have ho : ∀ q r, q ≠ r → a.overtaken q = false → a.overtaken q = false := fun _ _ _ hov => hov
  rcases hp : a.system.procs p with _ | stage
  · simpa only [step, System.step, System.fork, hp] using h
  cases stage with
  | forking =>
    cases child with
    | none =>
      simp only [step, System.step, System.fork, hp]
      exact h.setStage_of_idle (ho · p) trivial
    | some c =>
      simp only [step, System.step, System.fork, hp]
      split_ifs
      · have hc : Inv ⟨a.system.setStage c (some .createReading), a.overtaken⟩ :=
          h.setStage_of_idle (ho · c) trivial
        exact hc.setStage_of_idle (ho · p) trivial
      · exact h
  | _ => simpa only [step, System.step, System.fork, hp] using h

theorem Inv.openFile (h : a.Inv) (p : Pid) (hg : a.Undisturbed (.openFile p)) :
    (a.step (.openFile p)).Inv := by
  rcases hp : a.system.procs p with _ | stage
  · simpa only [step, System.step, System.openFile, hp] using h
  cases stage with
  | opening =>
    obtain ⟨hov, hstop⟩ := hg hp
    have hwrote := h.opening p hp hov
    have hnone : ∀ q, ¬ Holds (a.system.procs q) := by
      rintro q (hq | hq | hq)
      · exact hwrote q hq
      · exact hwrote q (.inr hq)
      · exact hstop q hq
    rcases hf : a.system.file with _ | f
    all_goals
      simp only [step, System.step, System.openFile, hp, hf]
      refine Inv.touch hnone (by simp [Wrote]) (by simp) (by simp) ?_
      intro inode hi
      rw [Stage.writing.injEq] at hi
      rw [hi]
  | _ => simpa only [step, System.step, System.openFile, hp] using h

theorem Inv.write (h : a.Inv) (p : Pid) (hg : a.Undisturbed (.write p)) :
    (a.step (.write p)).Inv := by
  rcases hp : a.system.procs p with _ | stage
  · simpa only [step, System.step, System.write, hp] using h
  cases stage with
  | writing inode =>
    obtain ⟨hfile, hnone⟩ := h.writing p inode hp (hg inode hp)
    simp only [step, System.step, System.write, hp, hfile, Option.map_some, if_true,
      List.drop_nil, List.append_nil]
    exact Inv.touch hnone (fun _ => readPid_pidText p inode) (by simp) (by simp) (by simp)
  | _ => simpa only [step, System.step, System.write, hp] using h

/-- The daemon that takes the file away is the one the file names, and no other has it open. -/
theorem Inv.remove (h : a.Inv) (p : Pid) : (a.step (.remove p)).Inv := by
  rcases hp : a.system.procs p with _ | stage
  · simpa only [step, System.step, System.remove, hp] using h
  cases stage with
  | passed =>
    have hholds : Holds (a.system.procs p) := .inl (.inr hp)
    have hdisj : ∀ q, Holds (Function.update a.system.procs p (some .stopping) q) →
        q = p := fun q hq => h.unique q p (holds_of_update (fun _ => hholds) hq) hholds
    have hwrote : ∀ q, ¬ Wrote (Function.update a.system.procs p (some .stopping) q) := by
      intro q hq
      obtain rfl := hdisj q (.inl hq)
      rw [Function.update_self] at hq
      simp [Wrote] at hq
    simp only [step, System.step, System.remove, hp, System.setStage]
    refine ⟨fun q hq => absurd hq (hwrote q), ?_, fun _ _ _ _ q hq => absurd hq (hwrote q),
      fun _ _ _ q => hwrote q, ?_⟩
    · intro q r hq hr
      rw [hdisj q hq, hdisj r hr]
    · intro q inode hq hov
      rcases eq_or_of_update hq with ⟨-, hstage⟩ | ⟨-, hold⟩
      · cases hstage
      · exact absurd hholds ((h.writing q inode hold hov).2 p)
  | _ => simpa only [step, System.step, System.remove, hp] using h

theorem Inv.step (h : a.Inv) (x : Action) (hg : a.Undisturbed x) : (a.step x).Inv := by
  have ho : ∀ q r, q ≠ r → a.overtaken q = false → a.overtaken q = false := fun _ _ _ hov => hov
  cases x with
  | spawn p =>
    simp only [Audit.step, System.step]
    split_ifs
    · exact h.setStage_of_idle (ho · p) trivial
    · exact h
  | start p =>
    simp only [Audit.step, System.step]
    split_ifs
    · exact h.setStage_of_idle (ho · p) trivial
    · exact h
  | read p => exact h.read p
  | check p group => exact h.check p group
  | fork p child => exact h.fork p child
  | openFile p => exact h.openFile p hg
  | write p => exact h.write p hg
  | finish p =>
    simp only [Audit.step, System.step]
    split_ifs with hp
    · have hwrote : Wrote (a.system.procs p) := .inl hp
      exact h.setStage (ho · p) (fun _ => hwrote) (fun _ => .inl hwrote) (by simp) (by simp)
        (by simp)
    · exact h
  | fail p =>
    have hfail : Inv ⟨a.system.setStage p (some .failed), a.overtaken⟩ :=
      h.setStage_of_idle (ho · p) trivial
    simp only [Audit.step, System.step, System.fail]
    split
    all_goals first | exact hfail | exact h
  | remove p => exact h.remove p
  | exit p =>
    exact h.setStage_of_idle (ho · p) trivial

theorem Inv.atMostOne (h : a.Inv) : a.system.AtMostOne :=
  fun p q hp hq => h.unique p q (.inr hp) (.inr hq)

theorem inv_of_initial {s : System} (h : s.Initial) : Inv ⟨s, fun _ => false⟩ := by
  have hnamed : ∀ q, Holds (s.procs q) → readPid s.file = .ok q.1 := by
    intro q hq
    rcases h q with hp | hp | ⟨-, hr⟩
    · simp [Holds, Wrote, Started, hp] at hq
    · simp [Holds, Wrote, Started, hp] at hq
    · exact hr
  refine ⟨fun q hq => hnamed q (.inl hq), ?_, ?_, ?_, ?_⟩
  · intro q r hq hr
    have heq := (hnamed q hq).symm.trans (hnamed r hr)
    exact Subtype.ext (Except.ok.inj heq)
  all_goals
    intro p
    rcases h p with hp | hp | ⟨hp, -⟩ <;> simp [hp]

end Audit

/-- While the pid file is written undisturbed, there is at most one daemon. -/
theorem at_most_one (s : System) (h : s.Initial) (xs : List Action)
    (hx : Run.Steps Audit.step ⟨s, fun _ => false⟩ Audit.Undisturbed xs) :
    Run.Always System.step s System.AtMostOne xs := by
  have hinv := hx.always (Audit.inv_of_initial h) (fun _ x hi hg => hi.step x hg)
  intro pre hpre
  have hsystem : (Run.after Audit.step ⟨s, fun _ => false⟩ pre).system =
      Run.after System.step s pre :=
    Run.after_map (fun _ _ => rfl) _ pre
  rw [← hsystem]
  exact (hinv pre hpre).atMostOne

def pid₁ : Pid := ⟨1, by decide⟩

def pid₂ : Pid := ⟨2, by decide⟩

def missing : System where
  file := none
  inodes := 0
  procs := fun p => if p = pid₁ ∨ p = pid₂ then some .other else none

theorem initial_missing : missing.Initial := by
  intro p
  simp only [missing]
  split_ifs <;> simp

theorem at_most_one_missing :
    Run.Always System.step missing System.AtMostOne
      [.start pid₁, .read pid₁, .fork pid₁ none, .read pid₁, .openFile pid₁, .write pid₁,
        .finish pid₁, .start pid₂, .read pid₂] := by
  refine at_most_one missing initial_missing _ ?_
  simp only [Run.steps_cons, Run.steps_nil, and_true]
  refine ⟨trivial, trivial, trivial, trivial, fun _ => ⟨rfl, fun q => ?_⟩, fun _ _ => rfl,
    trivial, trivial, trivial⟩
  change Function.update (Function.update (Function.update (Function.update missing.procs pid₁
    (some .reading)) pid₁ (some .forking)) pid₁ (some .createReading)) pid₁ (some .opening) q ≠ _
  by_cases hq : q = pid₁
  · simp [hq]
  · rcases initial_missing q with h | h | ⟨h, -⟩ <;> simp [hq, h]

/-- Two processes find no file, and one opens it after the other has written its pid. -/
theorem not_at_most_one :
    ¬ ∀ (s : System), s.Initial → ∀ xs : List Action,
      Run.Always System.step s System.AtMostOne xs := by
  intro h
  have hall := h missing initial_missing
    [.start pid₁, .start pid₂, .read pid₁, .read pid₂, .fork pid₁ none, .fork pid₂ none,
      .read pid₁, .read pid₂, .openFile pid₁, .write pid₁, .finish pid₁, .openFile pid₂,
      .write pid₂, .finish pid₂] _ List.prefix_rfl
  have heq := hall pid₁ pid₂ (.inl (by decide)) (.inl (by decide))
  exact absurd heq (by decide)

end Daemon

end AmbientFs
