import AmbientFs.Proofs.PidFile

/-!
# Where signals go

The number in the pid file is read as a `u32` and handed to `kill` as an `i32`. The number 0 names
the caller's own group, and from 2^31 on the target is negative: another group, or all processes.
-/

namespace AmbientFs

theorem lt_of_parseU32 {s : List Char} {n : ℕ} (h : parseU32 s = some n) : n < 2 ^ 32 := by
  obtain ⟨hdigits, hn⟩ := Option.ite_none_right_eq_some.1 h
  cases hn
  exact hdigits.2.2

namespace Daemon

variable {kill : Kill → Except Errno Unit} {file : Option File} {n : ℕ} {k : Kill}

theorem asI32_pos (h : n < 2 ^ 32) : 0 < asI32 n ↔ 0 < n ∧ n < 2 ^ 31 := by
  unfold asI32
  rw [Int.bmod_def]
  omega

theorem asI32_of_lt (h : n < 2 ^ 31) : asI32 n = n := by
  unfold asI32
  rw [Int.bmod_def]
  omega

/-- The number that is written in the file. -/
def number (f : File) : Option ℕ := parseU32 (Lines.trim Lines.whiteSpace f.content)

theorem readPid_eq_ok (f : File) (n : ℕ) : readPid (some f) = .ok n ↔ number f = some n := by
  unfold readPid number
  simp only
  rcases parseU32 (Lines.trim Lines.whiteSpace f.content) with _ | pid
  · simp
  · simp

theorem mem_isRunning : k ∈ (isRunning kill file).1 ↔
    ∃ pid, readPid file = .ok pid ∧ k = ⟨asI32 pid, none⟩ := by
  unfold isRunning
  rcases h : readPid file with e | pid
  · cases e <;> simp
  · simp [checkProcess]

theorem getPid_of_read {pid : ℕ} (h : readPid file = .ok pid) : getPid kill file =
    ([⟨asI32 pid, none⟩],
      if (checkProcess kill pid).2 then .ok pid else .error .notRunning) := by
  unfold getPid
  rw [h]
  rfl

/-- The process is asked for and, if it runs, sent the signal. -/
theorem mem_stop : k ∈ (stop kill file).1 ↔ ∃ pid, readPid file = .ok pid ∧
    (k = ⟨asI32 pid, none⟩ ∨ (checkProcess kill pid).2 = true ∧ k = ⟨asI32 pid, some .term⟩) := by
  unfold stop
  rcases h : readPid file with e | pid
  · simp [getPid, h]
  · rw [getPid_of_read h]
    rcases hrun : (checkProcess kill pid).2 with _ | _
    · simp [hrun]
    · simp [hrun]

/-- Whatever is answered, every call is for one process, that of the number in the file. -/
def SignalsOne (f : File) : Prop :=
  ∀ kill, ∀ k ∈ (stop kill (some f)).1 ++ (isRunning kill (some f)).1,
    0 < k.target ∧ ∃ pid, number f = some pid ∧ k.target = pid

/-- The target of each call is the number in the file, as an `i32`. -/
theorem target_of_mem {f : File} (h : k ∈ (stop kill (some f)).1 ++ (isRunning kill (some f)).1) :
    ∃ pid, number f = some pid ∧ k.target = asI32 pid := by
  rcases List.mem_append.1 h with h | h
  · obtain ⟨pid, hpid, hk⟩ := mem_stop.1 h
    refine ⟨pid, (readPid_eq_ok f pid).1 hpid, ?_⟩
    rcases hk with hk | ⟨-, hk⟩
    · rw [hk]
    · rw [hk]
  · obtain ⟨pid, hpid, hk⟩ := mem_isRunning.1 h
    refine ⟨pid, (readPid_eq_ok f pid).1 hpid, ?_⟩
    rw [hk]

theorem signalsOne_iff (f : File) :
    SignalsOne f ↔ ∀ pid, number f = some pid → 0 < pid ∧ pid < 2 ^ 31 := by
  constructor
  · intro h pid hpid
    have hmem : ⟨asI32 pid, none⟩ ∈ (stop (fun _ => .ok ()) (some f)).1 :=
      mem_stop.2 ⟨pid, (readPid_eq_ok f pid).2 hpid, .inl rfl⟩
    obtain ⟨hpos, -⟩ := h _ _ (List.mem_append_left _ hmem)
    dsimp only at hpos
    exact (asI32_pos (lt_of_parseU32 hpid)).1 hpos
  · intro h kill k hk
    obtain ⟨pid, hpid, ht⟩ := target_of_mem hk
    obtain ⟨hpos, hlt⟩ := h pid hpid
    rw [asI32_of_lt hlt] at ht
    exact ⟨by omega, pid, hpid, ht⟩

/-- The greatest `u32`. -/
def greatest : File := ⟨0, "4294967295\n".toList⟩

/-- Every process is sent the signal. -/
theorem greatest_not_signalsOne : ¬ SignalsOne greatest := by
  intro h
  have hread : readPid (some greatest) = .ok 4294967295 :=
    (readPid_eq_ok greatest _).2 (by decide)
  have hmem : ⟨asI32 4294967295, some .term⟩ ∈ (stop (fun _ => .ok ()) (some greatest)).1 :=
    mem_stop.2 ⟨4294967295, hread, .inr ⟨rfl, rfl⟩⟩
  obtain ⟨hpos, -⟩ := h _ _ (List.mem_append_left _ hmem)
  exact absurd hpos (by decide)

end Daemon

end AmbientFs
