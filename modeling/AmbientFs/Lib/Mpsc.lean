import Mathlib

/-!
# Bounded queues with one receiver

What is sent on a channel waits in its queue until it is received. Sending fails if the receiver
is gone or the queue has no room.
-/

namespace Mpsc

variable {α : Type*}

structure Channel (α : Type*) where
  bound : ℕ
  sent : List α
  /-- How many of those sent have been received. -/
  taken : ℕ
  /-- Whether there still is a receiver. -/
  receiver : Bool

inductive TrySendError
  | full
  | closed
  deriving DecidableEq

namespace Channel

def new (bound : ℕ) : Channel α := ⟨bound, [], 0, true⟩

def queue (ch : Channel α) : List α := ch.sent.drop ch.taken

def HasRoom (ch : Channel α) : Prop := ch.queue.length < ch.bound

instance (ch : Channel α) : Decidable ch.HasRoom := Nat.decLt _ _

def trySend (ch : Channel α) (a : α) : Except TrySendError (Channel α) :=
  if ch.receiver = false then .error .closed
  else if ch.HasRoom then .ok { ch with sent := ch.sent ++ [a] }
  else .error .full

def recv (ch : Channel α) : Channel α :=
  if ch.receiver = true ∧ ch.taken < ch.sent.length then { ch with taken := ch.taken + 1 } else ch

def dropReceiver (ch : Channel α) : Channel α := { ch with receiver := false }

@[simp] theorem sent_recv (ch : Channel α) : ch.recv.sent = ch.sent := by
  unfold recv
  split_ifs <;> rfl

@[simp] theorem bound_recv (ch : Channel α) : ch.recv.bound = ch.bound := by
  unfold recv
  split_ifs <;> rfl

theorem sent_of_trySend {ch ch' : Channel α} {a : α} (h : ch.trySend a = .ok ch') :
    ch'.sent = ch.sent ++ [a] := by
  unfold trySend at h
  split_ifs at h
  cases h
  rfl

/-- What is sent gets in. -/
def Accepts (ch : Channel α) : Prop := ch.receiver = true ∧ ch.HasRoom

instance decidableAccepts (ch : Channel α) : Decidable ch.Accepts :=
  inferInstanceAs (Decidable (_ ∧ _))

def append (ch : Channel α) (a : α) : Channel α := { ch with sent := ch.sent ++ [a] }

theorem trySend_of_accepts {ch : Channel α} (h : ch.Accepts) (a : α) :
    ch.trySend a = .ok (ch.append a) := by
  unfold trySend append
  rw [if_neg (by simp [h.1]), if_pos h.2]

theorem trySend_of_not_accepts {ch : Channel α} (h : ¬ ch.Accepts) (a : α) :
    ∃ e, ch.trySend a = .error e := by
  unfold trySend
  split_ifs with hr hroom
  · exact ⟨_, rfl⟩
  · exact absurd ⟨by simpa using hr, hroom⟩ h
  · exact ⟨_, rfl⟩

theorem hasRoom_of_sent_nil {ch : Channel α} (h : ch.sent = []) (hb : 0 < ch.bound) :
    ch.HasRoom := by
  unfold HasRoom queue
  rw [h, List.drop_nil]
  exact hb

end Channel

end Mpsc
