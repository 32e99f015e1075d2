import AmbientFs.Lib.Run
import AmbientFs.Proofs.SyncSession

/-!
# The handler returns its stream

The channel of a stream is read by whoever is given the stream, and `sync_events` gives it away
only after the whole history is in the channel. A history that fits gets there. A longer one fills
the channel, and then the handler waits for room that only a reader could make.
-/

namespace AmbientFs

/-- A turn of the handler or of the task it leaves behind, a published event, the end of that task,
or a read at the other end. -/
inductive StreamAction
  | work
  | publish (x : Sent)
  | close
  | read

namespace SyncStream

/-- The handler's turn: it sends, and returns once there is nothing left to send. -/
def work (s : SyncStream) : SyncStream := if s.toSend = [] then s.handOver else s.send

/-- Nobody has the receiver before the handler returns it. -/
def read (s : SyncStream) : SyncStream :=
  if s.producer = .sending then s else { s with queue := s.queue.tail }

def step (s : SyncStream) : StreamAction → SyncStream
  | .work => s.work
  | .publish x => s.publish x
  | .close => s.close
  | .read => s.read

/-- The handler has not returned, and nothing that can happen changes that. -/
def Stuck (s : SyncStream) : Prop := s.producer = .sending ∧ ∀ a, s.step a = s

/-- The handler is never stuck, and always returns where it gets a turn again and again. -/
def HandsOver (history : List Sent) : Prop :=
  (∀ as, ¬ (Run.after step (start history) as).Stuck) ∧
    ∀ schedule, Run.Fair (· = .work) schedule →
      ∃ n, (Run.state step (start history) schedule n).producer ≠ .sending

variable {s : SyncStream} {history : List Sent}

/-- Before the return only the handler does anything. -/
theorem step_of_sending (h : s.producer = .sending) {a : StreamAction} (ha : a ≠ .work) :
    s.step a = s := by
  cases a with
  | work => exact absurd rfl ha
  | publish x => exact if_neg (by rw [h]; decide)
  | close => exact if_neg (by rw [h]; decide)
  | read => exact if_pos h

theorem work_cons {x : Sent} {rest : List Sent} (ht : s.toSend = x :: rest)
    (hroom : s.queue.length < channelBound) :
    s.work = { s with toSend := rest, queue := s.queue ++ [x] } := by
  unfold work
  rw [if_neg (by rw [ht]; exact List.cons_ne_nil x rest)]
  unfold send
  rw [ht]
  exact if_pos hroom

theorem work_of_full (ht : s.toSend ≠ []) (hfull : channelBound ≤ s.queue.length) :
    s.work = s := by
  unfold work
  rw [if_neg ht]
  obtain ⟨x, rest, hs⟩ := List.exists_cons_of_ne_nil ht
  unfold send
  rw [hs]
  exact if_neg (by omega)

theorem work_nil (hp : s.producer = .sending) (ht : s.toSend = []) :
    s.work = { s with producer := .live } := by
  unfold work
  rw [if_pos ht]
  exact if_pos ⟨hp, ht⟩

theorem stuck_of_full (hp : s.producer = .sending) (ht : s.toSend ≠ [])
    (hfull : channelBound ≤ s.queue.length) : s.Stuck := by
  refine ⟨hp, fun a => ?_⟩
  by_cases ha : a = .work
  · rw [ha]
    exact work_of_full ht hfull
  · exact step_of_sending hp ha

/-- While there is room, each turn moves one message into the channel. -/
theorem after_work : ∀ (k : ℕ), k ≤ history.length → k ≤ channelBound →
    Run.after step (start history) (List.replicate k .work) =
      ⟨.sending, history.drop k, history.take k⟩
  | 0, _, _ => rfl
  | k + 1, hlen, hroom => by
    rw [List.replicate_succ', Run.after_snoc, after_work k (by omega) (by omega)]
    have hdrop : history.drop k = history[k] :: history.drop (k + 1) :=
      List.drop_eq_getElem_cons (by omega)
    have hwork := work_cons (s := ⟨.sending, history.drop k, history.take k⟩) hdrop
      (by rw [List.length_take]; omega)
    have htake : history.take k ++ [history[k]] = history.take (k + 1) :=
      (List.take_concat_get' history k (by omega))
    rw [← htake]
    exact hwork

/-- A history that does not fit gets the handler stuck. -/
theorem stuck_of_long (h : channelBound < history.length) :
    (Run.after step (start history) (List.replicate channelBound .work)).Stuck := by
  rw [after_work channelBound h.le le_rfl]
  refine stuck_of_full rfl ?_ ?_
  · rw [ne_eq, List.drop_eq_nil_iff]
    omega
  · rw [List.length_take]
    omega

theorem step_ne_sending (hp : s.producer ≠ .sending) (a : StreamAction) :
    (s.step a).producer ≠ .sending := by
  cases a with
  | work =>
    show s.work.producer ≠ .sending
    unfold work
    split_ifs
    · unfold handOver
      rw [if_neg fun h => hp h.1]
      exact hp
    · unfold send
      rcases s.toSend with _ | ⟨x, rest⟩
      · exact hp
      · dsimp only
        split_ifs <;> exact hp
  | publish x =>
    show (s.publish x).producer ≠ .sending
    unfold publish
    split_ifs <;> exact hp
  | close =>
    show s.close.producer ≠ .sending
    unfold close
    split_ifs
    · exact fun hc => by cases hc
    · exact hp
  | read =>
    show s.read.producer ≠ .sending
    unfold read
    split_ifs <;> exact hp

/-- Until the return the history is in the channel or still to be sent. -/
def Underway (history : List Sent) (s : SyncStream) : Prop :=
  s.producer = .sending → s.queue ++ s.toSend = history

theorem Underway.step (h : Underway history s) (a : StreamAction) :
    Underway history (s.step a) := by
  by_cases hp : s.producer = .sending
  · by_cases ha : a = .work
    · rw [ha]
      show Underway history s.work
      rcases ht : s.toSend with _ | ⟨x, rest⟩
      · rw [work_nil hp ht]
        exact fun hl => by cases hl
      · by_cases hroom : s.queue.length < channelBound
        · rw [work_cons ht hroom]
          intro _
          have := h hp
          rw [ht] at this
          simpa using this
        · rw [work_of_full (by rw [ht]; exact List.cons_ne_nil x rest) (by omega)]
          exact h
    · rw [step_of_sending hp ha]
      exact h
  · exact fun hs => absurd hs (step_ne_sending hp a)

theorem underway_after (history : List Sent) (as : List StreamAction) :
    Underway history (Run.after step (start history) as) := by
  induction as using List.reverseRecOn with
  | nil => exact fun _ => rfl
  | append_singleton as a ih =>
    rw [Run.after_snoc]
    exact ih.step a

/-- A history that fits leaves room for what is left of it. -/
theorem Underway.room (h : Underway history s) (hlen : history.length ≤ channelBound)
    (hp : s.producer = .sending) {x : Sent} {rest : List Sent} (ht : s.toSend = x :: rest) :
    s.queue.length < channelBound := by
  have hall := congrArg List.length (h hp)
  rw [ht, List.length_append, List.length_cons] at hall
  omega

theorem Underway.not_stuck (h : Underway history s) (hlen : history.length ≤ channelBound) :
    ¬ s.Stuck := by
  rintro ⟨hp, hstep⟩
  have hwork : s.work = s := hstep .work
  rcases ht : s.toSend with _ | ⟨x, rest⟩
  · rw [work_nil hp ht] at hwork
    rw [← hwork] at hp
    cases hp
  · rw [work_cons ht (h.room hlen hp ht)] at hwork
    have := congrArg (fun s => s.queue.length) hwork
    simp at this

/-- A turn before the return leaves less to send. -/
theorem Underway.work_lt (h : Underway history s) (hlen : history.length ≤ channelBound)
    (hp : s.producer = .sending) (hp' : s.work.producer = .sending) :
    s.work.toSend.length < s.toSend.length := by
  rcases ht : s.toSend with _ | ⟨x, rest⟩
  · rw [work_nil hp ht] at hp'
    cases hp'
  · rw [work_cons ht (h.room hlen hp ht)]
    exact Nat.lt_succ_self rest.length

theorem returns_of_fair {schedule : ℕ → StreamAction} (hfair : Run.Fair (· = .work) schedule)
    (hlen : history.length ≤ channelBound) :
    ∃ n, (Run.state step (start history) schedule n).producer ≠ .sending := by
  refine hfair.exists_done (Underway history) (fun s => s.producer ≠ .sending)
    (fun s => s.toSend.length) (fun _ => rfl) (fun _ a h => h.step a) ?_ ?_
  · intro s a h hp hp'
    by_cases ha : a = .work
    · rw [ha] at hp' ⊢
      exact (h.work_lt hlen (not_not.1 hp) (not_not.1 hp')).le
    · rw [step_of_sending (not_not.1 hp) ha]
  · rintro s _ h rfl hp hp'
    exact h.work_lt hlen (not_not.1 hp) (not_not.1 hp')

theorem handsOver_iff (history : List Sent) :
    HandsOver history ↔ history.length ≤ channelBound := by
  constructor
  · intro h
    by_contra hlong
    exact h.1 _ (stuck_of_long (not_le.1 hlong))
  · intro hlen
    exact ⟨fun as => (underway_after history as).not_stuck hlen,
      fun _ hfair => returns_of_fair hfair hlen⟩

/-- One message more than the channel holds. -/
theorem not_handsOver_long :
    ¬ HandsOver (List.replicate 33 ⟨1, sampleMessage⟩) := by
  intro h
  refine h.1 (List.replicate 32 .work) (stuck_of_long ?_)
  rw [List.length_replicate]
  decide

end SyncStream

end AmbientFs
