import AmbientFs.TauriPlugin
import AmbientFs.Proofs.Codec

/-!
# The Tauri plugin connects once

The connection loop takes the client away only after it has locked it for a second time, and it
never gets that lock: it holds it. So there is one connection at most, and its end is not told.
From then on the client stays locked, and so it does from where the loop waits for notifications
of a connection on which nothing has been subscribed to: no command can come to change that.
-/

namespace AmbientFs

open AmbientFsClient

section Client

variable (fromStr : List Char → Option JsonValue) (c : AmbientFsClient)

theorem AmbientFsClient.notifications_notify (raw : ClientNotification) :
    (c.notify raw).notifications = c.notifications ∨
      (c.notify raw).notifications = c.notifications.append raw := by
  unfold notify Mpsc.Channel.trySend
  split_ifs
  · exact .inl rfl
  · exact .inr rfl
  · exact .inl rfl

theorem AmbientFsClient.notifications_respond (id : UInt64) (answer : Answer) :
    (c.respond id answer).notifications = c.notifications := by
  unfold respond
  split <;> rfl

theorem AmbientFsClient.notifications_exit (e : Exit) :
    (c.exit e).notifications = c.notifications := by
  unfold exit
  split <;> rfl

/-- Only a line that is a notification changes what is in the channel. -/
theorem AmbientFsClient.notifications_inside (a : ClientAction) :
    (c.inside fromStr a).notifications = c.notifications ∨
      ∃ text msg raw, a = .line text ∧ message fromStr text = some msg ∧ responseId msg = none ∧
        notification msg = some raw ∧
        (c.inside fromStr a).notifications = c.notifications.append raw := by
  cases a with
  | line text =>
    simp only [inside, ClientAction.inside, if_true, step, line]
    split
    · rename_i msg _ hm
      unfold receive
      rcases hid : responseId msg with _ | id
      · rcases hn : notification msg with _ | raw
        · exact .inl rfl
        · rcases notifications_notify { c with received := c.received ++ [msg] } raw with h | h
          · exact .inl h
          · exact .inr ⟨text, msg, raw, rfl, hm, hid, hn, h⟩
      · exact .inl (notifications_respond _ _ _)
    · exact .inl rfl
  | endOfStream => exact .inl (notifications_exit c _)
  | readError => exact .inl (notifications_exit c _)
  | _ =>
    refine .inl ?_
    simp only [inside, ClientAction.inside, if_true, Bool.false_eq_true, if_false, step, register,
      write, unregister, await, drain]
    repeat' split
    all_goals rfl

end Client

namespace Tauri

/-- The loop has not stored a client. -/
def TaskPoint.early : TaskPoint → Bool
  | connecting | storing _ => true
  | _ => false

/-- The loop has locked the client. -/
def TaskPoint.locks : TaskPoint → Bool
  | resubscribing _ | resubscribed .. | receiving | relocking => true
  | _ => false

/-- What the loop is about to emit. -/
def TaskPoint.next : TaskPoint → List Emission
  | handling n => [handleNotification n]
  | _ => []

/-- What is to be emitted for the notifications taken from the client's channel. -/
def forwarded (chrono : Chrono) (c : AmbientFsClient) : List Emission :=
  ((c.notifications.sent.take c.notifications.taken).filterMap
    (Client.Notification.ofRaw chrono)).map handleNotification

namespace PluginState

variable {chrono : Chrono} {fromStr : List Char → Option JsonValue} {s : PluginState}
  {c : AmbientFsClient}

/-- A command that waits for an answer has locked the client. -/
def Exclusive (s : PluginState) : Prop :=
  ∀ n command k, s.commands[n]? = some ⟨command, .asking k⟩ →
    s.clientLock = some (.command n) ∧ s.client.isSome

/-- No connection has been stored. -/
structure Before (s : PluginState) : Prop where
  client : s.client = none
  lock : s.clientLock = none
  connected : s.connected = false
  emitted : s.emitted = []
  asked : s.asked = []
  task : s.task = .connecting ∧ s.connects = 0 ∨
    ∃ c, s.task = .storing c ∧ s.connects = 1 ∧ c.notifications.taken = 0 ∧
      c.notifications.receiver = true

/-- The connection has been stored. -/
structure Open (chrono : Chrono) (s : PluginState) (c : AmbientFsClient) : Prop where
  client : s.client = some c
  lock : s.task.locks = true ↔ s.clientLock = some .task
  connected : s.connected = true
  emitted : s.emitted ++ s.task.next = emitConnected true :: forwarded chrono c
  late : s.task.early = false
  connects : s.connects = 1
  receiver : c.notifications.receiver = true
  taken : c.notifications.taken ≤ c.notifications.sent.length

/-- There is no connection yet, or it is the only one. -/
def Inv (chrono : Chrono) (s : PluginState) : Prop :=
  s.Exclusive ∧ (s.Before ∨ ∃ c, s.Open chrono c)

/-! ## Commands -/

theorem commands_setPoint {n m : ℕ} {point : CommandPoint} {i : Invocation}
    (h : (s.setPoint n point).commands[m]? = some i) :
    m ≠ n ∧ s.commands[m]? = some i ∨ m = n ∧ i.point = point := by
  unfold setPoint at h
  rw [List.getElem?_modify] at h
  by_cases hnm : n = m
  · rcases hm : s.commands[m]? with _ | j <;> simp [hm, hnm] at h
    exact .inr ⟨hnm.symm, h ▸ rfl⟩
  · simp only [hnm, if_false, id_map'] at h
    exact .inl ⟨Ne.symm hnm, h⟩

theorem Exclusive.of_idle {s' : PluginState} (h : s.Exclusive)
    (hidle : ∀ n, s.clientLock ≠ some (.command n)) (hc : s'.commands = s.commands) :
    s'.Exclusive :=
  fun n command k hk => absurd (h n command k (hc ▸ hk)).1 (hidle n)

theorem Exclusive.setPoint (h : s.Exclusive) (n : ℕ) {point : CommandPoint}
    (hp : ∀ k, point ≠ .asking k) : (s.setPoint n point).Exclusive := by
  intro m command k hk
  rcases commands_setPoint hk with ⟨-, hk⟩ | ⟨-, hk⟩
  · exact h m command k hk
  · exact absurd hk.symm (hp k)

/-- A command returns that has the lock, or while no one has it. -/
theorem Exclusive.finish (h : s.Exclusive) {n : ℕ}
    (hn : s.clientLock = none ∨ s.clientLock = some (.command n)) (reply : Reply) :
    (s.finish n reply).Exclusive := by
  intro m command k hk
  rcases commands_setPoint hk with ⟨hm, hk⟩ | ⟨-, hk⟩
  · have hlock := (h m command k hk).1
    rcases hn with hn | hn <;> rw [hn] at hlock <;> cases hlock
    exact absurd rfl hm
  · cases hk

theorem Exclusive.call (h : s.Exclusive) (hlock : s.clientLock = none) (n : ℕ)
    (command : Command) : (s.call n command).Exclusive := by
  unfold PluginState.call
  rcases hc : s.client with _ | c
  · exact h.finish (.inl hlock) _
  · intro m command' k hk
    rcases commands_setPoint hk with ⟨-, hk⟩ | ⟨rfl, -⟩
    · have := (h m command' k hk).1
      rw [hlock] at this
      cases this
    · exact ⟨rfl, rfl⟩

theorem Exclusive.invoke (h : s.Exclusive) (command : Command) : (s.invoke command).Exclusive := by
  intro n command' k hk
  simp only [PluginState.invoke, List.getElem?_append] at hk
  split_ifs at hk with hn
  · exact h n command' k hk
  · rw [List.getElem?_singleton] at hk
    split_ifs at hk
    cases command <;> simp at hk

theorem Exclusive.track (h : s.Exclusive) (n : ℕ) (command : Command) :
    (s.track n command).Exclusive := by
  cases command with
  | subscribe p => exact Exclusive.setPoint (s := { s with
      subscribedProjects := s.subscribedProjects ++ [p] }) h n (by simp)
  | unsubscribe p => exact Exclusive.setPoint (s := { s with
      subscribedProjects := s.subscribedProjects.filter (· ≠ p)
      projectsLock := some n }) h n (by simp)
  | _ => exact h

theorem Exclusive.commandStep (h : s.Exclusive) (n : ℕ) : (s.commandStep n).Exclusive := by
  unfold PluginState.commandStep
  split
  · split_ifs
    · exact h
    · exact h.track n _
  · split_ifs with hlock
    · exact h
    · exact h.call (by simpa using hlock) n _
  · rename_i command k hk
    split
    · exact h.finish (.inr (h n command k hk).1) _
    · exact h
  · exact h

theorem Exclusive.clientStep (h : s.Exclusive) (a : ClientAction) :
    (s.clientStep fromStr a).Exclusive := by
  intro n command k hk
  obtain ⟨hlock, hc⟩ := h n command k hk
  exact ⟨hlock, by simpa [PluginState.clientStep] using hc⟩

/-! ## Before the connection -/

namespace Before

theorem connect (h : s.Before) (ok : Bool) : (s.connect ok).Before := by
  unfold PluginState.connect
  split
  · split_ifs
    · rcases h.task with ⟨-, hn⟩ | ⟨c, hc, -⟩
      · exact ⟨h.client, h.lock, h.connected, h.emitted, h.asked,
          .inr ⟨_, rfl, by simp [hn], rfl, rfl⟩⟩
      · simp_all
    · exact ⟨h.client, h.lock, rfl, h.emitted, h.asked, h.task⟩
  · exact h

theorem taskStep (h : s.Before) :
    (s.taskStep chrono).Before ∨ ∃ c, (s.taskStep chrono).Open chrono c := by
  rcases h.task with ⟨ht, hn⟩ | ⟨c, ht, hn, htaken, hrec⟩
  · left
    rw [PluginState.taskStep, ht]
    exact h
  · right
    refine ⟨c, ?_⟩
    rw [PluginState.taskStep, ht]
    simp only [h.lock, Option.isSome_none, Bool.false_eq_true, if_false]
    refine ⟨rfl, ?_, rfl, ?_, rfl, hn, hrec, ?_⟩
    · simp [TaskPoint.locks]
    · simp [h.emitted, TaskPoint.next, forwarded, htaken]
    · simp [htaken]

theorem commandStep (h : s.Before) (n : ℕ) : (s.commandStep n).Before := by
  unfold PluginState.commandStep
  split
  · split_ifs
    · exact h
    · unfold PluginState.track
      split <;> exact ⟨h.client, h.lock, h.connected, h.emitted, h.asked, h.task⟩
  · split_ifs
    · exact h
    · refine ⟨?_, ?_, ?_, ?_, ?_, ?_⟩ <;>
        simp [PluginState.call, h.client, PluginState.finish, PluginState.setPoint, h.lock,
          h.connected, h.emitted, h.asked, h.task]
  · simp only [h.client, Option.bind_none]
    exact h
  · exact h

theorem clientStep (h : s.Before) (a : ClientAction) : (s.clientStep fromStr a).Before := by
  refine ⟨?_, h.lock, h.connected, h.emitted, h.asked, ?_⟩
  · simp [PluginState.clientStep, h.client]
  · rcases h.task with ⟨ht, hn⟩ | ⟨c, ht, hn, htaken, hrec⟩
    · left
      simp [PluginState.clientStep, ht, hn]
    · right
      refine ⟨c.inside fromStr a, by simp [PluginState.clientStep, ht], hn, ?_⟩
      rcases notifications_inside fromStr c a with he | ⟨_, _, raw, -, -, -, -, he⟩
      · rw [he]
        exact ⟨htaken, hrec⟩
      · rw [he]
        exact ⟨htaken, hrec⟩

end Before

/-! ## The connection -/

variable (chrono) in
/-- A notification is received. -/
theorem forwarded_recv {raw : ClientNotification} {rest : List ClientNotification}
    (hrec : c.notifications.receiver = true) (hq : c.notifications.queue = raw :: rest) :
    c.notifications.recv.taken ≤ c.notifications.sent.length ∧
      forwarded chrono c.recvNotification = forwarded chrono c ++
        ((Client.Notification.ofRaw chrono raw).map handleNotification).toList := by
  have hlt : c.notifications.taken < c.notifications.sent.length := by
    by_contra hge
    rw [Mpsc.Channel.queue, List.drop_eq_nil_of_le (by omega)] at hq
    cases hq
  have hget : c.notifications.sent[c.notifications.taken]? = some raw := by
    have := congrArg (·[0]?) hq
    simpa [Mpsc.Channel.queue] using this
  have htaken : c.notifications.recv.taken = c.notifications.taken + 1 := by
    simp [Mpsc.Channel.recv, hrec, hlt]
  refine ⟨by omega, ?_⟩
  unfold forwarded
  simp only [recvNotification, Mpsc.Channel.sent_recv, htaken, List.take_add_one, hget,
    Option.toList_some, List.filterMap_append, List.map_append]
  rcases hn : Client.Notification.ofRaw chrono raw with _ | n <;> simp [hn]

namespace Open

/-- The loop goes on without emitting, and locks or unlocks the client as it does. -/
theorem move (h : s.Open chrono c) (lock : Option Holder) {task : TaskPoint}
    (hlock : task.locks = true ↔ lock = some .task) (hnext : task.next = s.task.next)
    (hlate : task.early = false) :
    ({ s with clientLock := lock, task := task } : PluginState).Open chrono c :=
  ⟨h.client, hlock, h.connected, by rw [← h.emitted, ← hnext], hlate, h.connects, h.receiver,
    h.taken⟩

/-- Locks and calls are not looked at in the channel. -/
theorem start (h : s.Open chrono c) (asked : List String) :
    ({ s with client := some (c.start true), asked := asked } : PluginState).Open chrono
      (c.start true) :=
  ⟨rfl, h.lock, h.connected, h.emitted, h.late, h.connects, h.receiver, h.taken⟩

theorem receive (h : s.Open chrono c) (ht : s.task = .receiving) :
    ∃ c', (s.receive chrono c).Open chrono c' := by
  have hnext : s.task.next = [] := by rw [ht]; rfl
  have hlock : s.clientLock = some .task := h.lock.1 (by rw [ht]; rfl)
  unfold PluginState.receive
  split
  · split_ifs
    · exact ⟨c, h⟩
    · exact ⟨c, h.move s.clientLock (by simp [hlock, TaskPoint.locks]) hnext.symm rfl⟩
  · rename_i raw rest hq
    obtain ⟨htaken, hfor⟩ := forwarded_recv chrono h.receiver hq
    have hrec : c.notifications.recv.receiver = true := by
      unfold Mpsc.Channel.recv
      split_ifs <;> exact h.receiver
    have hle : c.notifications.recv.taken ≤ c.notifications.recv.sent.length := by
      rw [Mpsc.Channel.sent_recv]
      exact htaken
    have hemitted := h.emitted
    rw [hnext, List.append_nil] at hemitted
    refine ⟨c.recvNotification, ?_⟩
    rcases hn : Client.Notification.ofRaw chrono raw with _ | n <;> rw [hn] at hfor
    · simp only [Option.map_none, Option.toList_none, List.append_nil] at hfor
      split_ifs
      · exact ⟨rfl, by simp [TaskPoint.locks], h.connected,
          by simp [hfor, hemitted, TaskPoint.next], rfl, h.connects, hrec, hle⟩
      · exact ⟨rfl, by simp [TaskPoint.locks, hlock], h.connected,
          by simp [hfor, hemitted, TaskPoint.next], rfl, h.connects, hrec, hle⟩
    · exact ⟨rfl, by simp [TaskPoint.locks], h.connected,
        by simp [hfor, hemitted, TaskPoint.next], rfl, h.connects, hrec, hle⟩

theorem resubscribe (h : s.Open chrono c) {projects : List String}
    (ht : s.task = .resubscribing projects) : ∃ c', (s.resubscribe projects).Open chrono c' := by
  have hlock : s.clientLock = some .task := h.lock.1 (by rw [ht]; rfl)
  have hnext : s.task.next = [] := by rw [ht]; rfl
  unfold PluginState.resubscribe
  split
  · rename_i p rest c' hc
    obtain rfl : c' = c := by simpa [hc] using h.client
    exact ⟨_, (h.start _).move s.clientLock (by simp [TaskPoint.locks, hlock])
      hnext.symm rfl⟩
  · exact ⟨c, h.move _ (by simp [TaskPoint.locks]) hnext.symm rfl⟩

theorem taskStep (h : s.Open chrono c) : ∃ c', (s.taskStep chrono).Open chrono c' := by
  have hlate := h.late
  have hlock := h.lock
  have hc := h.client
  unfold PluginState.taskStep
  rcases ht : s.task with _ | c₀ | _ | ps | ps | ⟨k, ps⟩ | _ | _ | n | _ <;> rw [ht] at hlate hlock
  · cases hlate
  · cases hlate
  · simp only
    split_ifs
    · exact ⟨c, h⟩
    · exact ⟨c, h.move s.clientLock hlock (by rw [ht]; rfl) rfl⟩
    · exact ⟨c, h.move s.clientLock hlock (by rw [ht]; rfl) rfl⟩
  · simp only
    split_ifs
    · exact ⟨c, h⟩
    · exact ⟨c, h.move _ (by simp [TaskPoint.locks]) (by rw [ht]; rfl) rfl⟩
  · exact h.resubscribe ht
  · simp only
    split_ifs
    · exact ⟨c, h.move s.clientLock hlock (by rw [ht]; rfl) rfl⟩
    · exact ⟨c, h⟩
  · have hsome : ¬ s.client.isNone = true := by simp [hc]
    simp only [if_neg hsome]
    split_ifs
    · exact ⟨c, h⟩
    · exact ⟨c, h.move _ (by simp [TaskPoint.locks]) (by rw [ht]; rfl) rfl⟩
  · simp only
    split
    · rename_i c' hc'
      obtain rfl : c' = c := by simpa [hc'] using hc
      exact h.receive ht
    · exact ⟨c, h⟩
  · have hemitted := h.emitted
    rw [ht] at hemitted
    exact ⟨c, h.client, hlock, h.connected, by simpa [TaskPoint.next] using hemitted, rfl,
      h.connects, h.receiver, h.taken⟩
  -- the loop waits for the lock that it holds
  · simp only [hlock.1 rfl, Option.isSome_some, if_true]
    exact ⟨c, h⟩

theorem finish (h : s.Open chrono c) (n : ℕ) (reply : Reply) :
    (s.finish n reply).Open chrono c := by
  refine ⟨h.client, ?_, h.connected, h.emitted, h.late, h.connects, h.receiver, h.taken⟩
  show s.task.locks = true ↔ (if s.clientLock = some (Holder.command n) then none
    else s.clientLock) = some .task
  rw [h.lock]
  split_ifs with hlock
  · simp [hlock]
  · rfl

theorem commandStep (h : s.Open chrono c) (n : ℕ) : ∃ c', (s.commandStep n).Open chrono c' := by
  unfold PluginState.commandStep
  split
  · split_ifs
    · exact ⟨c, h⟩
    · unfold PluginState.track
      split <;> exact ⟨c, h.client, h.lock, h.connected, h.emitted, h.late, h.connects, h.receiver,
        h.taken⟩
  · rename_i command _
    split_ifs with hlock
    · exact ⟨c, h⟩
    · have hnone : s.clientLock = none := by simpa using hlock
      have hidle : ¬ s.task.locks = true := by simp [h.lock, hnone]
      simp only [PluginState.call, h.client]
      exact ⟨c.start true, rfl, by simp [hidle, PluginState.setPoint], h.connected, h.emitted,
        h.late, h.connects, h.receiver, h.taken⟩
  · split
    · exact ⟨c, h.finish n _⟩
    · exact ⟨c, h⟩
  · exact ⟨c, h⟩

theorem clientStep (h : s.Open chrono c) (a : ClientAction) :
    (s.clientStep fromStr a).Open chrono (c.inside fromStr a) := by
  have htask : (s.clientStep fromStr a).task = s.task := by
    have hlate := h.late
    simp only [PluginState.clientStep]
    split
    · rename_i ht
      rw [ht] at hlate
      cases hlate
    · rfl
  refine ⟨by simp [PluginState.clientStep, h.client], htask ▸ h.lock, h.connected, ?_,
    htask ▸ h.late, h.connects, ?_, ?_⟩
  · rw [htask]
    refine h.emitted.trans ?_
    rcases notifications_inside fromStr c a with he | ⟨_, _, raw, -, -, -, -, he⟩
    · simp [forwarded, he]
    · simp [forwarded, he, Mpsc.Channel.append, List.take_append_of_le_length h.taken]
  · rcases notifications_inside fromStr c a with he | ⟨_, _, raw, -, -, -, -, he⟩ <;>
      rw [he] <;> exact h.receiver
  · rcases notifications_inside fromStr c a with he | ⟨_, _, raw, -, -, -, -, he⟩
    · rw [he]
      exact h.taken
    · rw [he]
      exact h.taken.trans (by simp [Mpsc.Channel.append])

end Open

variable (s chrono) in
theorem commands_taskStep : (s.taskStep chrono).commands = s.commands := by
  unfold taskStep receive resubscribe disconnected
  repeat' split
  all_goals rfl

/-- While a command has the client locked, the loop leaves the client as it is. -/
theorem Open.taskStep_of_locked (h : s.Open chrono c) {n : ℕ}
    (hlock : s.clientLock = some (.command n)) :
    (s.taskStep chrono).clientLock = s.clientLock ∧ (s.taskStep chrono).client = s.client := by
  have hlate := h.late
  have hlocks : ¬ s.task.locks = true := by simp [h.lock, hlock]
  unfold PluginState.taskStep
  rcases ht : s.task with _ | c₀ | _ | ps | ps | ⟨k, ps⟩ | _ | _ | n | _ <;>
    rw [ht] at hlate hlocks
  · cases hlate
  · cases hlate
  · simp only
    split_ifs <;> exact ⟨rfl, rfl⟩
  · simp [hlock]
  · exact absurd rfl hlocks
  · exact absurd rfl hlocks
  · simp [hlock]
  · exact absurd rfl hlocks
  · exact ⟨rfl, rfl⟩
  · exact absurd rfl hlocks

theorem Open.connect (h : s.Open chrono c) (ok : Bool) : s.connect ok = s := by
  have hlate := h.late
  unfold PluginState.connect
  split
  · rename_i ht
    rw [ht] at hlate
    cases hlate
  · rfl

theorem Before.step (h : s.Before) (a : Action) :
    (s.step chrono fromStr a).Before ∨ ∃ c, (s.step chrono fromStr a).Open chrono c := by
  cases a with
  | connect ok => exact .inl (h.connect ok)
  | task => exact h.taskStep
  | invoke command => exact .inl ⟨h.client, h.lock, h.connected, h.emitted, h.asked, h.task⟩
  | command n => exact .inl (h.commandStep n)
  | client a => exact .inl (h.clientStep a)

theorem Open.step (h : s.Open chrono c) (a : Action) :
    ∃ c', (s.step chrono fromStr a).Open chrono c' := by
  cases a with
  | connect ok =>
    simp only [PluginState.step, h.connect]
    exact ⟨c, h⟩
  | task => exact h.taskStep
  | invoke command => exact ⟨c, h.client, h.lock, h.connected, h.emitted, h.late, h.connects,
      h.receiver, h.taken⟩
  | command n => exact h.commandStep n
  | client a => exact ⟨_, h.clientStep a⟩

theorem Inv.exclusive_taskStep (h : s.Inv chrono) : (s.taskStep chrono).Exclusive := by
  obtain ⟨hex, h | ⟨c, h⟩⟩ := h
  · exact hex.of_idle (by simp [h.lock]) (commands_taskStep chrono s)
  · intro n command k hk
    obtain ⟨hlock, hc⟩ := hex n command k (commands_taskStep chrono s ▸ hk)
    obtain ⟨hlock', hc'⟩ := h.taskStep_of_locked hlock
    exact ⟨hlock'.trans hlock, hc' ▸ hc⟩

theorem Inv.exclusive_connect (h : s.Inv chrono) (ok : Bool) : (s.connect ok).Exclusive := by
  obtain ⟨hex, h | ⟨c, h⟩⟩ := h
  · refine hex.of_idle (by simp [h.lock]) ?_
    unfold PluginState.connect
    repeat' split
    all_goals rfl
  · rw [h.connect]
    exact hex

theorem Inv.step (h : s.Inv chrono) (a : Action) : (s.step chrono fromStr a).Inv chrono := by
  refine ⟨?_, h.2.elim (·.step a) fun ⟨_, h⟩ => .inr (h.step a)⟩
  cases a with
  | connect ok => exact h.exclusive_connect ok
  | task => exact h.exclusive_taskStep
  | invoke command => exact h.1.invoke command
  | command n => exact h.1.commandStep n
  | client a => exact h.1.clientStep a

theorem inv_new : new.Inv chrono := by
  refine ⟨fun n command k hk => ?_, .inl ⟨rfl, rfl, rfl, rfl, rfl, .inl ⟨rfl, rfl⟩⟩⟩
  simp [new] at hk

theorem inv_after (as : List Action) : (Run.after (step chrono fromStr) new as).Inv chrono := by
  induction as using List.reverseRecOn with
  | nil => exact inv_new
  | append_singleton as a ih =>
    rw [Run.after_snoc]
    exact ih.step a

variable (fromStr) in
/-- The connection stays the only one. -/
theorem Open.after (h : s.Open chrono c) (bs : List Action) :
    ∃ c', (Run.after (PluginState.step chrono fromStr) s bs).Open chrono c' := by
  induction bs using List.reverseRecOn with
  | nil => exact ⟨c, h⟩
  | append_singleton bs b ih =>
    obtain ⟨c', h⟩ := ih
    rw [Run.after_snoc]
    exact h.step b

/-- The plugin connects once at most, and never tells that the connection has ended: once the
client is there it stays, and what is emitted is what came in over this one connection. -/
theorem connects_once (chrono : Chrono) (fromStr : List Char → Option JsonValue)
    (as bs : List Action) :
    let s := Run.after (step chrono fromStr) new as
    let t := Run.after (step chrono fromStr) new (as ++ bs)
    t.connects ≤ 1 ∧
      (s.client = none ∧ s.connected = false ∧ s.emitted = [] ∨
        ∃ c, t.client = some c ∧ t.connected = true ∧
          t.emitted ++ t.task.next = emitConnected true :: forwarded chrono c) := by
  intro s t
  constructor
  · obtain ⟨-, h | ⟨c, h⟩⟩ : t.Inv chrono := inv_after (as ++ bs)
    · rcases h.task with ⟨-, hn⟩ | ⟨c, -, hn, -⟩ <;> omega
    · exact h.connects.le
  · obtain ⟨-, h | ⟨c, h⟩⟩ : s.Inv chrono := inv_after as
    · exact .inl ⟨h.client, h.connected, h.emitted⟩
    · obtain ⟨c', h'⟩ := h.after fromStr bs
      rw [← Run.after_append] at h'
      exact .inr ⟨c', h'.client, h'.connected, h'.emitted⟩

/-! ## Nothing comes in -/

/-- The daemon sends a notification. -/
def notifies (fromStr : List Char → Option JsonValue) : Action → Prop
  | .client (.line text) => ∃ msg, message fromStr text = some msg ∧ responseId msg = none ∧
      (notification msg).isSome
  | _ => False

/-- Notifications come only on a connection on which a project has been subscribed to. -/
def Asked (fromStr : List Char → Option JsonValue) (s : PluginState) (a : Action) : Prop :=
  notifies fromStr a → s.asked ≠ []

/-- The loop waits with the client locked, for the lock that it has or for a notification on a
connection on which nothing has been subscribed to. -/
def Deaf (s : PluginState) : Prop :=
  s.clientLock = some .task ∧ (s.task = .relocking ∨ s.task = .receiving ∧ s.asked = [])

/-- Without a subscription there are no notifications. -/
def Quiet (s : PluginState) : Prop :=
  s.asked = [] → ∀ c, s.client = some c ∨ s.task = .storing c → c.notifications.sent = []

/-- Nothing has been emitted since, and no command has returned that needs the client. -/
structure Silent (s t : PluginState) : Prop where
  length : s.commands.length ≤ t.commands.length
  emitted : t.emitted = s.emitted
  returned : ∀ (n : ℕ) (command : Command) (reply : Reply),
    t.commands[n]? = some ⟨command, .returned reply⟩ →
    s.commands[n]? = some ⟨command, .returned reply⟩ ∨ s.commands[n]? = none ∧
      (command = .getStatus ∧ reply = .status true ∨ command = .queryTree)

theorem Silent.refl (s : PluginState) : Silent s s := ⟨le_rfl, rfl, fun _ _ _ h => .inl h⟩

theorem Silent.trans {t u : PluginState} (hst : Silent s t) (htu : Silent t u) : Silent s u := by
  refine ⟨hst.length.trans htu.length, htu.emitted.trans hst.emitted, fun n command reply h => ?_⟩
  rcases htu.returned n command reply h with h | ⟨hn, h⟩
  · exact hst.returned n command reply h
  · refine .inr ⟨?_, h⟩
    rw [List.getElem?_eq_none_iff] at hn ⊢
    exact hst.length.trans hn

theorem Silent.calling {u : PluginState} (hc : u.commands = s.commands)
    (he : u.emitted = s.emitted) (n : ℕ) : Silent s (u.setPoint n .calling) := by
  refine ⟨by simp [PluginState.setPoint, hc], he, fun m command reply h => .inl ?_⟩
  rcases commands_setPoint h with ⟨-, h⟩ | ⟨-, h⟩
  · rwa [hc] at h
  · cases h

theorem Silent.invoke (hconn : s.connected = true) (command : Command) :
    Silent s (s.invoke command) := by
  refine ⟨by simp [PluginState.invoke], rfl, fun n command' reply h => ?_⟩
  simp only [PluginState.invoke, List.getElem?_append] at h
  split_ifs at h with hn
  · exact .inl h
  · refine .inr ⟨List.getElem?_eq_none_iff.2 (by omega), ?_⟩
    rw [List.getElem?_singleton] at h
    split_ifs at h
    cases command <;> simp [hconn, eq_comm] at h
    · exact .inr h.1
    · exact .inl h

/-- The lock is not for a command, so it waits. -/
theorem Deaf.commandStep (h : s.Deaf) (hex : s.Exclusive) (n : ℕ) :
    (s.commandStep n).Deaf ∧ Silent s (s.commandStep n) := by
  unfold PluginState.commandStep
  split
  · split_ifs
    · exact ⟨h, .refl s⟩
    · unfold PluginState.track
      split
      · exact ⟨h, Silent.calling (by rfl) (by rfl) n⟩
      · exact ⟨h, Silent.calling (by rfl) (by rfl) n⟩
      · exact ⟨h, .refl s⟩
  · simp only [h.1, Option.isSome_some, if_true]
    exact ⟨h, .refl s⟩
  · rename_i command k hk
    have hlock := (hex n command k hk).1
    rw [h.1] at hlock
    cases hlock
  · exact ⟨h, .refl s⟩

theorem Deaf.taskStep (h : s.Deaf) (hopen : s.Open chrono c) (hq : s.Quiet) :
    (s.taskStep chrono).Deaf ∧ Silent s (s.taskStep chrono) := by
  obtain ⟨hlock, ht | ⟨ht, hasked⟩⟩ := h
  · simp only [PluginState.taskStep, ht, hlock, Option.isSome_some, if_true]
    exact ⟨⟨hlock, .inl ht⟩, .refl s⟩
  · have hqueue : c.notifications.queue = [] := by
      simp [Mpsc.Channel.queue, hq hasked c (.inl hopen.client)]
    simp only [PluginState.taskStep, ht, hopen.client, PluginState.receive, hqueue]
    split_ifs
    · exact ⟨⟨hlock, .inr ⟨ht, hasked⟩⟩, .refl s⟩
    · exact ⟨⟨hlock, .inl rfl⟩, ⟨le_rfl, rfl, fun _ _ _ h => .inl h⟩⟩

variable (fromStr) in
theorem Deaf.step (h : s.Deaf) (hex : s.Exclusive) (hopen : s.Open chrono c) (hq : s.Quiet)
    (a : Action) :
    (s.step chrono fromStr a).Deaf ∧ Silent s (s.step chrono fromStr a) := by
  cases a with
  | connect ok =>
    simp only [PluginState.step, hopen.connect]
    exact ⟨h, .refl s⟩
  | task => exact h.taskStep hopen hq
  | invoke command => exact ⟨h, .invoke hopen.connected command⟩
  | command n => exact h.commandStep hex n
  | client a =>
    refine ⟨⟨h.1, ?_⟩, ⟨le_rfl, rfl, fun _ _ _ h => .inl h⟩⟩
    rcases h.2 with ht | ⟨ht, hasked⟩
    · exact .inl (by simp [PluginState.step, PluginState.clientStep, ht])
    · exact .inr ⟨by simp [PluginState.step, PluginState.clientStep, ht], hasked⟩

variable (chrono) in
theorem receive_spec (hc : s.client = some c) : (s.receive chrono c).asked = s.asked ∧
    ∀ c', (s.receive chrono c).client = some c' →
      c'.notifications.sent = c.notifications.sent := by
  have hstay : ∀ c', s.client = some c' → c'.notifications.sent = c.notifications.sent := by
    intro c' hc'
    rw [hc, Option.some.injEq] at hc'
    rw [hc']
  have hrecv : ∀ c', some c.recvNotification = some c' →
      c'.notifications.sent = c.notifications.sent := by
    rintro _ ⟨⟩
    exact Mpsc.Channel.sent_recv _
  unfold receive
  split
  · split_ifs <;> exact ⟨rfl, hstay⟩
  · split
    · exact ⟨rfl, hrecv⟩
    · split_ifs <;> exact ⟨rfl, hrecv⟩

/-- The loop subscribes, or what has come in stays the same. -/
theorem Open.sent_taskStep (h : s.Open chrono c) (hasked : (s.taskStep chrono).asked = []) :
    s.asked = [] ∧ ∀ c', (s.taskStep chrono).client = some c' →
      c'.notifications.sent = c.notifications.sent := by
  have hlate := h.late
  have hc : ∀ c', s.client = some c' → c'.notifications.sent = c.notifications.sent := by
    intro c' hc'
    obtain rfl : c' = c := by simpa [hc'] using h.client
    rfl
  unfold PluginState.taskStep at hasked ⊢
  rcases ht : s.task with _ | c₀ | _ | ps | ps | ⟨k, ps⟩ | _ | _ | n | _ <;>
    rw [ht] at hlate <;> simp only [ht] at hasked ⊢
  · cases hlate
  · cases hlate
  · split_ifs at hasked ⊢ <;> exact ⟨hasked, hc⟩
  · split_ifs at hasked ⊢ <;> exact ⟨hasked, hc⟩
  · unfold PluginState.resubscribe at hasked ⊢
    split at hasked
    · simp at hasked
    · exact ⟨hasked, hc⟩
  · split_ifs at hasked ⊢ <;> exact ⟨hasked, hc⟩
  · have hsome : ¬ s.client.isNone = true := by simp [h.client]
    simp only [if_neg hsome] at hasked ⊢
    split_ifs at hasked ⊢ <;> exact ⟨hasked, hc⟩
  · split at hasked
    · rename_i c' hc'
      obtain rfl : c' = c := by simpa [hc'] using h.client
      obtain ⟨ha, hsent⟩ := receive_spec chrono hc'
      exact ⟨ha ▸ hasked, hsent⟩
    · exact ⟨hasked, hc⟩
  · exact ⟨hasked, hc⟩
  · split_ifs at hasked ⊢
    · exact ⟨hasked, hc⟩
    · exact ⟨hasked, by simp [disconnected]⟩

theorem Quiet.taskStep (h : s.Quiet) (hinv : s.Inv chrono) : (s.taskStep chrono).Quiet := by
  intro hasked c' hc'
  obtain ⟨-, hb | ⟨c, ho⟩⟩ := hinv
  · rcases hb.task with ⟨ht, -⟩ | ⟨c, ht, -⟩
    · rw [PluginState.taskStep, ht] at hasked hc'
      exact h hasked c' hc'
    · simp only [PluginState.taskStep, ht, hb.lock, Option.isSome_none, Bool.false_eq_true,
        if_false, Option.some.injEq, reduceCtorEq, or_false] at hc'
      exact h hb.asked c' (.inr (hc' ▸ ht))
  · obtain ⟨hasked', hsent⟩ := ho.sent_taskStep hasked
    rcases hc' with hc' | ht
    · rw [hsent c' hc']
      exact h hasked' c (.inl ho.client)
    · obtain ⟨_, ho'⟩ := ho.taskStep
      have hlate := ho'.late
      rw [ht] at hlate
      cases hlate

theorem Quiet.commandStep (h : s.Quiet) (n : ℕ) : (s.commandStep n).Quiet := by
  unfold PluginState.commandStep
  split
  · split_ifs
    · exact h
    · unfold PluginState.track
      split <;> exact h
  · split_ifs
    · exact h
    · unfold PluginState.call
      split
      · exact h
      · rename_i c hc
        intro hasked c' hc'
        have hs : s.asked = [] := by
          simp only [PluginState.setPoint] at hasked
          split at hasked
          · simp at hasked
          · exact hasked
        rcases hc' with hc' | ht
        · obtain rfl : c.start true = c' := by simpa [PluginState.setPoint] using hc'
          exact h hs c (.inl hc)
        · exact h hs c' (.inr ht)
  · split <;> exact h
  · exact h

theorem Quiet.clientStep (h : s.Quiet) {a : ClientAction}
    (ha : Asked fromStr s (.client a)) : (s.clientStep fromStr a).Quiet := by
  intro hasked c' hc'
  have hs : s.asked = [] := hasked
  have hsent : ∀ c : AmbientFsClient, c.notifications.sent = [] →
      (c.inside fromStr a).notifications.sent = [] := by
    intro c hc
    rcases notifications_inside fromStr c a with
      he | ⟨text, msg, raw, rfl, hm, hid, hn, -⟩
    · rw [he, hc]
    · exact absurd hs (ha ⟨msg, hm, hid, by simp [hn]⟩)
  rcases hc' with hc' | ht
  · simp only [PluginState.clientStep, Option.map_eq_some_iff] at hc'
    obtain ⟨c, hc, rfl⟩ := hc'
    exact hsent c (h hs c (.inl hc))
  · simp only [PluginState.clientStep] at ht
    split at ht
    · rename_i c hst
      obtain rfl : c.inside fromStr a = c' := by simpa using ht
      exact hsent c (h hs c (.inr hst))
    · exact h hs c' (.inr ht)

theorem Quiet.step (h : s.Quiet) (hinv : s.Inv chrono) {a : Action} (ha : Asked fromStr s a) :
    (s.step chrono fromStr a).Quiet := by
  cases a with
  | connect ok =>
    simp only [PluginState.step, PluginState.connect]
    split
    · split_ifs
      · intro hasked c' hc'
        rcases hc' with hc' | ht
        · exact h hasked c' (.inl hc')
        · cases ht
          rfl
      · exact h
    · exact h
  | task => exact h.taskStep hinv
  | invoke command => exact h
  | command n => exact h.commandStep n
  | client a => exact h.clientStep ha

theorem quiet_after {as : List Action}
    (hasked : Run.Steps (step chrono fromStr) new (Asked fromStr) as) :
    (Run.after (step chrono fromStr) new as).Inv chrono ∧
      (Run.after (step chrono fromStr) new as).Quiet := by
  refine hasked.after (I := fun s => s.Inv chrono ∧ s.Quiet) ⟨inv_new, ?_⟩ ?_
  · intro _ c hc
    simp [new] at hc
  · exact fun s a h ha => ⟨h.1.step a, h.2.step h.1 ha⟩

/-- Where the loop waits so, it waits for good: no command returns that needs the client, and
nothing is emitted any more. -/
theorem deaf_for_good (chrono : Chrono) (fromStr : List Char → Option JsonValue)
    (as bs : List Action)
    (hasked : Run.Steps (step chrono fromStr) new (Asked fromStr) (as ++ bs))
    (hdeaf : (Run.after (step chrono fromStr) new as).Deaf) :
    let s := Run.after (step chrono fromStr) new as
    let t := Run.after (step chrono fromStr) new (as ++ bs)
    t.Deaf ∧ t.connected = true ∧ t.emitted = s.emitted ∧
      ∀ (n : ℕ) (command : Command) (reply : Reply),
        t.commands[n]? = some ⟨command, .returned reply⟩ →
        s.commands[n]? = some ⟨command, .returned reply⟩ ∨ s.commands[n]? = none ∧
          (command = .getStatus ∧ reply = .status true ∨ command = .queryTree) := by
  intro s t
  have hopen : ∀ {u : PluginState}, u.Inv chrono → u.Deaf → ∃ c, u.Open chrono c := by
    rintro u ⟨-, hb | ho⟩ hu
    · rw [Deaf, hb.lock] at hu
      cases hu.1
    · exact ho
  have hrun : t.Deaf ∧ Silent s t := by
    induction bs using List.reverseRecOn with
    | nil =>
      simp only [t, List.append_nil]
      exact ⟨hdeaf, .refl s⟩
    | append_singleton bs b ih =>
      have hpre : as ++ bs <+: as ++ (bs ++ [b]) := by
        rw [← List.append_assoc]
        exact List.prefix_append _ _
      obtain ⟨hd, hs⟩ := ih (hasked.of_prefix hpre)
      obtain ⟨hinv, hq⟩ := quiet_after (hasked.of_prefix hpre)
      obtain ⟨c, ho⟩ := hopen hinv hd
      simp only [t, ← List.append_assoc, Run.after_snoc]
      obtain ⟨hd', hs'⟩ := hd.step fromStr hinv.1 ho hq b
      exact ⟨hd', hs.trans hs'⟩
  obtain ⟨hd, hs⟩ := hrun
  obtain ⟨c, ho⟩ := hopen (inv_after (as ++ bs)) hd
  exact ⟨hd, ho.connected, hs.emitted, hs.returned⟩

/-- The plugin has connected, and waits. -/
def opening : List Action := [.connect true, .task, .task, .task]

def subscribing : List Action := [.invoke (.subscribe "app"), .command 0, .command 0]

/-- The project is kept, and the daemon is never asked for it. -/
theorem deaf_for_good_subscribe :
    let t := Run.after (step Client.epochOnly fun _ => none) new (opening ++ subscribing)
    t.Deaf ∧ t.subscribedProjects = ["app"] ∧
      t.commands.map Invocation.command = [.subscribe "app"] ∧
      ∀ reply, t.commands[0]? ≠ some ⟨.subscribe "app", .returned reply⟩ := by
  intro t
  have hasked : Run.Steps (step Client.epochOnly fun _ => none) new (Asked fun _ => none)
      (opening ++ subscribing) := by
    simp only [opening, subscribing, List.cons_append, List.nil_append, Run.steps_cons]
    exact ⟨nofun, nofun, nofun, nofun, nofun, nofun, nofun, Run.steps_nil⟩
  obtain ⟨hdeaf, -, -, hreturned⟩ := deaf_for_good Client.epochOnly (fun _ => none) opening
    subscribing hasked ⟨rfl, .inr ⟨rfl, rfl⟩⟩
  refine ⟨hdeaf, rfl, rfl, fun reply h => ?_⟩
  rcases hreturned 0 _ reply h with h | ⟨-, ⟨h, -⟩ | h⟩
  · cases h
  · cases h
  · cases h

end PluginState

end Tauri

end AmbientFs
