import AmbientFs.Proofs.Client

/-!
# Requests the reader leaves behind

The reader empties the map of pending requests when it ends, and nothing does so after that. A
request that is registered later stays there unless its write fails. Reading a notification whose
receiver is gone ends the reader while the connection is open.
-/

namespace AmbientFs

open AmbientFsClient

variable {c : AmbientFsClient} {fromStr : List Char → Option JsonValue} {a : ClientAction}

namespace AmbientFsClient

variable (c)

/-- The reader task has finished. -/
def Done : Prop := ∃ e, c.reader = .finished e

/-- When the reader is done no request is in the map. -/
def NoneLeft : Prop := c.Done → c.pending = []

/-- When the reader is done no request in the map has been written and waits for its answer. -/
def NoneStuck : Prop :=
  c.Done → ∀ id n, (id, n) ∈ c.pending → ∀ k, c.requests[n]? ≠ some ⟨k, .waiting⟩

/-- The reader routes responses until the connection has ended or failed. -/
def Routing : Prop := c.reader ≠ .exiting .closed ∧ c.reader ≠ .finished .closed

/-- A request is put in the map. -/
def Registers : ClientAction → Prop
  | .register n => ∃ id, c.requests[n]? = some ⟨id, .started⟩
  | _ => False

/-- A request that is in the map is written. -/
def Sends : ClientAction → Prop
  | .write n true => (∃ id, c.requests[n]? = some ⟨id, .registered⟩) ∧ ∃ id, (id, n) ∈ c.pending
  | _ => False

/-- A notification is read that no one can receive. -/
def Unheard (fromStr : List Char → Option JsonValue) : ClientAction → Prop
  | .line text => c.reader = .reading ∧ c.notifications.receiver = false ∧
      ∃ msg, message fromStr text = some msg ∧ responseId msg = none ∧ msg.get "method" ≠ none
  | _ => False

/-! ## When the reader ends -/

variable {c}

theorem reader_notify (notification : ClientNotification) :
    (c.notify notification).reader =
      if c.notifications.receiver = false then .exiting .closed else c.reader := by
  unfold notify Mpsc.Channel.trySend
  split_ifs with h1 h2 <;> simp

theorem reader_respond (id : UInt64) (answer : Answer) :
    (c.respond id answer).reader = c.reader := by
  unfold respond
  split <;> rfl

theorem reader_await (n : ℕ) : (c.await n).reader = c.reader := by
  unfold await
  split
  · split
    · rfl
    · split_ifs <;> rfl
  · rfl

theorem reader_line (text : List Char) : (c.line fromStr text).reader = c.reader ∨
    c.Unheard fromStr (.line text) ∧ (c.line fromStr text).reader = .exiting .closed := by
  unfold line
  split
  · rename_i msg hr hm
    unfold receive
    rcases hid : responseId msg with _ | id
    · rcases hn : notification msg with _ | notification
      · exact .inl rfl
      · simp only [reader_notify]
        split_ifs with hrec
        · refine .inr ⟨⟨hr, hrec, msg, hm, hid, fun hc => ?_⟩, rfl⟩
          simp [AmbientFs.notification, hc] at hn
        · exact .inl rfl
    · exact .inl (reader_respond _ _)
  · exact .inl rfl

theorem reader_line_of_unheard {text : List Char} (h : c.Unheard fromStr (.line text)) :
    (c.line fromStr text).reader = .exiting .closed := by
  obtain ⟨hr, hrec, msg, hm, hid, hne⟩ := h
  obtain ⟨method, hmethod⟩ := Option.ne_none_iff_exists'.1 hne
  simp [line, hr, hm, receive, hid, notification, hmethod, reader_notify, hrec]

theorem reader_dropNotificationStream : c.dropNotificationStream.reader = c.reader := by
  unfold dropNotificationStream
  split_ifs <;> rfl

/-- Only the end of the connection and a notification that is not heard stop the reader. -/
theorem reader_step (a : ClientAction) : (c.step fromStr a).reader = c.reader ∨
    c.reader = .reading ∧ (c.step fromStr a).reader = .exiting .endOfStream ∨
    c.reader = .reading ∧ (c.step fromStr a).reader = .exiting .readError ∨
    c.Unheard fromStr a ∧ (c.step fromStr a).reader = .exiting .closed ∨
    (a = .drain ∧ ∃ e, c.reader = .exiting e ∧ (c.step fromStr a).reader = .finished e) := by
  cases a with
  | register n =>
    simp only [step, register]
    split <;> exact .inl rfl
  | write n written =>
    simp only [step, write]
    split <;> exact .inl rfl
  | unregister n =>
    simp only [step, unregister]
    split <;> exact .inl rfl
  | await n => exact .inl (reader_await n)
  | line text =>
    rcases reader_line text with heq | h
    · exact .inl heq
    · exact .inr (.inr (.inr (.inl h)))
  | endOfStream =>
    rcases hr : c.reader with _ | e | e <;> simp [step, exit, hr]
  | readError =>
    rcases hr : c.reader with _ | e | e <;> simp [step, exit, hr]
  | drain =>
    rcases hr : c.reader with _ | e | e <;> simp [step, drain, hr]
  | dropNotificationStream => exact .inl reader_dropNotificationStream
  | start serializes => exact .inl rfl
  | recvNotification => exact .inl rfl
  | takeNotificationStream => exact .inl rfl

theorem Routing.step (h : c.Routing) (ha : ¬ c.Unheard fromStr a) :
    (c.step fromStr a).Routing := by
  obtain ⟨hex, hfin⟩ := h
  rcases reader_step a with heq | ⟨-, heq⟩ | ⟨-, heq⟩ | ⟨hu, -⟩ | ⟨-, e, he, heq⟩
  · rw [Routing, heq]
    exact ⟨hex, hfin⟩
  · simp [Routing, heq]
  · simp [Routing, heq]
  · exact absurd hu ha
  · rw [Routing, heq]
    refine ⟨by simp, ?_⟩
    rintro ⟨rfl⟩
    exact hex he

theorem not_routing_of_unheard (h : c.Unheard fromStr a) : ¬ (c.step fromStr a).Routing := by
  cases a with
  | line text => exact fun hr => hr.1 (reader_line_of_unheard h)
  | _ => exact h.elim

theorem done_of_step (h : (c.step fromStr a).Done) :
    c.Done ∨ (c.step fromStr a).pending = [] := by
  obtain ⟨e, h⟩ := h
  rcases reader_step a with heq | ⟨-, heq⟩ | ⟨-, heq⟩ | ⟨-, heq⟩ | ⟨ha, e', he, -⟩
  · exact .inl ⟨e, heq ▸ h⟩
  · simp [heq] at h
  · simp [heq] at h
  · simp [heq] at h
  · right
    rw [ha]
    simp [step, drain, he]

theorem Done.step (h : c.Done) : (c.step fromStr a).Done := by
  obtain ⟨e, he⟩ := h
  rcases reader_step a with heq | ⟨hr, -⟩ | ⟨hr, -⟩ | ⟨hu, -⟩ | ⟨-, e', hr, -⟩
  · exact ⟨e, heq.trans he⟩
  · simp [hr] at he
  · simp [hr] at he
  · cases a with
    | line text => simp [hu.1] at he
    | _ => exact hu.elim
  · simp [hr] at he

/-! ## The map after that -/

theorem pending_effect_nil {c' : AmbientFsClient} (he : Effect fromStr c a c')
    (h : c.pending = []) (ha : ¬ c.Registers a) : c'.pending = [] := by
  cases he with
  | quiet hq hr => rw [hq.pending, h]
  | start serializes => exact h
  | advance hn hadv =>
    cases hadv with
    | register => exact absurd ⟨_, hn⟩ ha
    | write written => exact h
    | unregister => simp [remove, h]
    | await answer _ => exact h
  | respond hm hid hn => simp [h] at hn
  | drain e => rfl

theorem NoneLeft.step (h : c.NoneLeft) (ha : ¬ (c.Done ∧ c.Registers a)) :
    (c.step fromStr a).NoneLeft := by
  intro hd
  rcases done_of_step hd with hc | hnil
  · exact pending_effect_nil (step_effect _ a) (h hc) fun hreg => ha ⟨hc, hreg⟩
  · exact hnil

theorem not_noneLeft_of_registers (hd : c.Done) (ha : c.Registers a) :
    ¬ (c.step fromStr a).NoneLeft := by
  cases a with
  | register n =>
    obtain ⟨id, hn⟩ := ha
    intro h
    have hnil := h hd.step
    simp [AmbientFsClient.step, register, hn, AmbientFsClient.insert] at hnil
  | _ => exact ha.elim

/-- No request in the map waits for its answer, after an action that sends none. -/
theorem not_waiting_effect {c' : AmbientFsClient} (he : Effect fromStr c a c')
    (h : ∀ id n, (id, n) ∈ c.pending → ∀ k, c.requests[n]? ≠ some ⟨k, .waiting⟩)
    (ha : ¬ c.Sends a) :
    ∀ id n, (id, n) ∈ c'.pending → ∀ k, c'.requests[n]? ≠ some ⟨k, .waiting⟩ := by
  have hset : ∀ m stage, stage ≠ .waiting → ∀ id n, (id, n) ∈ c.pending ∨ n = m →
      ∀ k, (c.setStage m stage).requests[n]? ≠ some ⟨k, .waiting⟩ := by
    intro m stage hs id n hn k hw
    rcases eq_or_ne m n with rfl | hne
    · rw [requests_setStage] at hw
      obtain ⟨q, -, hq⟩ := Option.map_eq_some_iff.1 hw
      simp only [if_true, Request.mk.injEq] at hq
      exact hs hq.2
    · rw [requests_setStage_of_ne hne] at hw
      exact h id n (hn.resolve_right hne.symm) k hw
  cases he with
  | quiet hq hr => simpa only [hq.pending, hq.requests] using h
  | start serializes =>
    intro id n hn k hw
    simp only [start] at hw
    rcases lt_or_ge n c.requests.length with hlt | hge
    · rw [List.getElem?_append_left hlt] at hw
      exact h id n hn k hw
    · rw [List.getElem?_append_right hge] at hw
      obtain ⟨hlt, hq⟩ := List.getElem?_eq_some_iff.1 hw
      simp only [List.getElem_singleton, Request.mk.injEq] at hq
      have hq := hq.2
      split_ifs at hq
  | @advance _ n id _ _ _ hn hadv =>
    cases hadv with
    | register =>
      intro k m hm
      rcases mem_pending_insert.1 hm with ⟨hm, -⟩ | hm
      · exact hset _ .registered (by simp) k m (.inl hm)
      · exact hset _ .registered (by simp) k m (.inr (Prod.mk.inj hm).2)
    | write written =>
      cases written with
      | false => exact fun k m hm => hset _ _ (by simp) k m (.inl hm)
      | true =>
        intro k m hm j hw
        rcases eq_or_ne n m with rfl | hne
        · exact ha ⟨⟨id, hn⟩, k, hm⟩
        · rw [requests_setStage_of_ne hne] at hw
          exact h k m hm j hw
    | unregister =>
      intro k m hm
      exact hset _ _ (by simp) k m (.inl (mem_pending_remove.1 hm).1)
    | await answer _ => exact fun k m hm => hset _ _ (by simp) k m (.inl hm)
  | respond hm hid hn => exact fun k m hmem => h k m (mem_pending_remove.1 hmem).1
  | drain e => simp

theorem NoneStuck.step (h : c.NoneStuck) (ha : ¬ (c.Done ∧ c.Sends a)) :
    (c.step fromStr a).NoneStuck := by
  intro hd
  rcases done_of_step hd with hc | hnil
  · exact not_waiting_effect (step_effect _ a) (h hc) fun hs => ha ⟨hc, hs⟩
  · simp [hnil]

theorem not_noneStuck_of_sends (hd : c.Done) (ha : c.Sends a) :
    ¬ (c.step fromStr a).NoneStuck := by
  cases a with
  | write n written =>
    cases written with
    | false => exact ha.elim
    | true =>
      obtain ⟨⟨id, hn⟩, k, hk⟩ := ha
      have heq : c.step fromStr (.write n true) = c.setStage n .waiting := by
        simp [step, write, hn]
      intro h
      refine h hd.step k n (heq ▸ hk) id ?_
      rw [heq, requests_setStage_self hn]
  | _ => exact ha.elim

end AmbientFsClient

/-! ## Every run -/

/-- **Over a run the reader leaves no request in the map and routes responses until the connection
ends, exactly if no request is registered when the reader is done and no notification is read
after its receiver was dropped. No call is left waiting exactly if none in the map is written
when the reader is done.** -/
theorem client_settled_iff (fromStr : List Char → Option JsonValue) (notificationBuffer : ℕ)
    (as : List ClientAction) :
    (Run.Always (step fromStr) (.new notificationBuffer) (fun c => c.NoneLeft ∧ c.Routing) as ↔
      Run.Steps (step fromStr) (.new notificationBuffer)
        (fun c a => ¬ (c.Done ∧ c.Registers a) ∧ ¬ c.Unheard fromStr a) as) ∧
    (Run.Always (step fromStr) (.new notificationBuffer) (fun c => c.NoneStuck ∧ c.Routing) as ↔
      Run.Steps (step fromStr) (.new notificationBuffer)
        (fun c a => ¬ (c.Done ∧ c.Sends a) ∧ ¬ c.Unheard fromStr a) as) := by
  have hrouting : (new notificationBuffer).Routing := by simp [Routing, new]
  constructor
  · refine Run.always_iff_steps ⟨fun _ => rfl, hrouting⟩ (fun c h => h) ?_ ?_
    · rintro c a ⟨hleft, hr⟩ ⟨hreg, hu⟩
      exact ⟨hleft.step hreg, hr.step hu⟩
    · rintro c a - hg ⟨hleft, hr⟩
      refine hg ⟨fun h => ?_, fun hu => ?_⟩
      · exact not_noneLeft_of_registers h.1 h.2 hleft
      · exact not_routing_of_unheard hu hr
  · have hstuck : (new notificationBuffer).NoneStuck := by simp [NoneStuck, new]
    refine Run.always_iff_steps ⟨hstuck, hrouting⟩ (fun c h => h) ?_ ?_
    · rintro c a ⟨hs, hr⟩ ⟨hsend, hu⟩
      exact ⟨hs.step hsend, hr.step hu⟩
    · rintro c a - hg ⟨hs, hr⟩
      refine hg ⟨fun h => ?_, fun hu => ?_⟩
      · exact not_noneStuck_of_sends h.1 h.2 hs
      · exact not_routing_of_unheard hu hr

/-- A request that registers after the connection has ended waits for ever; dropping the receiver
of the notifications ends the reader. -/
theorem client_not_settled :
    (¬ ∀ (fromStr : List Char → Option JsonValue) (as : List ClientAction),
      Run.Always (step fromStr) (.new 256) NoneStuck as) ∧
    (¬ ∀ (fromStr : List Char → Option JsonValue) (as : List ClientAction),
      Run.Always (step fromStr) (.new 256) Routing as) := by
  refine ⟨fun h => ?_, fun h => ?_⟩
  · refine h (fun _ => none) [.endOfStream, .drain, .start true, .register 0, .write 0 true] _
      List.prefix_rfl ⟨.endOfStream, rfl⟩ 1 0 ?_ 1 rfl
    exact List.mem_singleton.2 rfl
  · refine (h (fun _ => some (.object [("method", .string "event")]))
      [.takeNotificationStream, .dropNotificationStream,
        .line "\x7b\"method\":\"event\"\x7d".toList] _ List.prefix_rfl).1 ?_
    simp only [Run.after_cons, Run.after_nil, step]
    refine reader_line_of_unheard ⟨rfl, rfl, .object [("method", .string "event")], ?_, ?_, ?_⟩
    · simp [message, Lines.trim, Lines.whiteSpace]
    · simp [responseId, List.lookup]
    · simp [List.lookup]

end AmbientFs
