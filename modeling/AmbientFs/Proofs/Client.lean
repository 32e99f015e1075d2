import AmbientFs.Client

/-!
# The answers of requests

At most one answer is sent to a call, and what it carries was read from a message with the id of
the call. A sender stays in the map until it is used or dropped.
-/

namespace AmbientFs

open AmbientFsClient

variable {c : AmbientFsClient} {n m : ℕ} {id : UInt64} {answer : Answer} {stage : RequestStage}

namespace AmbientFsClient

/-! ## What the operations change -/

@[simp] theorem pending_setStage : (c.setStage n stage).pending = c.pending := rfl

theorem requests_setStage : (c.setStage n stage).requests[m]? =
    (c.requests[m]?).map fun q => if n = m then { q with stage := stage } else q := by
  simp only [setStage, List.getElem?_modify]
  split_ifs <;> rfl

theorem requests_setStage_self {q : Request} (h : c.requests[n]? = some q) :
    (c.setStage n stage).requests[n]? = some { q with stage := stage } := by
  simp [requests_setStage, h]

theorem requests_setStage_of_ne (h : n ≠ m) :
    (c.setStage n stage).requests[m]? = c.requests[m]? := by
  simp [requests_setStage, h]

theorem mem_pending_insert {p : UInt64 × ℕ} :
    p ∈ (c.insert id n).pending ↔ p ∈ c.pending ∧ p.1 ≠ id ∨ p = (id, n) := by
  simp [insert]

theorem mem_pending_remove {p : UInt64 × ℕ} :
    p ∈ (c.remove id).pending ↔ p ∈ c.pending ∧ p.1 ≠ id := by
  simp [remove]

theorem mem_of_lookup {α : Type*} [BEq α] [LawfulBEq α] {β : Type*} {l : List (α × β)} {a : α}
    {b : β} (h : l.lookup a = some b) : (a, b) ∈ l := by
  obtain ⟨l₁, l₂, rfl, -⟩ := List.lookup_eq_some_iff.1 h
  simp

/-! ## What each action does -/

/-- The calls, the map and the answers are as they were. -/
structure Quiet (c c' : AmbientFsClient) : Prop where
  requests : c'.requests = c.requests
  pending : c'.pending = c.pending
  answers : c'.answers = c.answers
  received : c.received ⊆ c'.received

theorem Quiet.refl (c : AmbientFsClient) : Quiet c c := ⟨rfl, rfl, rfl, fun _ h => h⟩

/-- A call has been sent what a message says. -/
def responded (c : AmbientFsClient) (id : UInt64) (n : ℕ) (msg : JsonValue) : AmbientFsClient :=
  { c.remove id with
    answers := c.answers ++ [(n, responseAnswer msg)]
    received := c.received ++ [msg] }

theorem quiet_notify (notification : ClientNotification) : Quiet c (c.notify notification) := by
  unfold notify
  split
  · exact ⟨rfl, rfl, rfl, fun _ h => h⟩
  · exact Quiet.refl c
  · exact ⟨rfl, rfl, rfl, fun _ h => h⟩

theorem quiet_exit (e : Exit) : Quiet c (c.exit e) := by
  unfold exit
  split
  · exact ⟨rfl, rfl, rfl, fun _ h => h⟩
  · exact Quiet.refl c

theorem quiet_dropNotificationStream : Quiet c c.dropNotificationStream := by
  unfold dropNotificationStream
  split_ifs
  · exact Quiet.refl c
  · exact ⟨rfl, rfl, rfl, fun _ h => h⟩

theorem received_notify (notification : ClientNotification) :
    (c.notify notification).received = c.received := by
  unfold notify
  split <;> rfl

theorem received_exit (e : Exit) : (c.exit e).received = c.received := by
  unfold exit
  split <;> rfl

theorem received_dropNotificationStream : c.dropNotificationStream.received = c.received := by
  unfold dropNotificationStream
  split_ifs <;> rfl

variable (c) in
theorem receive_cases (msg : JsonValue) :
    (Quiet c (c.receive msg) ∧ (c.receive msg).received = c.received ++ [msg]) ∨
      ∃ id n, responseId msg = some id ∧ (id, n) ∈ c.pending ∧
        c.receive msg = c.responded id n msg := by
  have hread : Quiet c { c with received := c.received ++ [msg] } :=
    ⟨rfl, rfl, rfl, List.subset_append_left _ _⟩
  unfold receive
  rcases hid : responseId msg with _ | id
  · left
    rcases notification msg with _ | notification
    · exact ⟨hread, rfl⟩
    · have h := quiet_notify (c := { c with received := c.received ++ [msg] }) notification
      exact ⟨⟨h.requests, h.pending, h.answers, fun _ hm => h.received (hread.received hm)⟩,
        received_notify notification⟩
  · simp only [respond]
    rcases hl : c.pending.lookup id with _ | n
    · exact .inl ⟨hread, rfl⟩
    · exact .inr ⟨id, n, rfl, mem_of_lookup hl, rfl⟩

/-- The stage a call goes on from by an action and the one it goes on to, with the map it changes
on the way. -/
inductive Advances (c : AmbientFsClient) (n : ℕ) (id : UInt64) :
    ClientAction → RequestStage → AmbientFsClient → RequestStage → Prop
  | register : Advances c n id (.register n) .started (c.insert id n) .registered
  | write (written : Bool) : Advances c n id (.write n written) .registered c
      (if written then .waiting else .unwritten)
  | unregister :
      Advances c n id (.unregister n) .unwritten (c.remove id) (.returned (.error .io))
  | await (answer : Answer) (h : (n, answer) ∈ c.answers ∨ answer = .error .connectionClosed) :
      Advances c n id (.await n) .waiting c (.returned answer)

/-- What an action does to the calls, the map, the answers and the messages. -/
inductive Effect (fromStr : List Char → Option JsonValue) (c : AmbientFsClient) :
    ClientAction → AmbientFsClient → Prop
  | quiet {a : ClientAction} {c' : AmbientFsClient} (h : Quiet c c')
      (hr : c'.received = c.received ∨ ∃ text msg, a = .line text ∧
        message fromStr text = some msg ∧ c'.received = c.received ++ [msg]) : Effect fromStr c a c'
  | start (serializes : Bool) : Effect fromStr c (.start serializes) (c.start serializes)
  | advance {a : ClientAction} {n : ℕ} {id : UInt64} {before after : RequestStage}
      {d : AmbientFsClient} (hn : c.requests[n]? = some ⟨id, before⟩)
      (h : Advances c n id a before d after) : Effect fromStr c a (d.setStage n after)
  | respond {text : List Char} {msg : JsonValue} {id : UInt64} {n : ℕ}
      (hm : message fromStr text = some msg) (hid : responseId msg = some id)
      (hn : (id, n) ∈ c.pending) : Effect fromStr c (.line text) (c.responded id n msg)
  | drain (e : Exit) : Effect fromStr c .drain { c with
      pending := []
      answers := c.answers ++ c.pending.map fun p => (p.2, .error .connectionClosed)
      reader := .finished e }

variable {fromStr : List Char → Option JsonValue} {a : ClientAction}

theorem Effect.none : Effect fromStr c a c := .quiet (Quiet.refl c) (.inl rfl)

variable (c) in
theorem effect_line (text : List Char) : Effect fromStr c (.line text) (c.line fromStr text) := by
  unfold line
  split
  · rename_i msg hr hm
    rcases receive_cases c msg with ⟨hq, hrec⟩ | ⟨id, n, hid, hn, h⟩
    · exact .quiet hq (.inr ⟨text, msg, rfl, hm, hrec⟩)
    · rw [h]
      exact .respond hm hid hn
  · exact .none

variable (c n) in
theorem effect_await : Effect fromStr c (.await n) (c.await n) := by
  unfold await
  split
  · rename_i id h
    split
    · rename_i answer hl
      exact .advance h (.await answer (.inl (mem_of_lookup hl)))
    · split_ifs
      · exact .none
      · exact .advance h (.await _ (.inr rfl))
  · exact .none

variable (c) in
theorem step_effect (a : ClientAction) : Effect fromStr c a (c.step fromStr a) := by
  cases a with
  | start serializes => exact .start serializes
  | register n =>
    simp only [step, register]
    split
    · rename_i id h
      exact .advance h .register
    · exact .none
  | write n written =>
    simp only [step, write]
    split
    · rename_i id h
      exact .advance h (.write written)
    · exact .none
  | unregister n =>
    simp only [step, unregister]
    split
    · rename_i id h
      exact .advance h .unregister
    · exact .none
  | await n => exact effect_await c n
  | line text => exact effect_line c text
  | endOfStream => exact .quiet (quiet_exit _) (.inl (received_exit _))
  | readError => exact .quiet (quiet_exit _) (.inl (received_exit _))
  | drain =>
    simp only [step, drain]
    split
    · exact .drain _
    · exact .none
  | recvNotification => exact .quiet ⟨rfl, rfl, rfl, fun _ h => h⟩ (.inl rfl)
  | takeNotificationStream => exact .quiet ⟨rfl, rfl, rfl, fun _ h => h⟩ (.inl rfl)
  | dropNotificationStream =>
    exact .quiet quiet_dropNotificationStream (.inl received_dropNotificationStream)

end AmbientFsClient

/-! ## Where answers come from -/

/-- What is sent to a call with the id. -/
def AnswerSent (received : List JsonValue) (id : UInt64) (answer : Answer) : Prop :=
  answer = .error .connectionClosed ∨
    ∃ msg ∈ received, responseId msg = some id ∧ answer = responseAnswer msg

/-- What a call returns without having been sent it. -/
def Answer.own : Answer → Prop
  | .error .io | .error .jsonSerialize | .error .connectionClosed => True
  | _ => False

theorem AnswerSent.mono {received received' : List JsonValue} (h : AnswerSent received id answer)
    (hsub : received ⊆ received') : AnswerSent received' id answer := by
  rcases h with h | ⟨msg, hmsg, hid, h⟩
  · exact .inl h
  · exact .inr ⟨msg, hsub hmsg, hid, h⟩

/-- Every sender in the map is that of a call with the id, and has not been used; every answer was
sent to one call, and comes from a message with its id. -/
structure Routed (c : AmbientFsClient) : Prop where
  keys : (c.pending.map Prod.fst).Nodup
  pending : ∀ id n, (id, n) ∈ c.pending → n ∉ c.answers.map Prod.fst ∧
    ∃ stage, c.requests[n]? = some ⟨id, stage⟩ ∧ stage ≠ .started
  once : (c.answers.map Prod.fst).Nodup
  source : ∀ n answer, (n, answer) ∈ c.answers → ∃ id stage, c.requests[n]? = some ⟨id, stage⟩ ∧
    stage ≠ .started ∧ AnswerSent c.received id answer
  returned : ∀ n id answer, c.requests[n]? = some ⟨id, .returned answer⟩ →
    (n, answer) ∈ c.answers ∨ answer.own

namespace Routed

theorem quiet {c' : AmbientFsClient} (h : Routed c) (hq : Quiet c c') : Routed c' where
  keys := by simpa only [hq.pending] using h.keys
  pending := by simpa only [hq.pending, hq.answers, hq.requests] using h.pending
  once := by simpa only [hq.answers] using h.once
  source := by
    intro n answer hn
    rw [hq.answers] at hn
    obtain ⟨id, stage, hs, hne, hsent⟩ := h.source n answer hn
    exact ⟨id, stage, by rw [hq.requests, hs], hne, hsent.mono hq.received⟩
  returned := by simpa only [hq.answers, hq.requests] using h.returned

/-- A call that has started goes on. -/
theorem setStage (h : Routed c) {before : RequestStage} (hn : c.requests[n]? = some ⟨id, before⟩)
    (hstage : stage ≠ .started)
    (hreturned : ∀ answer, stage = .returned answer → (n, answer) ∈ c.answers ∨ answer.own) :
    Routed (c.setStage n stage) where
  keys := h.keys
  pending := by
    intro k m hm
    obtain ⟨hans, s, hs, hne⟩ := h.pending k m hm
    refine ⟨hans, ?_⟩
    rcases eq_or_ne n m with rfl | hnm
    · rw [requests_setStage_self hs]
      exact ⟨stage, rfl, hstage⟩
    · rw [requests_setStage_of_ne hnm]
      exact ⟨s, hs, hne⟩
  once := h.once
  source := by
    intro m answer hm
    obtain ⟨k, s, hs, hne, hsent⟩ := h.source m answer hm
    rcases eq_or_ne n m with rfl | hnm
    · rw [requests_setStage_self hs]
      exact ⟨k, stage, rfl, hstage, hsent⟩
    · rw [requests_setStage_of_ne hnm]
      exact ⟨k, s, hs, hne, hsent⟩
  returned := by
    intro m k answer hm
    rcases eq_or_ne n m with rfl | hnm
    · rw [requests_setStage_self hn] at hm
      simp only [Option.some.injEq, Request.mk.injEq] at hm
      exact hreturned answer hm.2
    · rw [requests_setStage_of_ne hnm] at hm
      exact h.returned m k answer hm

theorem remove (h : Routed c) (id : UInt64) : Routed (c.remove id) where
  keys := h.keys.sublist (List.filter_sublist.map _)
  pending k m hm := h.pending k m (mem_pending_remove.1 hm).1
  once := h.once
  source := h.source
  returned := h.returned

theorem start (h : Routed c) (serializes : Bool) : Routed (c.start serializes) where
  keys := h.keys
  pending := by
    intro k m hm
    obtain ⟨hans, s, hs, hne⟩ := h.pending k m hm
    exact ⟨hans, s, List.getElem?_append_left (List.getElem?_eq_some_iff.1 hs).1 ▸ hs, hne⟩
  once := h.once
  source := by
    intro m answer hm
    obtain ⟨k, s, hs, hne, hsent⟩ := h.source m answer hm
    exact ⟨k, s, List.getElem?_append_left (List.getElem?_eq_some_iff.1 hs).1 ▸ hs, hne, hsent⟩
  returned := by
    intro m k answer hm
    simp only [AmbientFsClient.start] at hm ⊢
    rcases lt_or_ge m c.requests.length with hlt | hge
    · rw [List.getElem?_append_left hlt] at hm
      exact h.returned m k answer hm
    · rw [List.getElem?_append_right hge] at hm
      obtain ⟨hlt, hq⟩ := List.getElem?_eq_some_iff.1 hm
      simp only [List.getElem_singleton, Request.mk.injEq] at hq
      have hq := hq.2
      split_ifs at hq
      cases hq
      exact .inr trivial

/-- Its sender has not been in the map, so it is there once. -/
theorem register (h : Routed c) (hn : c.requests[n]? = some ⟨id, .started⟩) :
    Routed ((c.insert id n).setStage n .registered) where
  keys := by
    simp only [pending_setStage, AmbientFsClient.insert, List.map_append, List.map_cons,
      List.map_nil, List.nodup_append]
    refine ⟨h.keys.sublist (List.filter_sublist.map _), List.nodup_singleton _, ?_⟩
    intro a ha b hb
    simp only [List.mem_map, List.mem_filter, decide_eq_true_eq, List.mem_singleton] at ha hb
    obtain ⟨p, ⟨-, hp⟩, rfl⟩ := ha
    rw [hb]
    exact hp
  pending := by
    intro k m hm
    rw [pending_setStage, mem_pending_insert] at hm
    rcases hm with ⟨hm, -⟩ | hm
    · obtain ⟨hans, s, hs, hne⟩ := h.pending k m hm
      have hnm : n ≠ m := by
        rintro rfl
        rw [hn] at hs
        cases hs
        exact hne rfl
      rw [requests_setStage_of_ne hnm]
      exact ⟨hans, s, hs, hne⟩
    · cases hm
      rw [requests_setStage_self (c := c.insert id n) hn]
      refine ⟨fun hans => ?_, .registered, rfl, by simp⟩
      obtain ⟨⟨m, answer⟩, hmem, rfl⟩ := List.mem_map.1 hans
      obtain ⟨k, s, hs, hne, -⟩ := h.source _ _ hmem
      rw [hn] at hs
      cases hs
      exact hne rfl
  once := h.once
  source := by
    intro m answer hm
    obtain ⟨k, s, hs, hne, hsent⟩ := h.source m answer hm
    have hnm : n ≠ m := by
      rintro rfl
      rw [hn] at hs
      cases hs
      exact hne rfl
    rw [requests_setStage_of_ne hnm]
    exact ⟨k, s, hs, hne, hsent⟩
  returned := by
    intro m k answer hm
    rcases eq_or_ne n m with rfl | hnm
    · rw [requests_setStage_self (c := c.insert id n) hn] at hm
      cases hm
    · rw [requests_setStage_of_ne hnm] at hm
      exact h.returned m k answer hm

/-- Senders are in the map once. -/
theorem eq_of_pending (h : Routed c) {k : UInt64} (hk : (k, n) ∈ c.pending)
    (hid : (id, n) ∈ c.pending) : k = id := by
  obtain ⟨-, s, hs, -⟩ := h.pending _ _ hk
  obtain ⟨-, s', hs', -⟩ := h.pending _ _ hid
  rw [hs] at hs'
  cases hs'
  rfl

theorem responded (h : Routed c) {msg : JsonValue} (hid : responseId msg = some id)
    (hn : (id, n) ∈ c.pending) : Routed (c.responded id n msg) where
  keys := (h.remove id).keys
  pending := by
    intro k m hm
    obtain ⟨hmem, hk⟩ := mem_pending_remove.1 hm
    obtain ⟨hans, s, hs, hne⟩ := h.pending k m hmem
    refine ⟨?_, s, hs, hne⟩
    simp only [AmbientFsClient.responded, List.map_append, List.map_cons, List.map_nil,
      List.mem_append, List.mem_singleton, not_or]
    refine ⟨hans, ?_⟩
    rintro rfl
    exact hk (h.eq_of_pending hmem hn)
  once := by
    obtain ⟨hans, -⟩ := h.pending id n hn
    simp only [AmbientFsClient.responded, List.map_append, List.map_cons, List.map_nil,
      List.nodup_append]
    refine ⟨h.once, List.nodup_singleton n, ?_⟩
    intro a ha b hb
    rw [List.mem_singleton.1 hb]
    rintro rfl
    exact hans ha
  source := by
    intro m answer hm
    simp only [AmbientFsClient.responded, List.mem_append, List.mem_singleton] at hm ⊢
    rcases hm with hm | hm
    · obtain ⟨k, s, hs, hne, hsent⟩ := h.source m answer hm
      exact ⟨k, s, hs, hne, hsent.mono (List.subset_append_left _ _)⟩
    · cases hm
      obtain ⟨-, s, hs, hne⟩ := h.pending id n hn
      exact ⟨id, s, hs, hne, .inr ⟨msg, by simp, hid, rfl⟩⟩
  returned m k answer hm := (h.returned m k answer hm).imp_left (List.mem_append_left _)

theorem senders_nodup (h : Routed c) : (c.pending.map Prod.snd).Nodup := by
  have hnodup : c.pending.Nodup := h.keys.of_map _
  refine hnodup.map_on ?_
  rintro ⟨k, n⟩ hk ⟨k', n'⟩ hk' rfl
  rw [h.eq_of_pending hk hk']

theorem drain (h : Routed c) (e : Exit) : Routed { c with
    pending := []
    answers := c.answers ++ c.pending.map fun p => (p.2, .error .connectionClosed)
    reader := .finished e } where
  keys := List.nodup_nil
  pending := by simp
  once := by
    simp only [List.map_append, List.map_map, Function.comp_def, List.nodup_append]
    refine ⟨h.once, h.senders_nodup, ?_⟩
    intro a ha b hb
    obtain ⟨⟨k, m⟩, hm, rfl⟩ := List.mem_map.1 hb
    rintro rfl
    exact (h.pending k _ hm).1 ha
  source := by
    intro m answer hm
    simp only [List.mem_append, List.mem_map] at hm
    rcases hm with hm | ⟨⟨k, n⟩, hn, hm⟩
    · exact h.source m answer hm
    · cases hm
      obtain ⟨-, s, hs, hne⟩ := h.pending k n hn
      exact ⟨k, s, hs, hne, .inl rfl⟩
  returned m k answer hm := (h.returned m k answer hm).imp_left (List.mem_append_left _)

variable {fromStr : List Char → Option JsonValue}

theorem effect {a : ClientAction} {c' : AmbientFsClient} (h : Routed c)
    (he : Effect fromStr c a c') : Routed c' := by
  cases he with
  | quiet hq hr => exact h.quiet hq
  | start serializes => exact h.start serializes
  | advance hn ha =>
    cases ha with
    | register => exact h.register hn
    | write written => refine h.setStage hn ?_ ?_ <;> split_ifs <;> simp
    | unregister =>
      refine (h.remove _).setStage hn (by simp) ?_
      rintro answer hs
      cases hs
      exact .inr trivial
    | await answer ha =>
      refine h.setStage hn (by simp) ?_
      rintro answer hs
      cases hs
      rcases ha with ha | rfl
      · exact .inl ha
      · exact .inr trivial
  | respond hm hid hn => exact h.responded hid hn
  | drain e => exact h.drain e

theorem new (notificationBuffer : ℕ) : Routed (.new notificationBuffer) where
  keys := List.nodup_nil
  pending := by simp [AmbientFsClient.new]
  once := List.nodup_nil
  source := by simp [AmbientFsClient.new]
  returned := by simp [AmbientFsClient.new]

theorem after (notificationBuffer : ℕ) (as : List ClientAction) :
    Routed (Run.after (AmbientFsClient.step fromStr) (.new notificationBuffer) as) := by
  induction as using List.reverseRecOn with
  | nil => exact new notificationBuffer
  | append_singleton as a ih =>
    rw [Run.after_snoc]
    exact ih.effect (step_effect _ a)

end Routed

section Runs

variable {fromStr : List Char → Option JsonValue}

theorem received_effect {a : ClientAction} {c' : AmbientFsClient} (he : Effect fromStr c a c') :
    c'.received = c.received ∨ ∃ text msg, a = .line text ∧ message fromStr text = some msg ∧
      c'.received = c.received ++ [msg] := by
  cases he with
  | quiet hq hr => exact hr
  | start serializes => exact .inl rfl
  | advance hn ha => cases ha <;> exact .inl rfl
  | respond hm hid hn => exact .inr ⟨_, _, rfl, hm, rfl⟩
  | drain e => exact .inl rfl

/-- What the reader has read are lines it was given. -/
theorem line_of_received (notificationBuffer : ℕ) (as : List ClientAction) {msg : JsonValue}
    (h : msg ∈ (Run.after (step fromStr) (.new notificationBuffer) as).received) :
    ∃ text, .line text ∈ as ∧ message fromStr text = some msg := by
  induction as using List.reverseRecOn with
  | nil => cases h
  | append_singleton as a ih =>
    have hold : msg ∈ (Run.after (step fromStr) (.new notificationBuffer) as).received →
        ∃ text, .line text ∈ as ++ [a] ∧ message fromStr text = some msg := by
      intro hmem
      obtain ⟨text, ht, hm⟩ := ih hmem
      exact ⟨text, List.mem_append_left _ ht, hm⟩
    rw [Run.after_snoc] at h
    rcases received_effect (step_effect _ a) with heq | ⟨text, msg', rfl, hm, heq⟩ <;>
      rw [heq] at h
    · exact hold h
    · rcases List.mem_append.1 h with h | h
      · exact hold h
      · rw [List.mem_singleton.1 h]
        exact ⟨text, by simp, hm⟩

/-- A stage of a call changes only in an action of that call, from a stage that is not the end. -/
theorem returned_effect {a : ClientAction} {c' : AmbientFsClient} (he : Effect fromStr c a c')
    (h : c.requests[n]? = some ⟨id, .returned answer⟩) :
    c'.requests[n]? = some ⟨id, .returned answer⟩ := by
  cases he with
  | quiet hq hr => rw [hq.requests, h]
  | start serializes => exact List.getElem?_append_left (List.getElem?_eq_some_iff.1 h).1 ▸ h
  | @advance _ m _ _ _ _ hm ha =>
    have hne : m ≠ n := by
      rintro rfl
      rw [h] at hm
      cases hm
      cases ha
    rw [requests_setStage_of_ne hne]
    cases ha <;> exact h
  | respond hm hid hn => exact h
  | drain e => exact h

theorem returned_after (as : List ClientAction)
    (h : c.requests[n]? = some ⟨id, .returned answer⟩) :
    (Run.after (step fromStr) c as).requests[n]? = some ⟨id, .returned answer⟩ := by
  induction as using List.reverseRecOn with
  | nil => exact h
  | append_singleton as a ih =>
    rw [Run.after_snoc]
    exact returned_effect (step_effect _ a) ih

theorem quiet_line (text : List Char)
    (h : ∀ msg, message fromStr text = some msg → responseId msg = none) :
    Quiet c (c.line fromStr text) := by
  unfold line
  split
  · rename_i msg hr hm
    rcases receive_cases c msg with ⟨hq, -⟩ | ⟨id, n, hid, -, -⟩
    · exact hq
    · rw [h msg hm] at hid
      cases hid
  · exact Quiet.refl c

end Runs

theorem responseAnswer_eq_ok {msg result : JsonValue} (h : responseAnswer msg = .ok result) :
    msg.get "error" = none ∧ msg.get "result" = some result := by
  unfold responseAnswer at h
  split at h
  · cases h
  · rename_i he
    split at h
    · rename_i hr
      cases h
      exact ⟨he, hr⟩
    · cases h

theorem responseAnswer_eq_daemonError {msg : JsonValue} {text : String}
    (h : responseAnswer msg = .error (.daemonError text)) : ∃ err, msg.get "error" = some err ∧
      text = ((err.get "message").bind Json.Value.asStr).getD "unknown error" := by
  unfold responseAnswer at h
  split at h
  · rename_i err he
    cases h
    exact ⟨err, he, rfl⟩
  · split at h <;> cases h

/-- A result or an error of the daemon comes from a message. -/
theorem AnswerSent.message {received : List JsonValue} (h : AnswerSent received id answer)
    (hne : answer ≠ .error .connectionClosed) :
    ∃ msg ∈ received, responseId msg = some id ∧ answer = responseAnswer msg :=
  h.resolve_left hne

/-- A result or an error of the daemon that a call has comes from a line with its id. -/
theorem exists_line_of_answer {fromStr : List Char → Option JsonValue} (notificationBuffer : ℕ)
    (as : List ClientAction) {n : ℕ} {id : UInt64} {stage : RequestStage} {answer : Answer}
    (hn : (Run.after (step fromStr) (.new notificationBuffer) as).requests[n]? = some ⟨id, stage⟩)
    (ha : (n, answer) ∈ (Run.after (step fromStr) (.new notificationBuffer) as).answers ∨
      stage = .returned answer) (hown : ¬ answer.own) :
    ∃ text msg, .line text ∈ as ∧ message fromStr text = some msg ∧ responseId msg = some id ∧
      answer = responseAnswer msg := by
  have h : Routed (Run.after (step fromStr) (.new notificationBuffer) as) :=
    Routed.after notificationBuffer as
  have hsent : (n, answer) ∈ (Run.after (step fromStr) (.new notificationBuffer) as).answers := by
    rcases ha with ha | rfl
    · exact ha
    · exact (h.returned n id answer hn).resolve_right hown
  have hne : answer ≠ .error .connectionClosed := by
    rintro rfl
    exact hown trivial
  obtain ⟨k, s, hs, -, hk⟩ := h.source n answer hsent
  rw [hn] at hs
  cases hs
  obtain ⟨msg, hmem, hid, heq⟩ := hk.message hne
  obtain ⟨text, ht, hm⟩ := line_of_received notificationBuffer as hmem
  exact ⟨text, msg, ht, hm, hid, heq⟩

/-- **A call is sent at most one answer and returns once; a result or an error of the daemon it
gets is that of a line with its id; and a line without an id resolves nothing.** -/
theorem responses_routed (fromStr : List Char → Option JsonValue) (notificationBuffer : ℕ)
    (as : List ClientAction) :
    let c : AmbientFsClient := Run.after (step fromStr) (.new notificationBuffer) as
    (c.answers.map Prod.fst).Nodup ∧
    (∀ (n : ℕ) id answer, c.requests[n]? = some ⟨id, .returned answer⟩ →
      ∀ later, (Run.after (step fromStr) c later).requests[n]? = some ⟨id, .returned answer⟩) ∧
    (∀ (n : ℕ) id stage answer, c.requests[n]? = some ⟨id, stage⟩ →
      (n, answer) ∈ c.answers ∨ stage = .returned answer →
      (∀ result, answer = .ok result → ∃ text msg, .line text ∈ as ∧
        message fromStr text = some msg ∧ responseId msg = some id ∧
        msg.get "error" = none ∧ msg.get "result" = some result) ∧
      (∀ error, answer = .error (.daemonError error) → ∃ text msg err, .line text ∈ as ∧
        message fromStr text = some msg ∧ responseId msg = some id ∧ msg.get "error" = some err ∧
        error = ((err.get "message").bind Json.Value.asStr).getD "unknown error")) ∧
    (∀ text, (∀ msg, message fromStr text = some msg → responseId msg = none) →
      (c.line fromStr text).answers = c.answers ∧ (c.line fromStr text).requests = c.requests) := by
  intro c
  have h : Routed c := Routed.after notificationBuffer as
  refine ⟨h.once, fun n id answer hn later => returned_after later hn, ?_, ?_⟩
  · intro n id stage answer hn ha
    constructor
    · rintro result rfl
      obtain ⟨text, msg, ht, hm, hid, heq⟩ :=
        exists_line_of_answer notificationBuffer as hn ha fun hown => hown
      obtain ⟨he, hr⟩ := responseAnswer_eq_ok heq.symm
      exact ⟨text, msg, ht, hm, hid, he, hr⟩
    · rintro error rfl
      obtain ⟨text, msg, ht, hm, hid, heq⟩ :=
        exists_line_of_answer notificationBuffer as hn ha fun hown => hown
      obtain ⟨err, he, hr⟩ := responseAnswer_eq_daemonError heq.symm
      exact ⟨text, msg, err, ht, hm, hid, he, hr⟩
  · intro text hno
    have hq : Quiet c (c.line fromStr text) := quiet_line text hno
    exact ⟨hq.answers, hq.requests⟩

end AmbientFs
