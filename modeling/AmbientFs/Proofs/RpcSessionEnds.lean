import AmbientFs.Proofs.ClientApi
import AmbientFs.Proofs.ClientOrphans
import AmbientFs.Proofs.Connection
import AmbientFs.RpcSession

/-!
# The two ends of a session

What one action of the client keeps: the ids are taken in order, and a call is heard from until its
response comes. What one action of the loop of a connection keeps: it reads no line, or takes the
next one and answers its request.
-/

namespace AmbientFs

open AmbientFsClient

/-! ## The client -/

namespace AmbientFsClient

variable {c c' : AmbientFsClient} {fromStr : List Char → Option JsonValue} {a : ClientAction}
  {n m : ℕ} {id : UInt64} {stage : RequestStage}

/-- The ids are taken in order. -/
structure Numbered (c : AmbientFsClient) : Prop where
  ids : c.requests.map Request.id = (List.range c.requests.length).map fun n => .ofNat (n + 1)
  nextId : c.nextId = .ofNat (c.requests.length + 1)

theorem numbered_new (notificationBuffer : ℕ) : Numbered (.new notificationBuffer) := ⟨rfl, rfl⟩

theorem Numbered.start (h : Numbered c) (serializes : Bool) : Numbered (c.start serializes) where
  ids := by
    simp only [AmbientFsClient.start, List.map_append, List.map_singleton, h.ids, h.nextId,
      List.length_append, List.length_singleton, List.range_succ]
  nextId := by
    rw [AmbientFsClient.start, h.nextId, List.length_append, List.length_singleton,
      UInt64.ofNat_add (c.requests.length + 1) 1]
    rfl

theorem ids_setStage (c : AmbientFsClient) (n : ℕ) (stage : RequestStage) :
    (c.setStage n stage).requests.map Request.id = c.requests.map Request.id := by
  refine List.ext_getElem? fun m => ?_
  rw [List.getElem?_map, List.getElem?_map, requests_setStage, Option.map_map]
  congr 1
  funext q
  simp only [Function.comp_apply]
  split_ifs <;> rfl

variable (fromStr) in
/-- No other action takes an id. -/
theorem ids_step (c : AmbientFsClient) (ha : ∀ serializes, a ≠ .start serializes) :
    (c.step fromStr a).requests.map Request.id = c.requests.map Request.id ∧
      (c.step fromStr a).nextId = c.nextId := by
  cases a with
  | start serializes => exact absurd rfl (ha serializes)
  | register n =>
    simp only [step, register]
    split
    · exact ⟨ids_setStage _ n _, rfl⟩
    · exact ⟨rfl, rfl⟩
  | write n written =>
    simp only [step, write]
    split
    · exact ⟨ids_setStage _ n _, rfl⟩
    · exact ⟨rfl, rfl⟩
  | unregister n =>
    simp only [step, unregister]
    split
    · exact ⟨ids_setStage _ n _, rfl⟩
    · exact ⟨rfl, rfl⟩
  | await n =>
    simp only [step, await]
    repeat' split
    all_goals first | exact ⟨ids_setStage _ n _, rfl⟩ | exact ⟨rfl, rfl⟩
  | line text =>
    simp only [step, line, receive, respond, notify]
    repeat' split
    all_goals exact ⟨rfl, rfl⟩
  | endOfStream | readError =>
    simp only [step, exit]
    split <;> exact ⟨rfl, rfl⟩
  | drain =>
    simp only [step, drain]
    split <;> exact ⟨rfl, rfl⟩
  | dropNotificationStream =>
    simp only [step, dropNotificationStream]
    split_ifs <;> exact ⟨rfl, rfl⟩
  | _ => exact ⟨rfl, rfl⟩

theorem Numbered.step (h : Numbered c) (a : ClientAction) : Numbered (c.step fromStr a) := by
  by_cases ha : ∃ serializes, a = .start serializes
  · obtain ⟨serializes, rfl⟩ := ha
    exact h.start serializes
  · obtain ⟨hids, hnext⟩ := ids_step fromStr c fun b hb => ha ⟨b, hb⟩
    have hlength := congrArg List.length hids
    rw [List.length_map, List.length_map] at hlength
    exact ⟨by rw [hids, hlength, h.ids], by rw [hnext, hlength, h.nextId]⟩

theorem Numbered.id_eq (h : Numbered c) (hn : c.requests[n]? = some ⟨id, stage⟩) :
    id = .ofNat (n + 1) := by
  have hlt := (List.getElem?_eq_some_iff.1 hn).1
  have hid : (c.requests.map Request.id)[n]? = some id := by rw [List.getElem?_map, hn]; rfl
  rw [h.ids, List.getElem?_map, List.getElem?_range hlt] at hid
  exact (Option.some.inj hid).symm

/-- So many calls have ids of their own. -/
theorem Numbered.eq_of_id (h : Numbered c) (hfew : c.requests.length < 2 ^ 63)
    {stage' : RequestStage} (hn : c.requests[n]? = some ⟨id, stage⟩)
    (hm : c.requests[m]? = some ⟨id, stage'⟩) : n = m := by
  have hlt : ∀ k : ℕ, k < c.requests.length → (UInt64.ofNat (k + 1)).toNat = k + 1 := fun k hk =>
    UInt64.toNat_ofNat_of_lt' (lt_of_le_of_lt hk (hfew.trans (by decide)))
  have heq := congrArg UInt64.toNat ((h.id_eq hn).symm.trans (h.id_eq hm))
  rw [hlt n (List.getElem?_eq_some_iff.1 hn).1, hlt m (List.getElem?_eq_some_iff.1 hm).1] at heq
  omega

/-- A response to the call will be heard, or has been. -/
def Heard (c : AmbientFsClient) (n : ℕ) : Prop :=
  (∃ id, (id, n) ∈ c.pending) ∨ n ∈ c.answers.map Prod.fst

theorem answers_effect (he : Effect fromStr c a c') {p : ℕ × Answer} (hp : p ∈ c.answers) :
    p ∈ c'.answers := by
  cases he with
  | quiet hq hrec => rwa [hq.answers]
  | start serializes => exact hp
  | advance hm hadv => cases hadv <;> exact hp
  | respond hmsg hid hm => exact List.mem_append_left _ hp
  | drain e => exact List.mem_append_left _ hp

/-- As long as the reader reads, a call whose write has not failed is heard from when it is in the
map. -/
theorem Heard.effect (h : c.Heard n) (he : Effect fromStr c a c') (hr : Routed c)
    (hnum : Numbered c) (hfew : c.requests.length < 2 ^ 63) (hread : c'.reader = .reading)
    (hstage : ∀ id, c.requests[n]? ≠ some ⟨id, .unwritten⟩) : c'.Heard n := by
  rcases h with ⟨k, hk⟩ | h
  · obtain ⟨-, stage, hs, hne⟩ := hr.pending k n hk
    cases he with
    | quiet hq hrec => exact .inl ⟨k, hq.pending ▸ hk⟩
    | start serializes => exact .inl ⟨k, hk⟩
    | @advance _ m id _ _ _ hm hadv =>
      cases hadv with
      | register =>
        refine .inl ⟨k, mem_pending_insert.2 (.inl ⟨hk, ?_⟩)⟩
        rintro rfl
        obtain rfl := hnum.eq_of_id hfew hs hm
        rw [hs] at hm
        cases hm
        exact hne rfl
      | write written => exact .inl ⟨k, hk⟩
      | unregister =>
        refine .inl ⟨k, mem_pending_remove.2 ⟨hk, ?_⟩⟩
        rintro rfl
        obtain rfl := hnum.eq_of_id hfew hs hm
        exact hstage _ hm
      | await answer _ => exact .inl ⟨k, hk⟩
    | @respond _ msg id m hmsg hid hm =>
      by_cases hkey : k = id
      · subst hkey
        obtain rfl : n = m := congrArg Prod.snd (List.inj_on_of_nodup_map hr.keys hk hm rfl)
        exact .inr (by simp [responded])
      · exact .inl ⟨k, mem_pending_remove.2 ⟨hk, hkey⟩⟩
    | drain e => cases hread
  · obtain ⟨p, hp, rfl⟩ := List.mem_map.1 h
    exact .inr (List.mem_map_of_mem (answers_effect he hp))

/-- As long as the reader reads, the answers are those of messages. -/
def Open (c : AmbientFsClient) : Prop :=
  c.reader = .reading → ∀ p ∈ c.answers, p.2 ≠ .error .connectionClosed

theorem responseAnswer_ne (msg : JsonValue) : responseAnswer msg ≠ .error .connectionClosed := by
  unfold responseAnswer
  repeat' split
  all_goals simp

/-- The reader does not come back. -/
theorem reading_of_step (h : (c.step fromStr a).reader = .reading) : c.reader = .reading := by
  by_contra hc
  rcases reader_step a with heq | h' | h' | h' | ⟨-, e, -, h'⟩
  · exact hc (heq ▸ h)
  · exact hc h'.1
  · exact hc h'.1
  · rw [h'.2] at h
    cases h
  · rw [h'] at h
    cases h

theorem Open.step (h : c.Open) (a : ClientAction) : (c.step fromStr a).Open := by
  intro hread
  have hold := h (reading_of_step hread)
  have he : Effect fromStr c a (c.step fromStr a) := step_effect c a
  revert he hread
  generalize c.step fromStr a = c'
  intro hread he
  cases he with
  | quiet hq hrec => rwa [hq.answers]
  | start serializes => exact hold
  | advance hm hadv => cases hadv <;> exact hold
  | respond hmsg hid hm =>
    intro p hp
    rcases List.mem_append.1 hp with hp | hp
    · exact hold p hp
    · rw [List.mem_singleton.1 hp]
      exact responseAnswer_ne _
  | drain e => cases hread

end AmbientFsClient

/-! ## The loop of the connection -/

namespace Rpc

theorem Response.responseId_toValue {r : Response} {n : UInt64} (h : r.id = .number n.toNat) :
    responseId r.toValue = some n := by
  have hget : r.toValue.get "id" = some r.id.toValue := by
    unfold toValue
    rcases r.result with _ | result <;> rcases r.error with _ | error <;> rfl
  simp [responseId, hget, h, Id.toValue, JsonValue.ofI64, Json.Value.asNumber, JsonNumber.asU64]

namespace Connection

variable {c c' : Connection} {fromStr : List Char → Option JsonValue}

/-- No line is read and no response is written. -/
structure Idle (c c' : Connection) : Prop where
  unread : c'.unread = c.unread
  closed : c'.closed = c.closed
  responses : c'.responses = c.responses
  written : c.written <+: c'.written
  running : c'.phase ≠ .ended → c.phase ≠ .ended

theorem Idle.refl (c : Connection) : Idle c c := ⟨rfl, rfl, rfl, List.prefix_rfl, id⟩

theorem Reads.running (h : c.Reads) : c.phase ≠ .ended := by
  rcases h with h | h <;> simp [h]

theorem idle_poll (c : Connection) : Idle c c.poll := by
  unfold poll
  split
  · rename_i hphase
    exact ⟨rfl, rfl, rfl, List.prefix_rfl, fun _ => by simp [hphase]⟩
  · rename_i projectId rest hphase
    have hrunning : c.phase ≠ .ended := by simp [hphase]
    split
    · exact ⟨rfl, rfl, rfl, List.prefix_rfl, fun _ => hrunning⟩
    · dsimp only
      split
      · exact ⟨rfl, rfl, by simp [responses, Written.asResponse], List.prefix_append _ _,
          fun _ => hrunning⟩
      all_goals exact ⟨rfl, rfl, rfl, List.prefix_rfl, fun _ => hrunning⟩
  · exact .refl c

theorem idle_step {x : ConnectionAction} (hsend : ∀ line, x ≠ .send line) (hclose : x ≠ .close)
    (hread : ∀ o, x = .read o → c.takes = none) : Idle c (c.step fromStr x) := by
  cases x with
  | send line => exact absurd rfl (hsend line)
  | close => exact absurd rfl hclose
  | poll => exact idle_poll c
  | read o =>
    have htakes := hread o rfl
    unfold takes at htakes
    simp only [step, read]
    by_cases hreads : c.Reads
    · rw [if_pos hreads, List.head?_eq_none_iff] at htakes
      rw [if_pos hreads, htakes]
      dsimp only
      split_ifs
      · exact ⟨htakes.symm, rfl, rfl, List.prefix_rfl, fun h => absurd rfl h⟩
      · exact .refl c
    · rw [if_neg hreads]
      exact .refl c
  | round order =>
    simp only [step, round]
    split_ifs with h
    · exact ⟨rfl, rfl, rfl, List.prefix_rfl, fun _ => by simp [h.1]⟩
    · exact .refl c
  | tick =>
    simp only [step]
    split_ifs with h
    · exact ⟨rfl, rfl, rfl, List.prefix_rfl, fun _ => by simp [h]⟩
    · exact .refl c
  | readError =>
    simp only [step]
    split_ifs
    · exact ⟨rfl, rfl, rfl, List.prefix_rfl, fun h => absurd rfl h⟩
    · exact .refl c
  | _ => exact ⟨rfl, rfl, rfl, List.prefix_rfl, id⟩

theorem request_of_message {text : List Char} {v : JsonValue} (h : message fromStr text = some v) :
    request fromStr text = some (Request.fromValue v) := by
  simp only [message] at h
  split_ifs at h with hblank
  simp only [request, if_neg hblank, h, Option.bind_some]

theorem exists_of_takes {line : List UInt8} (h : c.takes = some line) :
    c.Reads ∧ ∃ rest, c.unread = line :: rest := by
  unfold takes at h
  split_ifs at h with hreads
  refine ⟨hreads, ?_⟩
  rcases hu : c.unread with _ | ⟨l, rest⟩
  · simp [hu] at h
  · rw [hu, List.head?_cons, Option.some.injEq] at h
    exact ⟨rest, by rw [h]⟩

/-- A request that is read is answered, or ends the connection. -/
theorem read_request {line : List UInt8} {rest : List (List UInt8)} {text : List Char}
    {v : JsonValue} {req : Request} (hreads : c.Reads) (hunread : c.unread = line :: rest)
    (htext : Utf8.decode? line = some text) (hv : message fromStr text = some v)
    (hreq : Request.fromValue v = some req) (o : Outside) :
    (c.read fromStr o).unread = rest ∧ (c.read fromStr o).closed = c.closed ∧
      ((∃ r, (handleRequest o c.server c.subscriptions req).2.2 = some r ∧
          (c.read fromStr o).written = c.written ++ [.response r]) ∨
        (c.read fromStr o).phase = .ended ∧ (c.read fromStr o).written = c.written) := by
  unfold read
  rw [if_pos hreads, hunread]
  simp only [htext]
  unfold handleLine
  rw [request_of_message hv, hreq]
  dsimp only
  rcases handleRequest o c.server c.subscriptions req with ⟨server, subs, _ | r⟩
  · exact ⟨rfl, rfl, .inr ⟨rfl, rfl⟩⟩
  · exact ⟨rfl, rfl, .inl ⟨r, rfl, rfl⟩⟩

end Connection

end Rpc

end AmbientFs
