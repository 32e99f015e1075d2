import AmbientFs.Proofs.RpcSessionEnds

/-!
# The client in a session

The invariant of a session: the unread lines are the requests that have been sent but not handled,
every response is that to the request at its place, and the calls whose responses the reader has
taken have their answers. Here the steps of the client keep it.
-/

namespace AmbientFs

open AmbientFsClient

/-! ## Sessions -/

/-- A request that the loop handles, and what with. -/
structure RequestHandling where
  request : Rpc.Request
  outside : Outside
  server : ServerState
  subscriptions : Rpc.Subscriptions

def RequestHandling.response (h : RequestHandling) : Option Rpc.Response :=
  (Rpc.handleRequest h.outside h.server h.subscriptions h.request).2.2

theorem RequestHandling.responseId {h : RequestHandling} {call : Client.Call} {n : ℕ}
    {r : Rpc.Response} (hrequest : h.request = call.sent (.number (n + 1)))
    (hr : h.response = some r) (hlt : n + 1 < 2 ^ 64) :
    AmbientFs.responseId r.toValue = some (.ofNat (n + 1)) := by
  refine Rpc.Response.responseId_toValue ?_
  rw [Rpc.handleRequest_id hr, UInt64.toNat_ofNat_of_lt' hlt, hrequest]
  simp [Client.Call.sent]

namespace RpcSession

def sends (s : RpcSession) : RpcSessionAction → Option ℕ
  | .write n true => (s.writes n).map fun _ => n
  | _ => none

/-- The request in the line that the loop reads. -/
def handles (serde : SerdeJson) (s : RpcSession) : RpcSessionAction → Option RequestHandling
  | .server (.read o) => ((s.connection.takes.bind Utf8.decode?).bind fun text =>
      (Rpc.Connection.request serde.fromStr text).join).map fun req =>
    ⟨req, o, s.connection.server, s.connection.subscriptions⟩
  | _ => none

/-- What the call with the number asks of the server. -/
def asks (s : RpcSession) (n : ℕ) : Option Rpc.Request :=
  s.calls[n]?.map fun call => call.sent (.number (n + 1))

/-- The text of what is written is read back. -/
def ReadsBack (chrono : Chrono) (serde : SerdeJson) (s : RpcSession) : RpcSessionAction → Prop
  | .write n true => ∀ v ∈ s.writes n, message serde.fromStr (serde.toStr v) = some v
  | .receive => ∀ w ∈ s.connection.written[s.taken]?,
    message serde.fromStr (serde.toStr (w.value chrono)) = some (w.value chrono)
  | _ => True

end RpcSession

/-- A session, with the calls that have written their requests, and the requests that are read, both
in order. -/
structure RpcSessionAudit extends RpcSession where
  sent : List ℕ
  handled : List RequestHandling

namespace RpcSessionAudit

variable (chrono : Chrono) (serde : SerdeJson)

def start (notificationBuffer : ℕ) (s : ServerState) : RpcSessionAudit :=
  ⟨.new notificationBuffer s, [], []⟩

def step (a : RpcSessionAudit) (x : RpcSessionAction) : RpcSessionAudit where
  toRpcSession := a.toRpcSession.step chrono serde x
  sent := a.sent ++ (a.sends x).toList
  handled := a.handled ++ (a.handles serde x).toList

/-- The server has handled the request of the call, and answered so. -/
def Answered (a : RpcSessionAudit) (n : ℕ) (answer : Answer) : Prop :=
  ∃ (j : ℕ) (h : RequestHandling) (call : Client.Call) (r : Rpc.Response),
    a.sent[j]? = some n ∧ a.handled[j]? = some h ∧ a.calls[n]? = some call ∧
    h.request = call.sent (.number (n + 1)) ∧ h.response = some r ∧
    answer = responseAnswer r.toValue

/-- The calls, and those that have written their requests. -/
structure Asked (c : AmbientFsClient) (calls : List Client.Call) (sent : List ℕ) : Prop where
  routed : Routed c
  numbered : c.Numbered
  allOwn : c.Open
  calls : calls.length = c.requests.length
  nodup : sent.Nodup
  waiting : ∀ n id, c.requests[n]? = some ⟨id, .waiting⟩ → n ∈ sent
  sent : ∀ n ∈ sent, ∃ id stage, c.requests[n]? = some ⟨id, stage⟩ ∧
    (stage = .waiting ∨ ∃ answer, stage = .returned answer)

/-- What has not been read are the requests that come after those that have been handled. -/
structure Wire (s : RpcSession) (sent : List ℕ) (handled : ℕ) : Prop where
  closed : s.connection.closed = false
  unread : s.connection.unread.map some = (sent.drop handled).map fun n =>
    (s.request n).map fun v => Utf8.encode (serde.toStr v)
  readsBack : ∀ n ∈ sent, ∀ v ∈ s.request n, message serde.fromStr (serde.toStr v) = some v
  le : handled ≤ sent.length

/-- Every request that is handled is that of the call at its place, and every response is that to
the request at its place. -/
structure Served (conn : Rpc.Connection) (calls : List Client.Call) (sent : List ℕ)
    (handled : List RequestHandling) : Prop where
  running : conn.phase ≠ .ended → conn.responses.length = handled.length
  le : conn.responses.length ≤ handled.length
  requests : ∀ (j : ℕ) (h : RequestHandling), handled[j]? = some h →
    ∃ (n : ℕ) (call : Client.Call), sent[j]? = some n ∧ calls[n]? = some call ∧
      h.request = call.sent (.number (n + 1))
  responses : ∀ (j : ℕ) (r : Rpc.Response), conn.responses[j]? = some r →
    ∃ h : RequestHandling, handled[j]? = some h ∧ h.response = some r

/-- The responses that the reader has taken. -/
def read (s : RpcSession) : List Rpc.Response :=
  (s.connection.written.take s.taken).filterMap Rpc.Written.asResponse

/-- What the reader has taken is what is written first, and the calls whose responses are in it have
their answers. -/
structure Taken (s : RpcSession) (sent : List ℕ) : Prop where
  taken : s.taken ≤ s.connection.written.length
  received : s.client.received = (s.connection.written.take s.taken).map (·.value chrono)
  heard : s.client.reader = .reading → ∀ n id stage, s.client.requests[n]? = some ⟨id, stage⟩ →
    n ∈ sent ∨ stage = .registered → s.client.Heard n
  answered : s.client.reader = .reading →
    ∀ n ∈ sent.take (read s).length, n ∈ s.client.answers.map Prod.fst

structure Inv (a : RpcSessionAudit) : Prop where
  asked : Asked a.client a.calls a.sent
  wire : Wire serde a.toRpcSession a.sent a.handled.length
  served : Served a.connection a.calls a.sent a.handled
  taken : Taken chrono a.toRpcSession a.sent

variable {chrono serde} {a : RpcSessionAudit}

theorem inv_start (notificationBuffer : ℕ) (s : ServerState) :
    (start notificationBuffer s).Inv chrono serde where
  asked :=
    { routed := .new notificationBuffer
      numbered := numbered_new notificationBuffer
      allOwn := fun _ _ hp => (nomatch hp)
      calls := rfl
      nodup := List.nodup_nil
      waiting := fun _ _ h => (nomatch h)
      sent := fun _ h => (nomatch h) }
  wire := ⟨rfl, rfl, fun _ h => (nomatch h), le_rfl⟩
  served := ⟨fun _ => rfl, le_rfl, fun _ _ h => (nomatch h), fun _ _ h => (nomatch h)⟩
  taken := ⟨le_rfl, rfl, fun _ _ _ _ h => (nomatch h), fun _ _ h => (nomatch h)⟩

/-! ## A step of the client -/

/-- Where the stage of a call comes from. -/
theorem stage_cases {c c' : AmbientFsClient} {fromStr : List Char → Option JsonValue}
    {x : ClientAction} {n : ℕ} {id : UInt64} {stage : RequestStage} (he : Effect fromStr c x c')
    (hn : c'.requests[n]? = some ⟨id, stage⟩) :
    c.requests[n]? = some ⟨id, stage⟩ ∨
    (∃ before d, c.requests[n]? = some ⟨id, before⟩ ∧ Advances c n id x before d stage ∧
      c' = d.setStage n stage) ∨
    ∃ serializes, x = .start serializes ∧ n = c.requests.length ∧ stage ≠ .waiting ∧
      stage ≠ .registered := by
  cases he with
  | quiet hq hrec => exact .inl (hq.requests ▸ hn)
  | start serializes =>
    rcases lt_or_ge n c.requests.length with hlt | hge
    · exact .inl (by rwa [AmbientFsClient.start, List.getElem?_append_left hlt] at hn)
    · rw [AmbientFsClient.start, List.getElem?_append_right hge] at hn
      obtain ⟨hlt, hq⟩ := List.getElem?_eq_some_iff.1 hn
      rw [List.length_singleton] at hlt
      rw [List.getElem_singleton, Request.mk.injEq] at hq
      refine .inr (.inr ⟨serializes, rfl, by omega, ?_⟩)
      rw [← hq.2]
      cases serializes <;> simp
  | @advance _ m id' before stage' d hm hadv =>
    rcases eq_or_ne m n with rfl | hne
    · have hd : d.requests[m]? = some ⟨id', before⟩ := by cases hadv <;> exact hm
      rw [requests_setStage_self hd, Option.some.injEq, Request.mk.injEq] at hn
      obtain ⟨rfl, rfl⟩ := hn
      exact .inr (.inl ⟨before, d, hm, hadv, rfl⟩)
    · rw [requests_setStage_of_ne hne] at hn
      exact .inl (by cases hadv <;> exact hn)
  | respond hmsg hid hm => exact .inl hn
  | drain e => exact .inl hn

section Client

variable {c : AmbientFsClient} {calls : List Client.Call} {sent : List ℕ}
  {fromStr : List Char → Option JsonValue} {x : ClientAction}

theorem length_requests (fromStr : List Char → Option JsonValue)
    (hx : ∀ serializes, x ≠ .start serializes) :
    (c.step fromStr x).requests.length = c.requests.length := by
  have h := congrArg List.length (ids_step fromStr c hx).1
  rwa [List.length_map, List.length_map] at h

/-- What a call that has written its request goes on to. -/
theorem Asked.sent_step (h : Asked c calls sent) (hx : ∀ serializes, x ≠ .start serializes) :
    ∀ n ∈ sent, ∃ id stage, (c.step fromStr x).requests[n]? = some ⟨id, stage⟩ ∧
      (stage = .waiting ∨ ∃ answer, stage = .returned answer) := by
  intro n hn
  obtain ⟨id, stage, hs, hstage⟩ := h.sent n hn
  have hlt := (List.getElem?_eq_some_iff.1 hs).1
  rw [← length_requests fromStr hx] at hlt
  obtain ⟨⟨id', stage'⟩, hs'⟩ : ∃ q, (c.step fromStr x).requests[n]? = some q :=
    ⟨_, List.getElem?_eq_getElem hlt⟩
  refine ⟨id', stage', hs', ?_⟩
  rcases stage_cases (step_effect c x) hs' with heq | ⟨before, d, heq, hadv, -⟩ | ⟨b, hb, -⟩
  · rw [hs] at heq
    cases heq
    exact hstage
  · rw [hs] at heq
    cases heq
    cases hadv with
    | register | write | unregister => simp at hstage
    | await answer _ => exact .inr ⟨answer, rfl⟩
  · exact absurd hb (hx b)

/-- An action in which no request is written. -/
theorem Asked.step (h : Asked c calls sent) (hx : ∀ serializes, x ≠ .start serializes)
    (hwrite : ∀ n, x = .write n true → ∀ id, c.requests[n]? ≠ some ⟨id, .registered⟩) :
    Asked (c.step fromStr x) calls sent where
  routed := h.routed.effect (step_effect c x)
  numbered := h.numbered.step x
  allOwn := h.allOwn.step x
  calls := h.calls.trans (length_requests _ hx).symm
  nodup := h.nodup
  waiting := by
    intro n id hn
    rcases stage_cases (step_effect c x) hn with heq | ⟨before, d, heq, hadv, -⟩ | ⟨b, hb, -⟩
    · exact h.waiting n id heq
    · generalize hs : RequestStage.waiting = stage at hadv
      cases hadv with
      | write written =>
        cases written with
        | true => exact absurd heq (hwrite n rfl id)
        | false => cases hs
      | _ => cases hs
    · exact absurd hb (hx b)
  sent := h.sent_step hx

/-- The action in which a request is written. -/
theorem Asked.write (h : Asked c calls sent) (fromStr : List Char → Option JsonValue) {n : ℕ}
    {id : UInt64}
    (hn : c.requests[n]? = some ⟨id, .registered⟩) :
    Asked (c.step fromStr (.write n true)) calls (sent ++ [n]) where
  routed := h.routed.effect (step_effect c _)
  numbered := h.numbered.step _
  allOwn := h.allOwn.step _
  calls := h.calls.trans (length_requests _ (by simp)).symm
  nodup := by
    refine h.nodup.append (List.nodup_singleton n) (List.disjoint_singleton.2 fun hmem => ?_)
    obtain ⟨id', stage, hs, hstage⟩ := h.sent n hmem
    rw [hn] at hs
    cases hs
    simp at hstage
  waiting := by
    intro m k hm
    rcases eq_or_ne m n with rfl | hne
    · simp
    · refine List.mem_append_left _ ?_
      rcases stage_cases (step_effect c _) hm with heq | ⟨before, d, heq, hadv, -⟩ | ⟨b, hb, -⟩
      · exact h.waiting m k heq
      · cases hadv
        exact absurd rfl hne
      · cases hb
  sent := by
    intro m hm
    rcases List.mem_append.1 hm with hm | hm
    · exact h.sent_step (by simp) m hm
    · obtain rfl := List.mem_singleton.1 hm
      refine ⟨id, .waiting, ?_, .inl rfl⟩
      simp only [AmbientFsClient.step, AmbientFsClient.write, hn, if_true]
      exact requests_setStage_self hn

theorem heard_step (h : Asked c calls sent) (hfew : c.requests.length < 2 ^ 63)
    (hx : ∀ serializes, x ≠ .start serializes)
    (hheard : c.reader = .reading → ∀ n id stage, c.requests[n]? = some ⟨id, stage⟩ →
      n ∈ sent ∨ stage = .registered → c.Heard n)
    (hread : (c.step fromStr x).reader = .reading) {n : ℕ} {id : UInt64} {stage : RequestStage}
    (hn : (c.step fromStr x).requests[n]? = some ⟨id, stage⟩)
    (hsent : n ∈ sent ∨ stage = .registered ∨ c.requests[n]? = some ⟨id, .registered⟩) :
    (c.step fromStr x).Heard n := by
  have hkept : ∀ before, c.requests[n]? = some ⟨id, before⟩ → n ∈ sent ∨ before = .registered →
      (c.step fromStr x).Heard n := by
    intro before hb hor
    refine (hheard (reading_of_step hread) n id before hb hor).effect (step_effect c x) h.routed
      h.numbered hfew hread fun k hk => ?_
    rw [hb] at hk
    cases hk
    rcases hor with hmem | hreg
    · obtain ⟨_, _, hs, hstage⟩ := h.sent n hmem
      rw [hb] at hs
      cases hs
      simp at hstage
    · cases hreg
  rcases hsent with hmem | rfl | hreg
  · obtain ⟨k, before, hb, -⟩ := h.sent n hmem
    have hk : k = id := by
      rw [h.numbered.id_eq hb, (h.numbered.step x).id_eq hn]
    exact hkept before (hk ▸ hb) (.inl hmem)
  · rcases stage_cases (step_effect c x) hn with heq | ⟨before, d, heq, hadv, hc⟩ | ⟨b, hb, -⟩
    · exact hkept _ heq (.inr rfl)
    · rw [hc]
      generalize hs : RequestStage.registered = stage at hadv
      cases hadv with
      | register => exact .inl ⟨id, mem_pending_insert.2 (.inr rfl)⟩
      | write written => cases written <;> cases hs
      | _ => cases hs
    · exact absurd hb (hx b)
  · exact hkept _ hreg (.inr rfl)

end Client

variable {s s' : RpcSession} {sent : List ℕ} {k : ℕ} {handled : List RequestHandling}

theorem request_congr (s s' : RpcSession)
    (hid : s'.client.requests.map Request.id = s.client.requests.map Request.id)
    (hcalls : s'.calls = s.calls) (n : ℕ) : s'.request n = s.request n := by
  have hmap : ∀ t : RpcSession, t.request n =
      ((t.client.requests.map Request.id)[n]?).bind fun id =>
        t.calls[n]?.map fun call => call.request id := by
    intro t
    rw [List.getElem?_map, Option.bind_map]
    rfl
  rw [hmap, hmap, hid, hcalls]

theorem Wire.congr (h : Wire serde s sent k) (hclosed : s'.connection.closed = s.connection.closed)
    (hunread : s'.connection.unread = s.connection.unread)
    (hrequest : ∀ n ∈ sent, s'.request n = s.request n) : Wire serde s' sent k where
  closed := hclosed.trans h.closed
  unread := by
    rw [hunread, h.unread]
    exact List.map_congr_left fun n hn => by rw [hrequest n (List.mem_of_mem_drop hn)]
  readsBack := fun n hn v hv => h.readsBack n hn v (hrequest n hn ▸ hv)
  le := h.le

theorem length_read_le (hserved : Served s.connection s.calls sent handled)
    (hwire : Wire serde s sent handled.length) : (read s).length ≤ sent.length :=
  ((List.take_sublist _ _).filterMap _).length_le.trans (hserved.le.trans hwire.le)

/-- A step of the client in which the reader takes nothing. -/
theorem Taken.client (h : Taken chrono s sent) (hasked : Asked s.client s.calls sent)
    (hfew : s.client.requests.length < 2 ^ 63) (hle : (read s).length ≤ sent.length)
    {x : ClientAction} (hx : ∀ serializes, x ≠ .start serializes) (hline : ∀ text, x ≠ .line text)
    (fromStr : List Char → Option JsonValue) (s' : RpcSession)
    (hclient : s'.client = s.client.step fromStr x)
    (hwritten : s'.connection.written = s.connection.written) (htaken : s'.taken = s.taken)
    {sent' : List ℕ} (hsent : sent' = sent ∨ ∃ n id, s.client.requests[n]? =
      some ⟨id, .registered⟩ ∧ sent' = sent ++ [n]) : Taken chrono s' sent' where
  taken := by rw [htaken, hwritten]; exact h.taken
  received := by
    rw [hclient, hwritten, htaken, ← h.received]
    have he : Effect fromStr s.client x (s.client.step fromStr x) := step_effect _ x
    rcases received_effect he with heq | hread
    · exact heq
    · obtain ⟨text, msg, hx, -⟩ := hread
      exact absurd hx (hline text)
  heard := by
    rw [hclient]
    intro hread n id stage hn hor
    refine heard_step hasked hfew hx h.heard hread hn ?_
    rcases hor with hmem | hreg
    · rcases hsent with rfl | ⟨m, k, hm, rfl⟩
      · exact .inl hmem
      · rcases List.mem_append.1 hmem with hmem | hmem
        · exact .inl hmem
        · obtain rfl := List.mem_singleton.1 hmem
          have hk : k = id := by
            rw [hasked.numbered.id_eq hm, (hasked.numbered.step x).id_eq hn]
          exact .inr (.inr (hk ▸ hm))
    · exact .inr (.inl hreg)
  answered := by
    intro hread n hn
    have hread' : (read s') = read s := by unfold read; rw [hwritten, htaken]
    rw [hread'] at hn
    have hmem : n ∈ sent.take (read s).length := by
      rcases hsent with rfl | ⟨m, k, -, rfl⟩
      · exact hn
      · rwa [List.take_append_of_le_length hle] at hn
    rw [hclient] at hread ⊢
    obtain ⟨p, hp, rfl⟩ := List.mem_map.1 (h.answered (reading_of_step hread) n hmem)
    exact List.mem_map_of_mem (answers_effect (step_effect _ x) hp)

/-- A response that is received reaches its call. -/
theorem answered_receive {c : AmbientFsClient} (hr : Routed c) {msg : JsonValue} {id : UInt64}
    {n : ℕ} (hid : responseId msg = some id) (hn : (id, n) ∈ c.pending) :
    n ∈ (c.receive msg).answers.map Prod.fst := by
  simp only [receive, hid, respond]
  rcases hl : c.pending.lookup id with _ | m
  · have := List.lookup_eq_none_iff.1 hl (id, n) hn
    simp at this
  · obtain rfl : m = n := congrArg Prod.snd
      (List.inj_on_of_nodup_map hr.keys (mem_of_lookup hl) hn rfl)
    simp

theorem received_receive (c : AmbientFsClient) (msg : JsonValue) :
    (c.receive msg).received = c.received ++ [msg] := by
  rcases receive_cases c msg with ⟨-, h⟩ | ⟨id, n, -, -, h⟩
  · exact h
  · rw [h]
    rfl

theorem message_line (w : Rpc.Written) : message serde.fromStr (w.line chrono serde) =
    message serde.fromStr (serde.toStr (w.value chrono)) := by
  unfold message Rpc.Written.line
  rw [Lines.trim_append_blank (by decide)]

theorem receive_eq {w : Rpc.Written} (hread : s.client.reader = .reading)
    (hw : s.connection.written[s.taken]? = some w)
    (hback : message serde.fromStr (serde.toStr (w.value chrono)) = some (w.value chrono)) :
    s.receive chrono serde = { s with
      client := s.client.receive (w.value chrono)
      taken := s.taken + 1 } := by
  have hline : s.client.line serde.fromStr (w.line chrono serde) =
      s.client.receive (w.value chrono) := by
    simp only [line, hread, message_line, hback]
  simp only [RpcSession.receive, hread, hw, hline]

theorem step_line {w : Rpc.Written} (hread : s.client.reader = .reading)
    (hback : message serde.fromStr (serde.toStr (w.value chrono)) = some (w.value chrono)) :
    s.client.step serde.fromStr (.line (w.line chrono serde)) =
      s.client.receive (w.value chrono) := by
  simp only [AmbientFsClient.step, line, hread, message_line, hback]

/-- The response that is taken next comes after those that have been taken. -/
theorem responses_read {r : Rpc.Response}
    (hw : s.connection.written[s.taken]? = some (.response r)) :
    s.connection.responses[(read s).length]? = some r := by
  obtain ⟨rest, hall⟩ : ∃ rest, s.connection.written =
      s.connection.written.take s.taken ++ .response r :: rest := by
    refine ⟨s.connection.written.drop (s.taken + 1), ?_⟩
    obtain ⟨hlt, hget⟩ := List.getElem?_eq_some_iff.1 hw
    rw [← hget, ← List.drop_eq_getElem_cons hlt, List.take_append_drop]
  have hresponses : s.connection.responses =
      read s ++ r :: rest.filterMap Rpc.Written.asResponse := by
    have hmap := congrArg (List.filterMap Rpc.Written.asResponse) hall
    rw [List.filterMap_append] at hmap
    exact hmap
  rw [hresponses, List.getElem?_append_right le_rfl, Nat.sub_self]
  rfl

theorem Taken.receive (h : Taken chrono s sent) (hasked : Asked s.client s.calls sent)
    (hfew : s.client.requests.length < 2 ^ 63)
    (hserved : Served s.connection s.calls sent handled) {w : Rpc.Written}
    (hread : s.client.reader = .reading) (hw : s.connection.written[s.taken]? = some w)
    (hback : message serde.fromStr (serde.toStr (w.value chrono)) = some (w.value chrono)) :
    Taken chrono (s.receive chrono serde) sent := by
  have hlt := (List.getElem?_eq_some_iff.1 hw).1
  have htake : s.connection.written.take (s.taken + 1) =
      s.connection.written.take s.taken ++ [w] := by
    rw [List.take_add_one, hw]
    rfl
  have hline := step_line hread hback
  rw [receive_eq hread hw hback]
  refine ⟨hlt, ?_, ?_, ?_⟩
  · show (s.client.receive (w.value chrono)).received = _
    rw [received_receive, h.received, htake, List.map_append]
    rfl
  · show (s.client.receive (w.value chrono)).reader = .reading → _
    rw [← hline]
    intro hread' n id stage hn hor
    refine heard_step hasked hfew (by simp) h.heard hread' hn ?_
    exact hor.imp_right .inl
  · show (s.client.receive (w.value chrono)).reader = .reading → _
    intro hread' n hn
    have hmono : n ∈ s.client.answers.map Prod.fst →
        n ∈ (s.client.receive (w.value chrono)).answers.map Prod.fst := by
      rw [← hline]
      intro hmem
      obtain ⟨p, hp, rfl⟩ := List.mem_map.1 hmem
      exact List.mem_map_of_mem (answers_effect (step_effect _ _) hp)
    have hnew : read { s with
        client := s.client.receive (w.value chrono)
        taken := s.taken + 1 } = read s ++ w.asResponse.toList := by
      show (s.connection.written.take (s.taken + 1)).filterMap Rpc.Written.asResponse = _
      rw [htake, List.filterMap_append]
      cases w <;> rfl
    rw [hnew] at hn
    cases w with
    | notification notification =>
      refine hmono (h.answered hread n ?_)
      simpa [Rpc.Written.asResponse] using hn
    | response r =>
      obtain ⟨_, hh, hresponse⟩ := hserved.responses _ r (responses_read hw)
      obtain ⟨m, _, hm, -, hrequest⟩ := hserved.requests _ _ hh
      have htake' : sent.take ((read s).length + 1) = sent.take (read s).length ++ [m] := by
        rw [List.take_add_one, hm]
        rfl
      simp only [Rpc.Written.asResponse, Option.toList_some, List.length_append,
        List.length_singleton, htake', List.mem_append, List.mem_singleton] at hn
      rcases hn with hn | rfl
      · exact hmono (h.answered hread n hn)
      obtain ⟨id, stage, hs, -⟩ := hasked.sent n (List.mem_of_getElem? hm)
      rcases h.heard hread n id stage hs (.inl (List.mem_of_getElem? hm)) with ⟨k, hk⟩ | hdone
      · obtain ⟨-, _, hs', -⟩ := hasked.routed.pending k n hk
        have hlt := (List.getElem?_eq_some_iff.1 hs').1
        have hid := RequestHandling.responseId hrequest hresponse (by omega)
        rw [← hasked.numbered.id_eq hs'] at hid
        exact answered_receive hasked.routed hid hk
      · exact hmono hdone

end RpcSessionAudit

end AmbientFs
