import AmbientFs.Proofs.RpcSessionClient

/-!
# What a call returns in a session

The server reads the requests in the order in which they are written, each once, and its responses
are read in that order too, whatever notifications are between them. A call returns what the
server has answered its own request with (`session_answered`). Where all that was written has been
read, no call goes on waiting.
-/

namespace AmbientFs

open AmbientFsClient

namespace RpcSessionAudit

variable {chrono : Chrono} {serde : SerdeJson} {a : RpcSessionAudit} {s : RpcSession}
  {sent : List ℕ} {k : ℕ} {handled : List RequestHandling}

/-! ## A step of the server -/

section Server

variable {conn : Rpc.Connection} {calls : List Client.Call}

theorem Served.idle (h : Served s.connection calls sent handled) (hidle : s.connection.Idle conn) :
    Served conn calls sent handled where
  running := fun hphase => by rw [hidle.responses]; exact h.running (hidle.running hphase)
  le := by rw [hidle.responses]; exact h.le
  requests := h.requests
  responses := by rw [hidle.responses]; exact h.responses

/-- What is found after an element has been added at the end. -/
theorem getElem?_added {α : Type} {l : List α} {x y : α} {j : ℕ} (h : (l ++ [x])[j]? = some y) :
    l[j]? = some y ∨ j = l.length ∧ y = x := by
  rw [List.getElem?_append] at h
  split_ifs at h with hlt
  · exact .inl h
  · obtain ⟨hzero, hget⟩ := List.getElem?_eq_some_iff.1 h
    rw [List.length_singleton] at hzero
    rw [List.getElem_singleton] at hget
    exact .inr ⟨by omega, hget.symm⟩

/-- The request that is handled next is that of the call that comes next. -/
theorem Served.requests_append {c : Rpc.Connection} (h : Served c calls sent handled) {n : ℕ}
    (hn : sent[handled.length]? = some n) {call : Client.Call} (hcall : calls[n]? = some call)
    {handling : RequestHandling} (hrequest : handling.request = call.sent (.number (n + 1))) :
    ∀ (j : ℕ) (h' : RequestHandling), (handled ++ [handling])[j]? = some h' →
      ∃ (n : ℕ) (call : Client.Call), sent[j]? = some n ∧ calls[n]? = some call ∧
        h'.request = call.sent (.number (n + 1)) := by
  intro j h' hj
  rcases getElem?_added hj with hj | ⟨rfl, rfl⟩
  · exact h.requests j h' hj
  · exact ⟨n, call, hn, hcall, hrequest⟩

theorem Served.respond {c : Rpc.Connection} (h : Served c calls sent handled)
    (hlength : c.responses.length = handled.length) {n : ℕ} (hn : sent[handled.length]? = some n)
    {call : Client.Call} (hcall : calls[n]? = some call) {handling : RequestHandling}
    (hrequest : handling.request = call.sent (.number (n + 1))) {r : Rpc.Response}
    (hr : handling.response = some r) (hresponses : conn.responses = c.responses ++ [r]) :
    Served conn calls sent (handled ++ [handling]) where
  running := fun _ => by rw [hresponses, List.length_append, List.length_append, hlength]; rfl
  le := by rw [hresponses, List.length_append, List.length_append, hlength]; exact le_rfl
  requests := h.requests_append hn hcall hrequest
  responses := by
    rw [hresponses]
    intro j r' hj
    rcases getElem?_added hj with hj | ⟨rfl, rfl⟩
    · obtain ⟨h', hh, hr'⟩ := h.responses j r' hj
      exact ⟨h', List.getElem?_append_left (List.getElem?_eq_some_iff.1 hh).1 ▸ hh, hr'⟩
    · exact ⟨handling, by rw [hlength, List.getElem?_concat_length], hr⟩

/-- A request that is not answered is the last that is read. -/
theorem Served.panic {c : Rpc.Connection} (h : Served c calls sent handled) {n : ℕ}
    (hn : sent[handled.length]? = some n) {call : Client.Call} (hcall : calls[n]? = some call)
    {handling : RequestHandling} (hrequest : handling.request = call.sent (.number (n + 1)))
    (hended : conn.phase = .ended) (hresponses : conn.responses = c.responses) :
    Served conn calls sent (handled ++ [handling]) where
  running := fun hphase => absurd hended hphase
  le := by
    rw [hresponses, List.length_append]
    exact h.le.trans (Nat.le_add_right _ _)
  requests := h.requests_append hn hcall hrequest
  responses := by
    rw [hresponses]
    intro j r hj
    obtain ⟨h', hh, hr⟩ := h.responses j r hj
    exact ⟨h', List.getElem?_append_left (List.getElem?_eq_some_iff.1 hh).1 ▸ hh, hr⟩

/-- What has been taken stays so when more is written. -/
theorem Taken.written (h : Taken chrono s sent) (hwritten : s.connection.written <+: conn.written) :
    Taken chrono { s with connection := conn } sent := by
  have htake : conn.written.take s.taken = s.connection.written.take s.taken := by
    obtain ⟨more, hmore⟩ := hwritten
    rw [← hmore, List.take_append_of_le_length h.taken]
  have hread : read { s with connection := conn } = read s := by
    unfold read
    rw [htake]
  refine ⟨h.taken.trans hwritten.length_le, ?_, h.heard, ?_⟩
  · show s.client.received = (conn.written.take s.taken).map _
    rw [htake]
    exact h.received
  · rw [hread]
    exact h.answered

/-- The request that is read next is that of the call that comes next. -/
theorem Wire.next (h : Wire serde s sent k) {line : List UInt8} {rest : List (List UInt8)}
    (hunread : s.connection.unread = line :: rest) : ∃ n v, sent[k]? = some n ∧
      s.request n = some v ∧ line = Utf8.encode (serde.toStr v) ∧
      rest.map some = (sent.drop (k + 1)).map fun n =>
        (s.request n).map fun v => Utf8.encode (serde.toStr v) := by
  have hmap := h.unread
  rw [hunread, List.map_cons] at hmap
  obtain ⟨n, tail, hdrop, hn, htail⟩ := List.map_eq_cons_iff.1 hmap.symm
  obtain ⟨v, hv, rfl⟩ := Option.map_eq_some_iff.1 hn
  refine ⟨n, v, ?_, hv, rfl, ?_⟩
  · have hget : (sent.drop k)[0]? = sent[k + 0]? := List.getElem?_drop
    rw [hdrop] at hget
    exact hget.symm
  · rw [← List.drop_drop, hdrop] at *
    simpa using htail.symm

theorem fromValue_request {s : RpcSession} (hasked : Asked s.client s.calls sent)
    (hfew : s.client.requests.length < 2 ^ 63) {n : ℕ} {v : JsonValue} (hv : s.request n = some v) :
    ∃ call, s.calls[n]? = some call ∧
      Rpc.Request.fromValue v = some (call.sent (.number (n + 1))) := by
  obtain ⟨⟨id, stage⟩, hn, hmap⟩ := Option.bind_eq_some_iff.1 hv
  obtain ⟨call, hcall, rfl⟩ := Option.map_eq_some_iff.1 hmap
  refine ⟨call, hcall, ?_⟩
  have hlt := (List.getElem?_eq_some_iff.1 hn).1
  have hnat : id.toNat = n + 1 := by
    rw [hasked.numbered.id_eq hn]
    exact UInt64.toNat_ofNat_of_lt' (lt_of_le_of_lt hlt (hfew.trans (by decide)))
  have hi64 : (JsonNumber.posInt id).asI64 = some ((n : ℤ) + 1) := by
    rw [JsonNumber.asI64, hnat, if_pos (by omega)]
    simp
  rw [Client.Call.fromValue_eq_map, hi64]
  rfl

end Server

/-! ## A step of the session -/

theorem inv_read (h : a.Inv chrono serde) (hfew : a.client.requests.length < 2 ^ 63) (o : Outside)
    {line : List UInt8} (htakes : a.connection.takes = some line) :
    (a.step chrono serde (.server (.read o))).Inv chrono serde := by
  obtain ⟨hreads, rest, hunread⟩ := Rpc.Connection.exists_of_takes htakes
  obtain ⟨n, v, hn, hv, rfl, hrest⟩ := h.wire.next hunread
  obtain ⟨call, hcall, hreq⟩ := fromValue_request h.asked hfew hv
  have hback := h.wire.readsBack n (List.mem_of_getElem? hn) v hv
  obtain ⟨hunread', hclosed', hwritten⟩ := Rpc.Connection.read_request hreads hunread
    (Utf8.decode?_eq_some.2 rfl) hback hreq o
  have hlength := h.served.running hreads.running
  have hlt := (List.getElem?_eq_some_iff.1 hn).1
  have hstep : a.step chrono serde (.server (.read o)) =
      { a with
        connection := a.connection.read serde.fromStr o
        handled := a.handled ++ [⟨call.sent (.number (n + 1)), o, a.connection.server,
          a.connection.subscriptions⟩] } := by
    simp only [step, RpcSession.step, RpcSession.sends, RpcSession.handles, htakes,
      Rpc.Connection.step, Option.bind_some, Utf8.decode?_eq_some.2 rfl,
      Rpc.Connection.request_of_message hback, hreq, Option.join_some, Option.map_some,
      Option.toList_some, Option.toList_none, List.append_nil]
  rw [hstep]
  refine ⟨h.asked, ⟨hclosed'.trans h.wire.closed, ?_, h.wire.readsBack, ?_⟩, ?_, ?_⟩
  · rw [List.length_append, List.length_singleton]
    exact hunread' ▸ hrest
  · rw [List.length_append, List.length_singleton]
    exact hlt
  · rcases hwritten with ⟨r, hr, hw⟩ | ⟨hended, hw⟩
    · have hresponses : (a.connection.read serde.fromStr o).responses =
          a.connection.responses ++ [r] := by
        unfold Rpc.Connection.responses
        rw [hw, Rpc.ConnectionAudit.responses_append]
      exact h.served.respond hlength hn hcall rfl hr hresponses
    · exact h.served.panic hn hcall rfl hended (by rw [Rpc.Connection.responses, hw]; rfl)
  · refine h.taken.written ?_
    rcases hwritten with ⟨r, -, hw⟩ | ⟨-, hw⟩ <;> rw [hw]
    exact List.prefix_append _ _

theorem inv_server (h : a.Inv chrono serde) {x : Rpc.ConnectionAction}
    (hidle : a.connection.Idle (a.connection.step serde.fromStr x)) :
    Inv chrono serde { a with connection := a.connection.step serde.fromStr x } where
  asked := h.asked
  wire := h.wire.congr hidle.closed hidle.unread fun _ _ => rfl
  served := h.served.idle hidle
  taken := h.taken.written hidle.written

theorem inv_call (h : a.Inv chrono serde) (call : Client.Call) :
    (a.step chrono serde (.call call)).Inv chrono serde := by
  have hstep : a.step chrono serde (.call call) =
      { a with client := a.client.start true, calls := a.calls ++ [call] } := by
    simp only [step, RpcSession.step, RpcSession.sends, RpcSession.handles, Option.toList_none,
      List.append_nil]
  have hstart : Effect serde.fromStr a.client (.start true) (a.client.start true) := .start true
  have hopen : (a.client.step serde.fromStr (.start true)).Open := h.asked.allOwn.step _
  have hold : ∀ n id stage, (a.client.start true).requests[n]? = some ⟨id, stage⟩ →
      stage = .waiting ∨ stage = .registered ∨ n ∈ a.sent →
      a.client.requests[n]? = some ⟨id, stage⟩ := by
    intro n id stage hn hor
    rcases stage_cases hstart hn with
      heq | ⟨_, _, _, hadv, -⟩ | ⟨_, -, hnew, hwaiting, hregistered⟩
    · exact heq
    · cases hadv
    · rcases hor with hs | hs | hs
      · exact absurd hs hwaiting
      · exact absurd hs hregistered
      · obtain ⟨_, _, hs, -⟩ := h.asked.sent n hs
        have := (List.getElem?_eq_some_iff.1 hs).1
        omega
  have hlt : ∀ n ∈ a.sent, n < a.client.requests.length := by
    intro n hn
    obtain ⟨_, _, hs, -⟩ := h.asked.sent n hn
    exact (List.getElem?_eq_some_iff.1 hs).1
  rw [hstep]
  refine ⟨⟨h.asked.routed.effect hstart, h.asked.numbered.start true, hopen, ?_, h.asked.nodup, ?_,
    ?_⟩, ?_, ?_, ?_⟩
  · simp [AmbientFsClient.start, h.asked.calls]
  · exact fun n id hn => h.asked.waiting n id (hold n id _ hn (.inl rfl))
  · intro n hn
    obtain ⟨id, stage, hs, hstage⟩ := h.asked.sent n hn
    exact ⟨id, stage, List.getElem?_append_left (hlt n hn) ▸ hs, hstage⟩
  · refine h.wire.congr rfl rfl fun n hn => ?_
    have hcalls : n < a.calls.length := h.asked.calls ▸ hlt n hn
    simp only [RpcSession.request, AmbientFsClient.start, List.getElem?_append_left (hlt n hn),
      List.getElem?_append_left hcalls]
  · refine ⟨h.served.running, h.served.le, fun j h' hj => ?_, h.served.responses⟩
    obtain ⟨n, call', hn, hcall, hrequest⟩ := h.served.requests j h' hj
    exact ⟨n, call', hn, List.getElem?_append_left (List.getElem?_eq_some_iff.1 hcall).1 ▸ hcall,
      hrequest⟩
  · refine ⟨h.taken.taken, h.taken.received, fun hread n id stage hn hor => ?_, h.taken.answered⟩
    exact h.taken.heard hread n id stage (hold n id stage hn (.inr hor.symm)) hor

theorem inv_client (h : a.Inv chrono serde) (hfew : a.client.requests.length < 2 ^ 63)
    {x : ClientAction} (hx : ∀ serializes, x ≠ .start serializes) (hline : ∀ text, x ≠ .line text)
    (hwrite : ∀ n, x = .write n true → ∀ id, a.client.requests[n]? ≠ some ⟨id, .registered⟩) :
    Inv chrono serde { a with client := a.client.step serde.fromStr x } where
  asked := h.asked.step hx hwrite
  wire := h.wire.congr rfl rfl fun n _ => request_congr a.toRpcSession
    { a.toRpcSession with client := a.client.step serde.fromStr x }
    (ids_step serde.fromStr _ hx).1 rfl n
  served := h.served
  taken := h.taken.client h.asked hfew (length_read_le h.served h.wire) hx hline serde.fromStr
    { a.toRpcSession with client := a.client.step serde.fromStr x } rfl rfl rfl (.inl rfl)

theorem inv_receive (h : a.Inv chrono serde) (hfew : a.client.requests.length < 2 ^ 63)
    {w : Rpc.Written} (hread : a.client.reader = .reading)
    (hw : a.connection.written[a.taken]? = some w)
    (hback : message serde.fromStr (serde.toStr (w.value chrono)) = some (w.value chrono)) :
    Inv chrono serde { a with toRpcSession := a.receive chrono serde } := by
  have htaken := h.taken.receive h.asked hfew h.served hread hw hback
  have hline : a.client.step serde.fromStr (.line (w.line chrono serde)) =
      a.client.receive (w.value chrono) := step_line (s := a.toRpcSession) hread hback
  rw [receive_eq hread hw hback] at htaken ⊢
  rw [← hline] at htaken ⊢
  have hx : ∀ b, ClientAction.line (w.line chrono serde) ≠ .start b := by simp
  exact ⟨h.asked.step hx (by simp),
    h.wire.congr rfl rfl fun n _ => request_congr a.toRpcSession { a.toRpcSession with
      client := a.client.step serde.fromStr (.line (w.line chrono serde)) }
      (ids_step serde.fromStr _ hx).1 rfl n,
    h.served, htaken⟩

theorem writes_eq_some {n : ℕ} {v : JsonValue} (h : s.writes n = some v) :
    (∃ id, s.client.requests[n]? = some ⟨id, .registered⟩) ∧ s.request n = some v := by
  unfold RpcSession.writes at h
  split at h
  · rename_i id hn
    exact ⟨⟨id, hn⟩, h⟩
  · cases h

theorem Wire.write (h : Wire serde s sent k) {n : ℕ} {v : JsonValue} (hv : s.request n = some v)
    (hback : message serde.fromStr (serde.toStr v) = some v) (s' : RpcSession)
    (hclosed : s'.connection.closed = s.connection.closed)
    (hunread : s'.connection.unread = s.connection.unread ++ [Utf8.encode (serde.toStr v)])
    (hrequest : ∀ m, s'.request m = s.request m) : Wire serde s' (sent ++ [n]) k where
  closed := hclosed.trans h.closed
  unread := by
    simp only [hunread, List.map_append, h.unread, List.drop_append_of_le_length h.le, hrequest,
      List.map_singleton, hv, Option.map_some]
  readsBack := by
    intro m hm u hu
    rw [hrequest] at hu
    rcases List.mem_append.1 hm with hm | hm
    · exact h.readsBack m hm u hu
    · obtain rfl := List.mem_singleton.1 hm
      rw [hv] at hu
      cases hu
      exact hback
  le := by
    rw [List.length_append]
    exact h.le.trans (Nat.le_add_right _ _)

theorem Served.write {c : Rpc.Connection} {calls : List Client.Call}
    (h : Served c calls sent handled) (conn : Rpc.Connection) (hphase : conn.phase = c.phase)
    (hresponses : conn.responses = c.responses) (n : ℕ) :
    Served conn calls (sent ++ [n]) handled where
  running := by rw [hphase, hresponses]; exact h.running
  le := by rw [hresponses]; exact h.le
  requests := by
    intro j h' hj
    obtain ⟨m, call, hm, hcall, hrequest⟩ := h.requests j h' hj
    exact ⟨m, call, List.getElem?_append_left (List.getElem?_eq_some_iff.1 hm).1 ▸ hm, hcall,
      hrequest⟩
  responses := by
    rw [hresponses]
    exact h.responses

/-- The session where a call has written its request. -/
def written (serde : SerdeJson) (s : RpcSession) (n : ℕ) (v : JsonValue) : RpcSession := { s with
  client := s.client.step serde.fromStr (.write n true)
  connection := { s.connection with
    unread := s.connection.unread ++ [Utf8.encode (serde.toStr v)] } }

theorem inv_write (h : a.Inv chrono serde) (hfew : a.client.requests.length < 2 ^ 63)
    {n : ℕ} {v : JsonValue} (hwrites : a.writes n = some v)
    (hback : message serde.fromStr (serde.toStr v) = some v) :
    (a.step chrono serde (.write n true)).Inv chrono serde := by
  obtain ⟨⟨id, hn⟩, hv⟩ := writes_eq_some hwrites
  have hx : ∀ b, ClientAction.write n true ≠ .start b := by simp
  have hstep : a.step chrono serde (.write n true) =
      { a with toRpcSession := written serde a.toRpcSession n v, sent := a.sent ++ [n] } := by
    simp only [step, RpcSession.step, RpcSession.write, RpcSession.sends, RpcSession.handles,
      hwrites, written, Rpc.Connection.step, h.wire.closed, Option.map_some, Option.toList_some,
      Option.toList_none, List.append_nil, AmbientFsClient.step, Bool.false_eq_true, if_false]
  have hrequest : ∀ m, (written serde a.toRpcSession n v).request m = a.request m := fun m =>
    request_congr a.toRpcSession (written serde a.toRpcSession n v)
      (ids_step serde.fromStr _ hx).1 rfl m
  rw [hstep]
  have hasked : Asked (written serde a.toRpcSession n v).client a.calls (a.sent ++ [n]) :=
    h.asked.write serde.fromStr hn
  exact ⟨hasked, h.wire.write hv hback (written serde a.toRpcSession n v) rfl rfl hrequest,
    h.served.write (written serde a.toRpcSession n v).connection rfl rfl n,
    h.taken.client h.asked hfew (length_read_le h.served h.wire) hx (by simp) serde.fromStr
      (written serde a.toRpcSession n v) rfl rfl rfl (.inr ⟨n, id, hn, rfl⟩)⟩

theorem length_calls_le (a : RpcSessionAudit) (x : RpcSessionAction) :
    a.calls.length ≤ (a.step chrono serde x).calls.length := by
  cases x with
  | call call => simp [step, RpcSession.step]
  | write n written => exact le_rfl
  | receive =>
    simp only [step, RpcSession.step, RpcSession.receive]
    split <;> exact le_rfl
  | client x => cases x <;> exact le_rfl
  | server x => cases x <;> exact le_rfl

/-- A write that writes no request. -/
theorem inv_unwritten (h : a.Inv chrono serde) (hfew : a.client.requests.length < 2 ^ 63) {n : ℕ}
    {written : Bool} (hno : written = false ∨ a.writes n = none) :
    (a.step chrono serde (.write n written)).Inv chrono serde := by
  have hstep : a.step chrono serde (.write n written) =
      { a with client := a.client.step serde.fromStr (.write n written) } := by
    rcases hno with rfl | hno
    · simp only [step, RpcSession.step, RpcSession.write, RpcSession.sends, RpcSession.handles,
        Option.toList_none, List.append_nil, AmbientFsClient.step]
    · cases written <;> simp only [step, RpcSession.step, RpcSession.write, RpcSession.sends,
        RpcSession.handles, hno, Option.map_none, Option.toList_none, List.append_nil,
        AmbientFsClient.step]
  rw [hstep]
  refine inv_client h hfew (by simp) (by simp) ?_
  rintro m hm id hreg
  obtain ⟨rfl, rfl⟩ := ClientAction.write.inj hm
  rcases hno with hno | hno
  · cases hno
  · have hlt := (List.getElem?_eq_some_iff.1 hreg).1
    rw [← h.asked.calls] at hlt
    simp [RpcSession.writes, hreg, RpcSession.request, List.getElem?_eq_getElem hlt] at hno

/-- An action in which nothing is written by a call and no line is read by the loop. -/
theorem step_eq {x : RpcSessionAction} (hsends : a.sends x = none)
    (hhandles : a.handles serde x = none) :
    a.step chrono serde x = { a with toRpcSession := a.toRpcSession.step chrono serde x } := by
  simp only [step, hsends, hhandles, Option.toList_none, List.append_nil]

theorem inv_step (h : a.Inv chrono serde) (hfew : a.client.requests.length < 2 ^ 63)
    {x : RpcSessionAction} (hback : a.toRpcSession.ReadsBack chrono serde x) :
    (a.step chrono serde x).Inv chrono serde := by
  cases x with
  | call call => exact inv_call h call
  | write n written =>
    rcases hw : a.writes n with _ | v
    · exact inv_unwritten h hfew (.inr hw)
    · cases written with
      | false => exact inv_unwritten h hfew (.inl rfl)
      | true => exact inv_write h hfew hw (hback v hw)
  | receive =>
    rw [step_eq rfl rfl]
    by_cases hread : a.client.reader = .reading
    · rcases hw : a.connection.written[a.taken]? with _ | w
      · simp only [RpcSession.step, RpcSession.receive, hread, hw]
        exact h
      · exact inv_receive h hfew hread hw (hback w hw)
    · have hsame : a.toRpcSession.step chrono serde .receive = a.toRpcSession := by
        simp only [RpcSession.step, RpcSession.receive]
        split
        · rename_i hreading _
          exact absurd hreading hread
        · rfl
      rw [hsame]
      exact h
  | client x =>
    rw [step_eq rfl rfl]
    cases x with
    | start | write | line => exact h
    | _ => exact inv_client h hfew (by simp) (by simp) (by simp)
  | server x =>
    cases x with
    | send | close =>
      rw [step_eq rfl rfl]
      exact h
    | read o =>
      rcases htakes : a.connection.takes with _ | line
      · rw [step_eq rfl (by simp [RpcSession.handles, htakes])]
        exact inv_server h (Rpc.Connection.idle_step (by simp) (by simp) fun _ _ => htakes)
      · exact inv_read h hfew o htakes
    | _ =>
      rw [step_eq rfl rfl]
      exact inv_server h (Rpc.Connection.idle_step (by simp) (by simp) (by simp))

theorem inv_after (notificationBuffer : ℕ) (s : ServerState) (xs : List RpcSessionAction)
    (hback : Run.Steps (step chrono serde) (start notificationBuffer s)
      (fun a => a.toRpcSession.ReadsBack chrono serde) xs)
    (hfew : (Run.after (step chrono serde) (start notificationBuffer s) xs).calls.length < 2 ^ 63) :
    (Run.after (step chrono serde) (start notificationBuffer s) xs).Inv chrono serde := by
  induction xs using List.reverseRecOn with
  | nil => exact inv_start notificationBuffer s
  | append_singleton xs x ih =>
    rw [Run.after_snoc] at hfew ⊢
    have hless := lt_of_le_of_lt (length_calls_le _ x) hfew
    have hinv := ih (hback.of_prefix (List.prefix_append xs [x])) hless
    exact inv_step hinv (hinv.asked.calls ▸ hless) (hback xs x List.prefix_rfl)

/-! ## Answers -/

/-- What is sent to a call comes from a response to its request. -/
theorem Inv.answered (h : a.Inv chrono serde) (hfew : a.client.requests.length < 2 ^ 63) {n : ℕ}
    {answer : Answer} (hsent : (n, answer) ∈ a.client.answers)
    (hne : answer ≠ .error .connectionClosed) : a.Answered n answer := by
  obtain ⟨id, stage, hn, -, hanswer⟩ := h.asked.routed.source n answer hsent
  obtain ⟨msg, hmsg, hid, rfl⟩ := hanswer.message hne
  rw [h.taken.received] at hmsg
  obtain ⟨w, hw, rfl⟩ := List.mem_map.1 hmsg
  cases w with
  | notification note => cases hid
  | response r =>
    have hr : r ∈ a.connection.responses :=
      List.mem_filterMap.2 ⟨_, List.mem_of_mem_take hw, rfl⟩
    obtain ⟨j, hj⟩ := List.mem_iff_getElem?.1 hr
    obtain ⟨handling, hhandling, hresponse⟩ := h.served.responses j r hj
    obtain ⟨m, call, hm, hcall, hrequest⟩ := h.served.requests j handling hhandling
    obtain ⟨_, _, hm', -⟩ := h.asked.sent m (List.mem_of_getElem? hm)
    have hlt := (List.getElem?_eq_some_iff.1 hn).1
    have hlt' := (List.getElem?_eq_some_iff.1 hm').1
    have hown := RequestHandling.responseId hrequest hresponse (by omega)
    have hids : UInt64.ofNat (m + 1) = .ofNat (n + 1) := by
      rw [← h.asked.numbered.id_eq hn]
      exact Option.some.inj (hown.symm.trans hid)
    have hnat := congrArg UInt64.toNat hids
    rw [UInt64.toNat_ofNat_of_lt' (show m + 1 < 2 ^ 64 by omega),
      UInt64.toNat_ofNat_of_lt' (show n + 1 < 2 ^ 64 by omega)] at hnat
    obtain rfl : m = n := by omega
    exact ⟨j, handling, call, r, hm, hhandling, hcall, hrequest, hresponse, rfl⟩

/-- What has been handled is what has been asked first. -/
theorem Inv.handled_prefix (h : a.Inv chrono serde) :
    a.handled.map (some ·.request) <+: a.sent.map a.toRpcSession.asks := by
  rw [List.prefix_iff_eq_take, List.length_map]
  refine List.ext_getElem? fun j => ?_
  rw [List.getElem?_map, List.getElem?_take]
  rcases hj : a.handled[j]? with _ | handling
  · rw [if_neg (not_lt.2 (List.getElem?_eq_none_iff.1 hj)), Option.map_none]
  · obtain ⟨n, call, hn, hcall, hrequest⟩ := h.served.requests j handling hj
    rw [if_pos (List.getElem?_eq_some_iff.1 hj).1, List.getElem?_map, hn, Option.map_some,
      Option.map_some, RpcSession.asks, hcall, Option.map_some, hrequest]

/-- Where all that is written has been read, the calls that have written have their answers. -/
theorem Inv.drained (h : a.Inv chrono serde) (hread : a.client.reader = .reading)
    (hphase : a.connection.phase ≠ .ended) (hunread : a.connection.unread = [])
    (htaken : a.taken = a.connection.written.length) {n : ℕ} (hn : n ∈ a.sent) :
    ∃ answer, a.client.answers.lookup n = some answer := by
  have hall : read a.toRpcSession = a.connection.responses := by
    unfold read
    rw [htaken, List.take_length]
    rfl
  have hlength : (read a.toRpcSession).length = a.sent.length := by
    have hdrop := h.wire.unread
    rw [hunread, List.map_nil, eq_comm, List.map_eq_nil_iff, List.drop_eq_nil_iff] at hdrop
    rw [hall, h.served.running hphase]
    exact le_antisymm h.wire.le hdrop
  have hdone := h.taken.answered hread n (by rwa [hlength, List.take_length])
  rcases hl : a.client.answers.lookup n with _ | answer
  · obtain ⟨p, hp, rfl⟩ := List.mem_map.1 hdone
    have := List.lookup_eq_none_iff.1 hl p hp
    simp at this
  · exact ⟨answer, rfl⟩

/-- **Where the texts that are written are read back: the requests are handled in the order in which
they are written, each at most once. What a call returns is what the server has answered its own
request with, but for errors of the client's own. Where all that is written has been read, each call
that waits has its answer.** -/
theorem session_answered (chrono : Chrono) (serde : SerdeJson) (notificationBuffer : ℕ)
    (s : ServerState) (xs : List RpcSessionAction)
    (hback : Run.Steps (step chrono serde) (start notificationBuffer s)
      (fun a => a.toRpcSession.ReadsBack chrono serde) xs)
    (hfew : (Run.after (step chrono serde) (start notificationBuffer s) xs).calls.length < 2 ^ 63) :
    let a := Run.after (step chrono serde) (start notificationBuffer s) xs
    a.sent.Nodup ∧ a.handled.map (some ·.request) <+: a.sent.map a.toRpcSession.asks ∧
    (∀ (n : ℕ) id answer, a.client.requests[n]? = some ⟨id, .returned answer⟩ →
      answer.own ∨ a.Answered n answer) ∧
    (a.client.reader = .reading → a.connection.phase ≠ .ended → a.connection.unread = [] →
      a.taken = a.connection.written.length →
        ∀ (n : ℕ) id, a.client.requests[n]? = some ⟨id, .waiting⟩ → ∃ answer,
          (a.client.await n).requests[n]? = some ⟨id, .returned answer⟩ ∧ a.Answered n answer) := by
  intro a
  have h : a.Inv chrono serde := inv_after notificationBuffer s xs hback hfew
  have hfew' : a.client.requests.length < 2 ^ 63 := h.asked.calls ▸ hfew
  refine ⟨h.asked.nodup, h.handled_prefix, fun n id answer hn => ?_, fun hread hphase hunread htaken n id
    hn => ?_⟩
  · rcases h.asked.routed.returned n id answer hn with hsent | hown
    · by_cases hclosed : answer = .error .connectionClosed
      · rw [hclosed]
        exact .inl trivial
      · exact .inr (h.answered hfew' hsent hclosed)
    · exact .inl hown
  · obtain ⟨answer, hl⟩ := h.drained hread hphase hunread htaken (h.asked.waiting n id hn)
    have hsent := mem_of_lookup hl
    refine ⟨answer, ?_, h.answered hfew' hsent (h.asked.allOwn hread _ hsent)⟩
    simp only [await, hn, hl]
    exact requests_setStage_self hn

/-! ## A call that asks for the agents -/

open Rpc.ConnectionAudit (idle idleOutside)

def agentsRequest : String := "\x7b\"jsonrpc\":\"2.0\",\"method\":\"query_agents\"," ++
  "\"params\":\x7b\x7d,\"id\":1\x7d"

def agentsResponse : String := "\x7b\"jsonrpc\":\"2.0\",\"result\":[],\"id\":1\x7d"

/-- What the two texts are read as. -/
def agentsTexts : SerdeJson where
  toStr v := if (v.get "method").isSome then agentsRequest.toList else agentsResponse.toList
  fromStr s :=
    if s = agentsRequest.toList then some (Client.Call.queryAgents.request 1)
    else if s = agentsResponse.toList then
      some (Rpc.Response.ofResult (.number 1) (.array [])).toValue
    else none

theorem session_answered_agents :
    (Run.after (step Client.epochOnly agentsTexts) (start 1 idle) [.call .queryAgents,
      .client (.register 0), .write 0 true, .server (.read idleOutside), .receive,
      .client (.await 0)]).Answered 0 (.ok (.array [])) := by
  refine ((session_answered Client.epochOnly agentsTexts 1 idle _ ?_ ?_).2.2.1 0 1 _
    rfl).resolve_left
    id
  · refine Run.steps_cons.2 ⟨trivial, Run.steps_cons.2 ⟨trivial, Run.steps_cons.2 ⟨?_,
      Run.steps_cons.2 ⟨trivial, Run.steps_cons.2 ⟨?_, Run.steps_cons.2 ⟨trivial,
        Run.steps_nil⟩⟩⟩⟩⟩⟩
    · rintro v ⟨⟩
      rfl
    · rintro w ⟨⟩
      rfl
  · decide

end RpcSessionAudit

end AmbientFs
