import AmbientFs.Connection
import AmbientFs.Lib.Run
import AmbientFs.Proofs.Handlers

/-!
# The responses of a connection

What is written in answer to the lines depends on the lines, what they find outside and what other
tasks do to the server, and on no notification (`unaffected`). One response is written for each line
that is not blank, with the id of its request, as long as no line ends the connection
(`one_each_iff`); a request without an id is answered too (`reply_rule_iff`).
-/

namespace AmbientFs

namespace Rpc

/-- What happens to the server from other tasks and from the lines that are read. -/
inductive Entry
  | other (s : ServerState)
  | line (line : List UInt8) (o : Outside)

/-- A connection, with what has happened. -/
structure ConnectionAudit where
  conn : Connection
  log : List Entry

namespace Connection

/-- The line that would be read. -/
def takes (c : Connection) : Option (List UInt8) := if c.Reads then c.unread.head? else none

end Connection

namespace ConnectionAudit

variable (fromStr : List Char → Option JsonValue)

def start (s : ServerState) : ConnectionAudit := ⟨.new s, []⟩

def entry (c : Connection) : ConnectionAction → Option Entry
  | .other s => some (.other s)
  | .read o => c.takes.map fun line => .line line o
  | _ => none

def step (a : ConnectionAudit) (x : ConnectionAction) : ConnectionAudit where
  conn := a.conn.step fromStr x
  log := a.log ++ (entry a.conn x).toList

/-- The lines that have been read. -/
def lines (a : ConnectionAudit) : List (List UInt8) := a.log.filterMap fun
  | .line line _ => some line
  | .other _ => none

/-- What a line is answered with, if it is. -/
def answer (o : Outside) (s : ServerState) (line : List UInt8) : ServerState × Option Response :=
  match Utf8.decode? line with
  | none => (s, none)
  | some text =>
    match Connection.request fromStr text with
    | none => (s, none)
    | some none => (s, some (.ofError .null .parseError))
    | some (some req) =>
      match handleRequest o s ∅ req with
      | (server, _, some response) => (server.quiet, some response)
      | (_, _, none) => (s, none)

/-- The server, without what it has for subscribers, and the responses, as if no one subscribed. -/
def replay (s : ServerState) (log : List Entry) : ServerState × List Response :=
  log.foldl (fun r e =>
    match e with
    | .other s => (s.quiet, r.2)
    | .line line o => ((answer fromStr o r.1 line).1, r.2 ++ (answer fromStr o r.1 line).2.toList))
    (s.quiet, [])

/-- The id of the response to a line, which the server does not matter for. -/
def answerId (o : Outside) (line : List UInt8) : Option Id :=
  (Utf8.decode? line).bind fun text =>
    (Connection.request fromStr text).bind fun
      | none => some .null
      | some req => if req.panics o.now then none else some req.id

variable {fromStr} {a : ConnectionAudit}

variable (fromStr) in
theorem answer_id (o : Outside) (s : ServerState) (line : List UInt8) :
    (answer fromStr o s line).2.map Response.id = answerId fromStr o line := by
  unfold answer answerId
  rcases Utf8.decode? line with _ | text
  · rfl
  rcases hreq : Connection.request fromStr text with _ | _ | req
  · simp [hreq]
  · simp [hreq, Response.ofError]
  · simp only [hreq, Option.bind_some]
    rcases hr : handleRequest o s ∅ req with ⟨server, subs, _ | response⟩
    · have hnone : (handleRequest o s ∅ req).2.2 = none := by rw [hr]
      rw [if_pos (handleRequest_eq_none.1 hnone)]
      rfl
    · have hsome : (handleRequest o s ∅ req).2.2 = some response := by rw [hr]
      have hpanics : req.panics o.now ≠ true := by
        intro hp
        rw [handleRequest_eq_none.2 hp] at hsome
        simp at hsome
      rw [if_neg hpanics, ← handleRequest_id hsome]
      rfl

theorem responses_append (l : List Written) (r : Response) :
    (l ++ [Written.response r]).filterMap Written.asResponse =
      l.filterMap Written.asResponse ++ [r] := by
  simp [Written.asResponse]

variable (fromStr) in
/-- What reading a line does, whichever branch of the loop reads it. -/
theorem read_takes {c : Connection} {line : List UInt8} (h : c.takes = some line) (o : Outside) :
    (c.read fromStr o).responses =
        c.responses ++ (answer fromStr o c.server.quiet line).2.toList ∧
      (c.read fromStr o).server.quiet = (answer fromStr o c.server.quiet line).1 := by
  unfold Connection.takes at h
  split_ifs at h with hreads
  obtain ⟨rest, hunread⟩ : ∃ rest, c.unread = line :: rest := by
    rcases hu : c.unread with _ | ⟨l, rest⟩
    · simp [hu] at h
    · rw [hu, List.head?_cons, Option.some.injEq] at h
      exact ⟨rest, by rw [h]⟩
  unfold Connection.read answer
  rw [if_pos hreads, hunread]
  dsimp only
  rcases Utf8.decode? line with _ | text
  · exact ⟨(List.append_nil _).symm, rfl⟩
  · dsimp only
    unfold Connection.handleLine
    rcases Connection.request fromStr text with _ | _ | req
    · exact ⟨(List.append_nil _).symm, rfl⟩
    · exact ⟨responses_append _ _, rfl⟩
    · dsimp only
      obtain ⟨hreply, hquiet⟩ := handleRequest_quiet o c.server c.subscriptions req
      rcases hr : handleRequest o c.server c.subscriptions req with ⟨server, subs, _ | response⟩
      all_goals
        rcases hr' : handleRequest o c.server.quiet ∅ req with ⟨server', subs', _ | response'⟩
        all_goals rw [hr, hr'] at hreply hquiet
      · exact ⟨(List.append_nil _).symm, rfl⟩
      · simp at hreply
      · simp at hreply
      · rw [Option.some.inj hreply]
        exact ⟨responses_append _ _, hquiet⟩

variable (fromStr) in
/-- What no line is read by and no other task leaves the responses and the server as they are. -/
theorem step_of_entry_eq_none {c : Connection} {x : ConnectionAction} (h : entry c x = none) :
    (c.step fromStr x).responses = c.responses ∧
      (c.step fromStr x).server.quiet = c.server.quiet := by
  cases x with
  | other s => simp [entry] at h
  | read o =>
    have htakes : c.takes = none := by
      cases ht : c.takes with
      | none => rfl
      | some line => simp [entry, ht] at h
    unfold Connection.takes at htakes
    simp only [Connection.step, Connection.read]
    by_cases hreads : c.Reads
    · rw [if_pos hreads, List.head?_eq_none_iff] at htakes
      rw [if_pos hreads, htakes]
      dsimp only
      split_ifs <;> exact ⟨rfl, rfl⟩
    · rw [if_neg hreads]
      exact ⟨rfl, rfl⟩
  | poll =>
    simp only [Connection.step, Connection.poll]
    repeat' split
    all_goals first | exact ⟨rfl, rfl⟩ | skip
    simp [Connection.responses, Written.asResponse]
  | round order =>
    simp only [Connection.step, Connection.round]
    split_ifs <;> exact ⟨rfl, rfl⟩
  | send line =>
    simp only [Connection.step]
    split_ifs <;> exact ⟨rfl, rfl⟩
  | tick =>
    simp only [Connection.step]
    split_ifs <;> exact ⟨rfl, rfl⟩
  | readError =>
    simp only [Connection.step]
    split_ifs <;> exact ⟨rfl, rfl⟩
  | _ => exact ⟨rfl, rfl⟩

variable (fromStr) in
/-- The server and the responses are what the replay of the log gives. -/
def Consistent (s : ServerState) (a : ConnectionAudit) : Prop :=
  replay fromStr s a.log = (a.conn.server.quiet, a.conn.responses)

theorem Consistent.step {s : ServerState} (h : a.Consistent fromStr s) (x : ConnectionAction) :
    (a.step fromStr x).Consistent fromStr s := by
  unfold Consistent at h ⊢
  have hlog : (a.step fromStr x).log = a.log ++ (entry a.conn x).toList := rfl
  have hconn : (a.step fromStr x).conn = a.conn.step fromStr x := rfl
  rw [hlog, hconn]
  rcases he : entry a.conn x with _ | e
  · obtain ⟨hresponses, hserver⟩ := step_of_entry_eq_none fromStr he
    rw [hresponses, hserver, ← h, Option.toList_none, List.append_nil]
  · unfold replay at h ⊢
    rw [Option.toList_some, List.foldl_append, h]
    cases x with
    | other s' =>
      cases he
      rfl
    | read o =>
      obtain ⟨line, hline, rfl⟩ := Option.map_eq_some_iff.1 he
      obtain ⟨hresponses, hserver⟩ := read_takes fromStr hline o
      exact Prod.ext hserver.symm hresponses.symm
    | _ => simp [entry] at he

variable (fromStr) in
theorem consistent_after (s : ServerState) (xs : List ConnectionAction) :
    (Run.after (ConnectionAudit.step fromStr) (start s) xs).Consistent fromStr s := by
  induction xs using List.reverseRecOn with
  | nil => rfl
  | append_singleton xs x ih =>
    rw [Run.after_snoc]
    exact ih.step x

end ConnectionAudit

/-! ## Back to the next line -/

/-- What the loop does by itself before it waits for a line. -/
def ConnectionAction.IsPolling : ConnectionAction → Prop
  | .round _ => True
  | .poll => True
  | _ => False

namespace Connection

variable {fromStr : List Char → Option JsonValue}

variable (fromStr) in
/-- By itself the loop comes to the select, or to the top with a subscription less. -/
def EndsRound (c : Connection) : Prop :=
  ∃ ys : List ConnectionAction, (∀ y ∈ ys, y.IsPolling) ∧
    (Run.after (step fromStr) c ys).unread = c.unread ∧
    ((Run.after (step fromStr) c ys).phase = .selecting ∨
      (Run.after (step fromStr) c ys).phase = .top ∧
        (Run.after (step fromStr) c ys).subscriptions.keys.length < c.subscriptions.keys.length)

theorem EndsRound.of_poll {c c' : Connection} (hpoll : c.poll = c')
    (hunread : c'.unread = c.unread)
    (hkeys : c'.subscriptions.keys.length = c.subscriptions.keys.length)
    (h : c'.EndsRound fromStr) : c.EndsRound fromStr := by
  obtain ⟨ys, hys, hu, hp⟩ := h
  refine ⟨.poll :: ys, ?_, ?_⟩
  · simpa [ConnectionAction.IsPolling] using hys
  · have hstep : step fromStr c .poll = c' := hpoll
    rw [Run.after_cons, hstep, hu, hunread, ← hkeys]
    exact ⟨rfl, hp⟩

variable (fromStr) in
theorem exists_polls : ∀ (rest : List String) (c : Connection), c.phase = .polling rest →
    c.EndsRound fromStr
  | [], c, h => by
    refine ⟨[.poll], by simp [ConnectionAction.IsPolling], ?_⟩
    have hstep : Run.after (step fromStr) c [.poll] = { c with phase := .selecting } := by
      show c.poll = _
      unfold poll
      rw [h]
    rw [hstep]
    exact ⟨rfl, .inl rfl⟩
  | projectId :: rest, c, h => by
    have hnext : ∀ c' : Connection, c.poll = c' → c'.phase = .polling rest →
        c'.unread = c.unread → c'.subscriptions.keys.length = c.subscriptions.keys.length →
        c.EndsRound fromStr :=
      fun c' hpoll hphase hunread hkeys =>
        .of_poll hpoll hunread hkeys (exists_polls rest c' hphase)
    unfold poll at hnext
    rw [h] at hnext
    dsimp only at hnext
    rcases hl : c.subscriptions.lookup projectId with _ | receiver
    · rw [hl] at hnext
      exact hnext _ rfl rfl rfl rfl
    · have hmem : projectId ∈ c.subscriptions :=
        AList.lookup_isSome.1 (by rw [hl]; rfl)
      have hinsert : ∀ r : Receiver, (c.subscriptions.insert projectId r).keys.length =
          c.subscriptions.keys.length := by
        intro r
        have hpos := List.length_pos_of_mem (AList.mem_keys.1 hmem)
        rw [AList.keys_insert, List.length_cons, List.length_erase_of_mem (AList.mem_keys.1 hmem)]
        omega
      rw [hl] at hnext
      dsimp only at hnext
      rcases hr : ((c.server.subscriptions.channels receiver.channel).tryRecv channelCapacity
        receiver.next).1 with n | _ | missed | _
      · rw [hr] at hnext
        exact hnext _ rfl rfl rfl (hinsert _)
      · rw [hr] at hnext
        exact hnext _ rfl rfl rfl rfl
      · rw [hr] at hnext
        exact hnext _ rfl rfl rfl (hinsert _)
      · refine ⟨[.poll], by simp [ConnectionAction.IsPolling], ?_⟩
        have hstep : Run.after (step fromStr) c [.poll] =
            { c with phase := .top, subscriptions := c.subscriptions.erase projectId } := by
          show c.poll = _
          unfold poll
          rw [h]
          dsimp only
          rw [hl]
          dsimp only
          rw [hr]
        rw [hstep]
        refine ⟨rfl, .inr ⟨rfl, ?_⟩⟩
        have hpos := List.length_pos_of_mem (AList.mem_keys.1 hmem)
        rw [AList.keys_erase, List.length_erase_of_mem (AList.mem_keys.1 hmem)]
        omega

variable (fromStr) in
/-- The loop waits for the next line after it has polled for a while, if it has not ended. -/
def ComesBack (c : Connection) : Prop :=
  c.phase ≠ .ended → ∃ ys : List ConnectionAction, (∀ y ∈ ys, y.IsPolling) ∧
    (Run.after (step fromStr) c ys).Reads ∧ (Run.after (step fromStr) c ys).unread = c.unread

theorem ComesBack.of_polls {c : Connection} {ys : List ConnectionAction}
    (hys : ∀ y ∈ ys, y.IsPolling) (hunread : (Run.after (step fromStr) c ys).unread = c.unread)
    (hend : (Run.after (step fromStr) c ys).phase ≠ .ended)
    (h : (Run.after (step fromStr) c ys).ComesBack fromStr) : c.ComesBack fromStr := by
  intro _
  obtain ⟨zs, hzs, hreads, hu⟩ := h hend
  refine ⟨ys ++ zs, ?_, ?_, ?_⟩
  · intro y hy
    rcases List.mem_append.1 hy with hy | hy
    · exact hys y hy
    · exact hzs y hy
  · rwa [Run.after_append]
  · rw [Run.after_append, hu, hunread]

theorem comesBack (c : Connection) : c.ComesBack fromStr := by
  induction hn : c.subscriptions.keys.length using Nat.strong_induction_on generalizing c with
  | _ n ih =>
    have hpolling : ∀ (c' : Connection) (rest : List String), c'.phase = .polling rest →
        c'.subscriptions.keys.length = n → c'.ComesBack fromStr := by
      intro c' rest hphase hlen
      obtain ⟨ys, hys, hunread, hend | ⟨hend, hless⟩⟩ :=
        exists_polls fromStr rest c' hphase
      · refine .of_polls hys hunread (by simp [hend]) fun _ => ⟨[], by simp, .inl hend, rfl⟩
      · refine .of_polls hys hunread (by simp [hend]) (ih _ ?_ _ rfl)
        rwa [hlen] at hless
    intro hne
    rcases hphase : c.phase with _ | rest | _ | _
    · by_cases hkeys : c.subscriptions.keys = []
      · exact ⟨[], by simp, .inr ⟨hphase, hkeys⟩, rfl⟩
      · have hround : Run.after (step fromStr) c [.round c.subscriptions.keys] =
            { c with phase := .polling c.subscriptions.keys } := by
          show c.round _ = _
          unfold round
          rw [if_pos ⟨hphase, hkeys, .refl _⟩]
        have hys : ∀ y ∈ [ConnectionAction.round c.subscriptions.keys], y.IsPolling := by
          simp [ConnectionAction.IsPolling]
        have hback : c.ComesBack fromStr := by
          refine .of_polls hys ?_ ?_ ?_ <;> rw [hround]
          · simp
          · exact hpolling _ _ rfl hn
        exact hback hne
    · exact hpolling c rest hphase hn hne
    · exact ⟨[], by simp, .inl hphase, rfl⟩
    · exact absurd hphase hne

end Connection

namespace ConnectionAudit

variable (fromStr) {a : ConnectionAudit}

/-- Any other run with the same lines, outside and other tasks has written the same responses,
whatever was published in either. -/
def Unaffected (s : ServerState) (a : ConnectionAudit) : Prop :=
  ∀ xs, (Run.after (step fromStr) (start s) xs).log = a.log →
    (Run.after (step fromStr) (start s) xs).conn.responses = a.conn.responses

/-- The ids of the responses are what is expected of the lines. -/
def Keeps (expected : List UInt8 → Option Id) (a : ConnectionAudit) : Prop :=
  a.conn.responses.map Response.id = a.lines.filterMap expected

/-- A line that is read is answered with what is expected. -/
def AnswersAs (expected : List UInt8 → Option Id) (a : ConnectionAudit) (x : ConnectionAction) :
    Prop :=
  ∀ o line, x = .read o → a.conn.takes = some line → answerId fromStr o line = expected line

variable {fromStr}

theorem unaffected (s : ServerState) (xs : List ConnectionAction) :
    (Run.after (step fromStr) (start s) xs).Unaffected fromStr s := by
  intro ys hlog
  have hx := consistent_after fromStr s xs
  have hy := consistent_after fromStr s ys
  unfold Consistent at hx hy
  rw [hlog, hx] at hy
  exact (Prod.mk.inj hy).2.symm

theorem lines_step (x : ConnectionAction) : (a.step fromStr x).lines = a.lines ++
    (match x with
      | .read _ => a.conn.takes
      | _ => none).toList := by
  have hlog : (a.step fromStr x).log = a.log ++ (entry a.conn x).toList := rfl
  unfold lines
  rw [hlog, List.filterMap_append]
  cases x with
  | read o => cases h : a.conn.takes <;> simp [entry, h]
  | _ => rfl

theorem append_toList_inj {α : Type} {l : List α} {o o' : Option α} :
    l ++ o.toList = l ++ o'.toList ↔ o = o' := by
  rw [List.append_cancel_left_eq]
  cases o <;> cases o' <;> simp

/-- One line more is answered as expected exactly if its answer is. -/
theorem keeps_step {expected : List UInt8 → Option Id} (h : a.Keeps expected)
    (x : ConnectionAction) :
    (a.step fromStr x).Keeps expected ↔ AnswersAs fromStr expected a x := by
  have hconn : (a.step fromStr x).conn = a.conn.step fromStr x := rfl
  unfold Keeps at h ⊢
  rw [lines_step, List.filterMap_append, ← h, hconn]
  rcases he : entry a.conn x with _ | e
  · rw [(step_of_entry_eq_none fromStr he).1]
    refine iff_of_true ?_ ?_
    · cases x with
      | read o =>
        have htakes : a.conn.takes = none := Option.map_eq_none_iff.1 he
        simp [htakes]
      | _ => simp
    · intro o line hx htakes
      rw [hx, entry, htakes] at he
      simp at he
  · cases x with
    | other s =>
      refine iff_of_true ?_ ?_
      · simp only [Option.toList_none, List.filterMap_nil, List.append_nil]
        rfl
      · intro o line hx
        simp at hx
    | read o =>
      obtain ⟨line, hline, rfl⟩ := Option.map_eq_some_iff.1 he
      have hread : (a.conn.step fromStr (.read o)).responses = _ :=
        (read_takes fromStr hline o).1
      have hsome : (a.conn.takes.toList.filterMap expected) = (expected line).toList := by
        rw [hline]
        cases hexp : expected line <;> simp [hexp]
      have hids : ((answer fromStr o a.conn.server.quiet line).2.toList.map Response.id) =
          (answerId fromStr o line).toList := by
        rw [← answer_id fromStr o a.conn.server.quiet line]
        cases (answer fromStr o a.conn.server.quiet line).2 <;> rfl
      simp only [hread, List.map_append, hsome, hids, append_toList_inj]
      constructor
      · intro heq o' line' ho hline'
        cases ho
        rw [hline] at hline'
        cases hline'
        exact heq
      · intro hanswers
        exact hanswers o line rfl hline
    | _ => simp [entry] at he

variable (fromStr) in
theorem always_keeps_iff (s : ServerState) (expected : List UInt8 → Option Id)
    (xs : List ConnectionAction) :
    Run.Always (step fromStr) (start s) (Keeps expected) xs ↔
      Run.Steps (step fromStr) (start s) (AnswersAs fromStr expected) xs := by
  have h0 : (start s).Keeps expected := rfl
  exact Run.always_iff_steps h0 (fun _ h => h) (fun _ x h hx => (keeps_step h x).2 hx)
    (fun _ x h hx hk => hx ((keeps_step h x).1 hk))

end ConnectionAudit

end Rpc

end AmbientFs
