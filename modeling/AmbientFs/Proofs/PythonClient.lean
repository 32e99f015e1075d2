import AmbientFs.PythonClient

/-!
# The line a call reads

A call takes the line at the head of the stream for its response and does not look at the id.
What it returns is its own result as long as no line with another id, or with none, is there.
-/

namespace AmbientFs

variable {ν : Type} {loads : List Char → Option (Json.Value ν)} {text : List Char}

theorem asStr_bind_eq_some {v : Option (Json.Value ν)} {s : String} :
    v.bind Json.Value.asStr = some s ↔ v = some (.string s) := by
  rcases v with _ | v
  · simp
  · cases v <;> simp [Json.Value.asStr]

/-- A response with a result. -/
def ResultOf (loads : List Char → Option (Json.Value ν)) (text : List Char)
    (msg result : Json.Value ν) : Prop :=
  loads text = some msg ∧ msg.get "jsonrpc" = some (.string "2.0") ∧ msg.get "error" = none ∧
    msg.get "result" = some result

theorem parseResponse_eq_ok {result : Json.Value ν} :
    parseResponse loads text = .ok result ↔ ∃ msg, ResultOf loads text msg result := by
  unfold parseResponse ResultOf
  rcases hl : loads text with _ | msg
  · simp
  · cases msg with
    | object response =>
      simp only [Option.some.injEq, ne_eq, ite_not, asStr_bind_eq_some]
      constructor
      · intro h
        split_ifs at h with hv
        rcases he : response.lookup "error" with _ | err
        · rcases hr : response.lookup "result" with _ | v
          · simp [he, hr] at h
          · simp only [he, hr] at h
            cases h
            exact ⟨_, rfl, asStr_bind_eq_some.1 hv, he, hr⟩
        · simp only [he] at h
          split at h <;> cases h
      · rintro ⟨msg, rfl, hv, he, hr⟩
        simp only [Json.Value.get_object] at hv he hr
        simp [hv, he, hr]
    | _ => simp [Json.Value.get]

namespace JsonRpcClient

variable {c : JsonRpcClient ν} {a : CallAction}

theorem finished_call (written : Bool) : (c.call written).finished = c.finished ∨
    ∃ f : FinishedCall ν, f.reply = .error .write ∧
      (c.call written).finished = c.finished ++ [f] := by
  unfold call
  rcases c.calling with _ | id
  · cases written with
    | false => exact .inr ⟨⟨c.nextId, none, .error .write⟩, rfl, rfl⟩
    | true => exact .inl rfl
  · exact .inl rfl

theorem finished_giveUp (error : CallError ν) : (c.giveUp error).finished = c.finished ∨
    ∃ f : FinishedCall ν, f.reply = .error error ∧
      (c.giveUp error).finished = c.finished ++ [f] := by
  unfold giveUp
  rcases c.calling with _ | id
  · exact .inl rfl
  · exact .inr ⟨⟨id, none, .error error⟩, rfl, rfl⟩

theorem finished_readLine : (c.readLine loads).finished = c.finished ∨
    (∃ f : FinishedCall ν, (∃ e, f.reply = .error e) ∧
      (c.readLine loads).finished = c.finished ++ [f]) ∨
    ∃ id text rest, c.calling = some id ∧ c.stream = some text :: rest ∧
      (c.readLine loads).finished = c.finished ++ [⟨id, some text, parseResponse loads text⟩] := by
  unfold readLine
  rcases c.calling with _ | id
  · exact .inl rfl
  · rcases c.stream with _ | ⟨_ | text, rest⟩
    · simp only []
      split_ifs
      · exact .inr (.inl ⟨⟨id, none, _⟩, ⟨_, rfl⟩, rfl⟩)
      · exact .inl rfl
    · exact .inr (.inl ⟨⟨id, none, _⟩, ⟨_, rfl⟩, rfl⟩)
    · exact .inr (.inr ⟨id, text, rest, rfl, rfl, rfl⟩)

variable (loads c a) in
/-- A call that ends has raised, or has read the line at the head of the stream. -/
theorem finished_step : (c.step loads a).finished = c.finished ∨
    (∃ f : FinishedCall ν, (∃ e, f.reply = .error e) ∧
      (c.step loads a).finished = c.finished ++ [f]) ∨
    a = .readLine ∧ ∃ id text rest, c.calling = some id ∧ c.stream = some text :: rest ∧
      (c.step loads a).finished = c.finished ++ [⟨id, some text, parseResponse loads text⟩] := by
  cases a with
  | arrive line =>
    left
    simp only [step]
    split_ifs <;> rfl
  | feedEof => exact .inl rfl
  | call written =>
    rcases finished_call written with h | ⟨f, hf, h⟩
    · exact .inl h
    · exact .inr (.inl ⟨f, ⟨_, hf⟩, h⟩)
  | readLine =>
    rcases finished_readLine with h | h | h
    · exact .inl h
    · exact .inr (.inl h)
    · exact .inr (.inr ⟨rfl, h⟩)
  | timeout =>
    rcases finished_giveUp .timeout with h | ⟨f, hf, h⟩
    · exact .inl h
    · exact .inr (.inl ⟨f, ⟨_, hf⟩, h⟩)
  | cancel =>
    rcases finished_giveUp .cancelled with h | ⟨f, hf, h⟩
    · exact .inl h
    · exact .inr (.inl ⟨f, ⟨_, hf⟩, h⟩)

variable [NatCast ν]

/-- What calls have returned are the results of lines with their own ids. -/
def Matched (loads : List Char → Option (Json.Value ν)) (c : JsonRpcClient ν) : Prop :=
  ∀ f ∈ c.finished, ∀ result, f.reply = .ok result → ∃ text msg, f.responseLine = some text ∧
    ResultOf loads text msg result ∧ msg.get "id" = some (.number (f.id : ν))

/-- If the line that a call reads is a response with a result, it has the id of the call. -/
def ReadsOwn (loads : List Char → Option (Json.Value ν)) (c : JsonRpcClient ν) :
    CallAction → Prop
  | .readLine => ∀ id text rest msg result, c.calling = some id → c.stream = some text :: rest →
      ResultOf loads text msg result → msg.get "id" = some (.number (id : ν))
  | _ => True

theorem matched_of_finished {c' : JsonRpcClient ν} {f : FinishedCall ν}
    (h : c'.finished = c.finished ++ [f]) : Matched loads c' ↔ Matched loads c ∧
      ∀ result, f.reply = .ok result → ∃ text msg, f.responseLine = some text ∧
        ResultOf loads text msg result ∧ msg.get "id" = some (.number (f.id : ν)) := by
  simp only [Matched, h, List.mem_append, List.mem_singleton, or_imp, forall_and, forall_eq]

theorem Matched.step (h : Matched loads c) (ha : ReadsOwn loads c a) :
    Matched loads (c.step loads a) := by
  rcases finished_step loads c a with heq | ⟨f, ⟨e, he⟩, heq⟩ | ⟨rfl, id, text, rest, hid, hs, heq⟩
  · rw [Matched, heq]
    exact h
  · refine (matched_of_finished heq).2 ⟨h, fun result hr => ?_⟩
    simp [he] at hr
  · refine (matched_of_finished heq).2 ⟨h, fun result hr => ?_⟩
    obtain ⟨msg, hmsg⟩ := parseResponse_eq_ok.1 hr
    exact ⟨text, msg, rfl, hmsg, ha id text rest msg result hid hs hmsg⟩

theorem not_matched_of_reads (ha : ¬ ReadsOwn loads c a) : ¬ Matched loads (c.step loads a) := by
  cases a with
  | readLine =>
    simp only [ReadsOwn, not_forall] at ha
    obtain ⟨id, text, rest, msg, result, hid, hs, hmsg, hne⟩ := ha
    have heq : (c.step loads .readLine).finished =
        c.finished ++ [⟨id, some text, parseResponse loads text⟩] := by
      simp [JsonRpcClient.step, JsonRpcClient.readLine, hid, hs, finish]
    intro h
    obtain ⟨text', msg', ht, hmsg', hown⟩ :=
      ((matched_of_finished heq).1 h).2 result (parseResponse_eq_ok.2 ⟨msg, hmsg⟩)
    cases ht
    have hmm := hmsg.1.symm.trans hmsg'.1
    cases hmm
    exact hne hown
  | _ => exact absurd trivial ha

/-- **Over a session every call returns the result of a response with its own id, or raises,
exactly if no call reads a result that has not its id.** -/
theorem calls_matched_iff (loads : List Char → Option (Json.Value ν)) (as : List CallAction) :
    Run.Always (step loads) new (Matched loads) as ↔
      Run.Steps (step loads) new (ReadsOwn loads) as := by
  refine Run.always_iff_steps (by simp [Matched, new]) (fun c h => h) ?_ ?_
  · exact fun c a h ha => h.step ha
  · exact fun c a _ ha => not_matched_of_reads ha

/-! ## Responses in turn -/

/-- If a line is a response with a result, it has the id. -/
def Answers (loads : List Char → Option (Json.Value ν)) (line : Option (List Char)) (id : ℕ) :
    Prop :=
  ∀ text ∈ line, ∀ msg result, ResultOf loads text msg result →
    msg.get "id" = some (.number (id : ν))

/-- A line comes in for a call that is waiting, which takes it before it gives up. -/
def InTurn (loads : List Char → Option (Json.Value ν)) (c : JsonRpcClient ν) : CallAction → Prop
  | .arrive line => c.stream = [] ∧ ∃ id, c.calling = some id ∧ Answers loads line id
  | .timeout | .cancel => c.stream = []
  | _ => True

/-- No line is left but that of the call that is waiting. -/
def Answered (loads : List Char → Option (Json.Value ν)) (c : JsonRpcClient ν) : Prop :=
  c.stream = [] ∨ ∃ id line, c.calling = some id ∧ c.stream = [line] ∧ Answers loads line id

theorem Answered.giveUp (h : c.stream = []) (error : CallError ν) :
    Answered loads (c.giveUp error) := by
  unfold JsonRpcClient.giveUp
  split
  · exact .inl h
  · exact .inl h

theorem Answered.step (h : Answered loads c) (ha : InTurn loads c a) :
    Answered loads (c.step loads a) := by
  cases a with
  | arrive line =>
    obtain ⟨hs, id, hid, hline⟩ := ha
    simp only [JsonRpcClient.step]
    split_ifs
    · exact h
    · exact .inr ⟨id, line, hid, by simp [hs], hline⟩
  | feedEof => exact h
  | call written =>
    simp only [JsonRpcClient.step, call]
    split
    · exact h
    · rename_i hid
      have hs : c.stream = [] := by
        rcases h with hs | ⟨id, line, hid', -⟩
        · exact hs
        · simp [hid] at hid'
      split_ifs
      · exact .inl hs
      · exact .inl hs
  | readLine =>
    rcases h with hs | ⟨id, line, hid, hs, hline⟩
    · left
      rcases hid : c.calling with _ | id <;> simp only [JsonRpcClient.step, readLine, hid, hs]
      split_ifs <;> exact hs
    · left
      cases line <;> simp [JsonRpcClient.step, readLine, hid, hs, finish]
  | timeout => exact Answered.giveUp ha _
  | cancel => exact Answered.giveUp ha _

theorem Answered.readsOwn (h : Answered loads c) : ReadsOwn loads c a := by
  cases a with
  | readLine =>
    intro id text rest msg result hid hs hmsg
    rcases h with hs' | ⟨id', line, hid', hs', hline⟩
    · simp [hs] at hs'
    · rw [hs, List.cons.injEq] at hs'
      obtain ⟨rfl, -⟩ := hs'
      cases hid.symm.trans hid'
      exact hline text rfl msg result hmsg
  | _ => trivial

/-- Calls read their own responses if these come in turn. -/
theorem steps_readsOwn {as : List CallAction} (h : Run.Steps (step loads) new (InTurn loads) as) :
    Run.Steps (step loads) new (ReadsOwn loads) as :=
  h.imp (I := Answered loads) (.inl rfl) (fun _ _ hc ha => hc.step ha) fun _ _ hc _ => hc.readsOwn

/-- The late response to a call that has timed out. -/
def lateResponse : List Char := "\x7b\"jsonrpc\":\"2.0\",\"result\":true,\"id\":1\x7d\n".toList

def lateMessage : Json.Value ℤ :=
  .object [("jsonrpc", .string "2.0"), ("result", .bool true), ("id", .number 1)]

/-- A call gets the late response to the one before it. -/
theorem calls_not_matched : ¬ ∀ (loads : List Char → Option (Json.Value ℤ)) as,
    Run.Always (step loads) new (Matched loads) as := by
  intro h
  have hlate := h (fun text => if text = lateResponse then some lateMessage else none)
    [.call true, .timeout, .call true, .arrive (some lateResponse), .readLine] _ List.prefix_rfl
  obtain ⟨text, msg, -, hmsg, hid⟩ := hlate ⟨2, some lateResponse, .ok (.bool true)⟩
    (by simp [Run.after, step, call, giveUp, finish, readLine, new, parseResponse, lateMessage,
      List.lookup]) (.bool true) rfl
  obtain ⟨hloads, -⟩ := hmsg
  simp only [] at hloads
  split_ifs at hloads
  cases hloads
  simp [lateMessage, List.lookup] at hid

end JsonRpcClient

end AmbientFs
