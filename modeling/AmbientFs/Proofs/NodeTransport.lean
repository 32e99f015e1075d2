import AmbientFs.NodeTransport

/-!
# Messages in chunks

The buffer carries what is not yet a line from one chunk to the next, so the lines that are handled
are those of the decoded texts one after the other. The chunks are decoded each on its own, and
give the text that was sent as long as none of them starts inside a character.
-/

namespace AmbientFs

open Lines Utf8

variable {ν : Type} [DecidableEq ν] [Zero ν] {t : Transport ν}

namespace Transport

variable (parse : List Char → Option (Json.Value ν))

/-- Lines are handled without the buffer. -/
theorem handleLine_buffer (line buffer : List Char) :
    handleLine parse { t with buffer := buffer } line =
      { handleLine parse t line with buffer := buffer } := by
  unfold handleLine
  split_ifs
  · rfl
  · split
    · split
      · simp only [handleResponse]
        split_ifs <;> rfl
      · simp only [notify]
        split_ifs <;> rfl
    · rfl

theorem foldl_handleLine_buffer (lines : List (List Char)) (buffer : List Char) :
    lines.foldl (handleLine parse) { t with buffer := buffer } =
      { lines.foldl (handleLine parse) t with buffer := buffer } := by
  induction lines generalizing t with
  | nil => rfl
  | cons line lines ih => rw [List.foldl_cons, handleLine_buffer, ih, List.foldl_cons]

variable {parse} {ls : List (List Char)} {rest : List Char}

theorem handleData_eq (hls : ∀ l ∈ ls, '\n' ∉ l) (hrest : '\n' ∉ rest) {data : List UInt8}
    (h : t.buffer ++ decode data = terminated ls ++ rest) :
    handleData parse t data = { ls.foldl (handleLine parse) t with buffer := rest } := by
  simp only [handleData, h, splitOn_eq hls hrest]
  simp

/-- The lines that are handled are those of the whole text. -/
theorem receive_eq (hbuffer : '\n' ∉ t.buffer) (hls : ∀ l ∈ ls, '\n' ∉ l) (hrest : '\n' ∉ rest)
    {chunks : List (List UInt8)}
    (h : t.buffer ++ chunks.flatMap decode = terminated ls ++ rest) :
    receive parse t chunks = { ls.foldl (handleLine parse) t with buffer := rest } := by
  induction chunks generalizing t ls with
  | nil =>
    have hnil : terminated [] ++ t.buffer = terminated ls ++ rest := by simpa using h
    obtain ⟨rfl, rfl⟩ := terminated_inj (by simp) hbuffer hls hrest hnil
    rfl
  | cons chunk chunks ih =>
    obtain ⟨ls₁, rest₁, h₁, hls₁, hrest₁⟩ := exists_terminated (t.buffer ++ decode chunk)
    obtain ⟨ls₂, rest₂, h₂, hls₂, hrest₂⟩ := exists_terminated (rest₁ ++ chunks.flatMap decode)
    have hall : terminated (ls₁ ++ ls₂) ++ rest₂ = terminated ls ++ rest := by
      rw [terminated_append, List.append_assoc, ← h₂, ← List.append_assoc, ← h₁, ← h,
        List.flatMap_cons, List.append_assoc]
    obtain ⟨rfl, rfl⟩ := terminated_inj
      (fun l hl => (List.mem_append.1 hl).elim (hls₁ l) (hls₂ l)) hrest₂ hls hrest hall
    rw [receive, List.foldl_cons, handleData_eq hls₁ hrest₁ h₁, ← receive,
      ih hrest₁ hls₂ h₂, foldl_handleLine_buffer, List.foldl_append]

/-! ## The messages that are sent -/

variable {messages : List MessageText} {chunks : List (List UInt8)}

theorem newline_not_mem (messages : List MessageText) :
    ∀ l ∈ messages.map (·.text), '\n' ∉ l := by
  intro l hl
  obtain ⟨m, -, rfl⟩ := List.mem_map.1 hl
  exact m.oneLine

/-- Lines that a connection starts with. -/
theorem receive_new {pending : List ν} {callback : Bool} (hls : ∀ l ∈ ls, '\n' ∉ l)
    (h : chunks.flatMap decode = terminated ls) :
    receive parse (new pending callback) chunks =
      ls.foldl (handleLine parse) (new pending callback) := by
  have heq : (new pending callback).buffer ++ chunks.flatMap decode = terminated ls ++ [] := by
    simpa [new] using h
  rw [receive_eq (by simp [new]) hls (by simp) heq]
  exact (foldl_handleLine_buffer (t := new pending callback) parse ls []).symm

theorem receive_sent {pending : List ν} {callback : Bool}
    (h : chunks.flatMap decode = terminated (messages.map (·.text))) :
    receive parse (new pending callback) chunks =
      (messages.map (·.text)).foldl (handleLine parse) (new pending callback) :=
  receive_new (newline_not_mem messages) h

/-- The message a line is read as by a reader that tells all lines apart. -/
def echo (line : List Char) : Json.Value ν :=
  .object [("id", .number 0), ("text", .string (String.ofList line))]

omit [DecidableEq ν] in
theorem echo_injective : Function.Injective (echo : List Char → Json.Value ν) := by
  intro l l' h
  simp only [echo, Json.Value.object.injEq, List.cons.injEq, Prod.mk.injEq, true_and, and_true,
    Json.Value.string.injEq] at h
  exact String.ofList_injective h

def notBlank (line : List Char) : Bool := Lines.trim jsWhiteSpace line ≠ []

theorem dispatched_handleLine (line : List Char) :
    (handleLine (fun l => some (echo l)) t line).dispatched =
      t.dispatched ++ if notBlank line then [.response (echo line)] else [] := by
  unfold handleLine notBlank
  by_cases hb : Lines.trim jsWhiteSpace line = []
  · simp [hb]
  · simp only [hb, if_false, echo, List.lookup_cons_self, handleResponse]
    split_ifs <;> simp_all

theorem dispatched_foldl (ls : List (List Char)) :
    (ls.foldl (handleLine fun l => some (echo l)) t).dispatched =
      t.dispatched ++ (ls.filter notBlank).map fun l => .response (echo l) := by
  induction ls generalizing t with
  | nil => simp
  | cons l ls ih =>
    rw [List.foldl_cons, ih, dispatched_handleLine, List.filter_cons]
    split_ifs <;> simp

theorem filter_notBlank (messages : List MessageText) :
    (messages.map (·.text)).filter notBlank = messages.map (·.text) := by
  rw [List.filter_eq_self]
  intro l hl
  obtain ⟨m, -, rfl⟩ := List.mem_map.1 hl
  simpa [notBlank] using m.notBlank

theorem getLast?_sentBytes (hne : messages ≠ []) : (sentBytes messages).getLast? = some 10 := by
  obtain ⟨ms, m, rfl⟩ := List.eq_nil_or_concat' messages |>.resolve_left hne
  simp only [sentBytes, List.map_append, List.map_cons, List.map_nil, terminated_append,
    terminated_cons, terminated_nil, encode_append, encode_cons, encode_nil, List.append_nil]
  rw [← List.append_assoc, List.getLast?_append]
  rfl

/-- Lines that are read as the messages are the messages, and nothing comes after them. -/
theorem eq_of_filter_notBlank (h : chunks.flatten = sentBytes messages)
    (hls : ∀ l ∈ ls, '\n' ∉ l) (hrest : '\n' ∉ rest)
    (hdecode : chunks.flatMap decode = terminated ls ++ rest)
    (hfilter : ls.filter notBlank = messages.map (·.text)) :
    chunks.flatMap decode = terminated (messages.map (·.text)) := by
  have hcount : ls.length = messages.length := by
    have h₁ := congrArg (List.count '\n') hdecode
    have h₂ := count_flatMap_decode [sentBytes messages]
    simp only [List.flatMap_cons, List.flatMap_nil, List.append_nil, List.flatten_cons,
      List.flatten_nil, sentBytes, decode_encode, count_terminated (newline_not_mem messages),
      List.length_map] at h₂
    rw [count_flatMap_decode, h, sentBytes, ← h₂, List.count_append, count_terminated hls,
      List.count_eq_zero_of_not_mem hrest] at h₁
    omega
  have hall : ls = messages.map (·.text) := by
    rw [← hfilter]
    refine (List.Sublist.eq_of_length List.filter_sublist ?_).symm
    rw [hfilter, List.length_map, hcount]
  subst hall
  rcases eq_or_ne messages [] with rfl | hne
  · have hnil : ∀ chunk ∈ chunks, chunk = [] := List.flatten_eq_nil_iff.1 h
    rw [List.flatMap_eq_nil_iff.2 fun chunk hc => by rw [hnil chunk hc]; rfl]
    rfl
  · have hlast : (chunks.flatMap decode).getLast? = some '\n' :=
      getLast?_flatMap_decode (h ▸ getLast?_sentBytes hne)
    rcases hr : rest.getLast? with _ | c
    · rw [hdecode, List.getLast?_eq_none_iff.1 hr, List.append_nil]
    · rw [hdecode, List.getLast?_append, hr, Option.some_or, Option.some.injEq] at hlast
      subst hlast
      exact absurd (List.mem_of_getLast? hr) hrest

/-- **However its bytes are split, what is sent is handed on as if it came in one chunk, exactly
if no chunk starts inside a character.** -/
theorem framing_iff (messages : List MessageText) (chunks : List (List UInt8))
    (h : chunks.flatten = sentBytes messages) (pending : List ν) (callback : Bool) :
    (∀ parse : List Char → Option (Json.Value ν),
      (receive parse (new pending callback) chunks).dispatched =
        (receive parse (new pending callback) [sentBytes messages]).dispatched) ↔
      Aligned chunks := by
  have hone : [sentBytes messages].flatMap decode = terminated (messages.map (·.text)) := by
    simp [sentBytes, decode_encode]
  constructor
  · intro hall
    have heq := hall fun l => some (echo l)
    obtain ⟨ls, rest, hdecode, hls, hrest⟩ := exists_terminated (chunks.flatMap decode)
    rw [receive_sent hone, receive_eq (by simp [new]) hls hrest (by simpa [new] using hdecode),
      dispatched_foldl, dispatched_foldl, filter_notBlank, List.append_cancel_left_eq] at heq
    refine (flatMap_decode_eq_iff h).1 (eq_of_filter_notBlank h hls hrest hdecode ?_)
    refine List.map_injective_iff.2 ?_ heq
    intro l l' hl
    exact echo_injective (Dispatched.response.inj hl)
  · intro ha parse
    rw [receive_sent hone, receive_sent ((flatMap_decode_eq_iff h).2 ha)]

/-- A message with a character of two bytes. -/
def accented : MessageText where
  text := "\x7b\"method\":\"\u00e9\"\x7d".toList
  oneLine := by decide
  notBlank := by decide

/-- The same with each of the two bytes replaced. -/
def garbled : List Char := "\x7b\"method\":\"\ufffd\ufffd\"\x7d".toList

/-- What the parser makes of the two lines, and of no other. -/
def parseAccented (line : List Char) : Option (Json.Value ℤ) :=
  if line = accented.text then some (.object [("method", .string "\u00e9")])
  else if line = garbled then some (.object [("method", .string "\ufffd\ufffd")])
  else none

/-- A message that is split before a character of two bytes is handed on. -/
theorem framing_between :
    (receive parseAccented (new [] true)
      [(sentBytes [accented]).take 11, (sentBytes [accented]).drop 11]).dispatched =
        (receive parseAccented (new [] true) [sentBytes [accented]]).dispatched := by
  refine (framing_iff [accented] _ ?_ [] true).2 ?_ parseAccented
  · simp
  · intro chunk hchunk b hb
    rcases List.mem_pair.1 hchunk with rfl | rfl
    · have hhead : ((sentBytes [accented]).take 11).head? = some 123 := by decide
      rw [hhead] at hb
      cases hb
      decide
    · have hhead : ((sentBytes [accented]).drop 11).head? = some 195 := by decide
      rw [hhead] at hb
      cases hb
      decide

/-- A message that is split inside the character is handed on with replacements. -/
theorem framing_inside : ¬ ∀ (messages : List MessageText) (chunks : List (List UInt8))
    (parse : List Char → Option (Json.Value ℤ)), chunks.flatten = sentBytes messages →
      (receive parse (new [] true) chunks).dispatched =
        (receive parse (new [] true) [sentBytes messages]).dispatched := by
  intro h
  have hsplit := h [accented] [(sentBytes [accented]).take 12, (sentBytes [accented]).drop 12]
    parseAccented (by simp)
  have hgarbled : [(sentBytes [accented]).take 12, (sentBytes [accented]).drop 12].flatMap decode =
      Lines.terminated [garbled] := by decide
  have hone : [sentBytes [accented]].flatMap decode = Lines.terminated [accented.text] := by decide
  rw [receive_new (by decide) hone, receive_new (by decide) hgarbled] at hsplit
  have hne : garbled ≠ accented.text := by decide
  have hblank : Lines.trim jsWhiteSpace garbled ≠ [] := by decide
  simp [handleLine, parseAccented, accented.notBlank, hblank, hne, List.lookup, notify, new]
    at hsplit

end Transport

end AmbientFs
