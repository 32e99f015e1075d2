import AmbientFs.NodeClient
import AmbientFs.Proofs.NodeTransport

/-!
# Each promise ends once, with its own answer

A request is pending exactly as long as nothing has happened to its promise and its timeout is set.
What resolves a promise is a response with its id, and nothing has happened to the promise before.
Closing the transport ends all that are left.
-/

namespace AmbientFs

namespace Transport

variable {ν : Type} {t t' t'' : Transport ν} {new new' : List (ν × Settled ν)}

/-- What a response says of the request it answers. -/
def Tells (ds : List (Dispatched ν)) (x : ν × Settled ν) : Prop :=
  ∀ result, x.2 = .resolve result → ∃ msg : Json.Value ν, .response msg ∈ ds ∧
    msg.get "id" = some (.number x.1) ∧ msg.get "result" = result

theorem Tells.mono {ds ds' : List (Dispatched ν)} {x : ν × Settled ν} (h : Tells ds x)
    (hds : ds ⊆ ds') : Tells ds' x := by
  intro result hx
  obtain ⟨msg, hmem, hmsg⟩ := h result hx
  exact ⟨msg, hds hmem, hmsg⟩

section Answers

variable [DecidableEq ν]

/-- The requests of `new` are answered, each by its response, and leave the map. -/
structure Answers (t : Transport ν) (new : List (ν × Settled ν)) (t' : Transport ν) : Prop where
  settled : t'.settled = t.settled ++ new
  pending : t'.pending = t.pending.filter (· ∉ new.map Prod.fst)
  waited : ∀ x ∈ new, x.1 ∈ t.pending
  nodup : (new.map Prod.fst).Nodup
  callback : t'.notificationCallback = t.notificationCallback
  dispatched : ∃ more, t'.dispatched = t.dispatched ++ more ∧ (∀ x ∈ new, Tells more x) ∧
    (t.notificationCallback = false → ∀ d ∈ more, ∃ msg, d = .response msg)

theorem Answers.none (hs : t'.settled = t.settled) (hp : t'.pending = t.pending)
    (hc : t'.notificationCallback = t.notificationCallback) {more : List (Dispatched ν)}
    (hd : t'.dispatched = t.dispatched ++ more)
    (hm : t.notificationCallback = false → ∀ d ∈ more, ∃ msg, d = .response msg) :
    t.Answers [] t' := by
  refine ⟨by rw [hs, List.append_nil], ?_, by simp, List.nodup_nil, hc, more, hd, by simp, hm⟩
  rw [hp, List.filter_eq_self.2]
  simp

theorem Answers.trans (h : t.Answers new t') (h' : t'.Answers new' t'') :
    t.Answers (new ++ new') t'' := by
  obtain ⟨more, hd, htells, hquiet⟩ := h.dispatched
  obtain ⟨more', hd', htells', hquiet'⟩ := h'.dispatched
  have hwaited : ∀ x ∈ new', x.1 ∈ t.pending ∧ x.1 ∉ new.map Prod.fst := by
    intro x hx
    have := h'.waited x hx
    rw [h.pending, List.mem_filter] at this
    exact ⟨this.1, by simpa using this.2⟩
  refine ⟨?_, ?_, fun x hx => ?_, ?_, h'.callback.trans h.callback, more ++ more', ?_,
    fun x hx => ?_, fun hc d hdm => ?_⟩
  · rw [h'.settled, h.settled, List.append_assoc]
  · rw [h'.pending, h.pending, List.filter_filter]
    refine List.filter_congr fun id _ => ?_
    rw [List.map_append]
    simp only [List.mem_append, not_or, Bool.decide_and, decide_not]
    exact Bool.and_comm _ _
  · rcases List.mem_append.1 hx with hx | hx
    · exact h.waited x hx
    · exact (hwaited x hx).1
  · rw [List.map_append, List.nodup_append]
    refine ⟨h.nodup, h'.nodup, fun id hid id' hid' heq => ?_⟩
    obtain ⟨x, hx, rfl⟩ := List.mem_map.1 hid'
    exact (hwaited x hx).2 (heq ▸ hid)
  · rw [hd', hd, List.append_assoc]
  · rcases List.mem_append.1 hx with hx | hx
    · exact (htells x hx).mono (List.subset_append_left _ _)
    · exact (htells' x hx).mono (List.subset_append_right _ _)
  · rcases List.mem_append.1 hdm with hdm | hdm
    · exact hquiet hc d hdm
    · exact hquiet' (h.callback.trans hc) d hdm

variable [Zero ν] {parse : List Char → Option (Json.Value ν)}

theorem answers_handleResponse (t : Transport ν) {id : ν} {msg : Json.Value ν}
    (hid : msg.get "id" = some (.number id)) : ∃ new, t.Answers new (t.handleResponse id msg) := by
  unfold handleResponse
  by_cases hp : id ∈ t.pending
  swap
  · refine ⟨[], ?_⟩
    simp only [if_pos hp]
    exact .none rfl rfl rfl rfl fun _ d hd => ⟨msg, List.mem_singleton.1 hd⟩
  simp only [if_neg (not_not.2 hp)]
  refine ⟨[(id, _)], rfl, ?_, by simpa using hp, List.nodup_singleton _, rfl, _, rfl, ?_,
    fun _ d hd => ⟨msg, List.mem_singleton.1 hd⟩⟩
  · simp
  · intro x hx result hresult
    rw [List.mem_singleton.1 hx] at hresult ⊢
    refine ⟨msg, List.mem_singleton_self _, hid, ?_⟩
    revert hresult
    rcases msg.get "error" with _ | error
    · exact Settled.resolve.inj
    · simp only
      split_ifs
      · intro h
        cases h
      · exact Settled.resolve.inj

variable (parse) in
theorem answers_handleLine (t : Transport ν) (line : List Char) :
    ∃ new, t.Answers new (handleLine parse t line) := by
  have hsame : t.Answers [] t := .none rfl rfl rfl (List.append_nil _).symm (by simp)
  unfold handleLine
  split_ifs
  · exact ⟨_, hsame⟩
  split
  · split
    · exact answers_handleResponse t ‹_›
    · unfold notify
      split_ifs with hm hc
      · exact ⟨_, .none rfl rfl rfl rfl fun hf => by simp [hf] at hc⟩
      · exact ⟨_, hsame⟩
      · exact ⟨_, hsame⟩
  · exact ⟨_, hsame⟩

variable (parse) in
theorem answers_foldl (lines : List (List Char)) (t : Transport ν) :
    ∃ new, t.Answers new (lines.foldl (handleLine parse) t) := by
  induction lines generalizing t with
  | nil => exact ⟨[], .none rfl rfl rfl (List.append_nil _).symm (by simp)⟩
  | cons line lines ih =>
    obtain ⟨new, h⟩ := answers_handleLine parse t line
    obtain ⟨new', h'⟩ := ih (handleLine parse t line)
    exact ⟨new ++ new', h.trans h'⟩

variable (parse) in
theorem answers_handleData (t : Transport ν) (data : List UInt8) :
    ∃ new, t.Answers new (handleData parse t data) := by
  obtain ⟨new, h⟩ := answers_foldl parse
    ((t.buffer ++ Utf8.decode data).splitOn '\n').dropLast t
  exact ⟨new, h.settled, h.pending, h.waited, h.nodup, h.callback, h.dispatched⟩

end Answers

end Transport

namespace NodeClient

open Transport (Tells)

/-- Whether a request has been made. -/
def Issued (c : NodeClient) (id : ℕ) : Prop := 1 ≤ id ∧ id < c.requestId

structure Inv (c : NodeClient) : Prop where
  timeouts : c.timeouts = c.transport.pending
  pending : ∀ x ∈ c.transport.pending, ∃ id, c.Issued id ∧ x = id
  settled : ∀ x ∈ c.transport.settled, ∃ id, c.Issued id ∧ x.1 = id
  writing : ∀ x ∈ c.writing, ∃ id, c.Issued id ∧ x = id
  waits : ∀ id : ℕ, c.Issued id →
    ((id : ℚ) ∈ c.transport.pending ↔ (id : ℚ) ∉ c.transport.settled.map Prod.fst)
  first : ∀ pre x post, c.transport.settled = pre ++ x :: post → (∃ result, x.2 = .resolve result) →
    x.1 ∉ pre.map Prod.fst
  tells : ∀ x ∈ c.transport.settled, Tells c.transport.dispatched x
  quiet : c.transport.notificationCallback = false
  responses : ∀ d ∈ c.transport.dispatched, ∃ msg, d = .response msg
  positive : 1 ≤ c.requestId

variable {c : NodeClient} {parse : List Char → Option (Json.Value ℚ)}

theorem inv_new : new.Inv := by
  refine ⟨rfl, ?_, ?_, ?_, fun id h => ?_, ?_, ?_, rfl, ?_, le_rfl⟩
  · simp [new, Transport.new]
  · simp [new, Transport.new]
  · simp [new]
  · obtain ⟨hle, hlt⟩ := h
    exact absurd hlt (not_lt.2 hle)
  · simp [new, Transport.new]
  · simp [new, Transport.new]
  · simp [new, Transport.new]

/-- A pending request has no entry yet. -/
theorem Inv.not_settled (h : c.Inv) {x : ℚ} (hx : x ∈ c.transport.pending) :
    x ∉ c.transport.settled.map Prod.fst := by
  obtain ⟨id, hid, rfl⟩ := h.pending x hx
  exact (h.waits id hid).1 hx

/-- Something happens to the promises of `more`, which leave the map with their timeouts. -/
theorem Inv.settle (h : c.Inv) {c' : NodeClient} (more : List (ℚ × Settled ℚ))
    (hr : c'.requestId = c.requestId) (hw : c'.writing ⊆ c.writing)
    (ht : c'.timeouts = c.timeouts.filter (· ∉ more.map Prod.fst))
    (hp : c'.transport.pending = c.transport.pending.filter (· ∉ more.map Prod.fst))
    (hs : c'.transport.settled = c.transport.settled ++ more)
    (hissued : ∀ x ∈ more, ∃ id, c.Issued id ∧ x.1 = id)
    (hfirst : ∀ pre x post, more = pre ++ x :: post → (∃ result, x.2 = .resolve result) →
      x.1 ∈ c.transport.pending ∧ x.1 ∉ pre.map Prod.fst)
    (hc : c'.transport.notificationCallback = c.transport.notificationCallback)
    {ds : List (Dispatched ℚ)} (hd : c'.transport.dispatched = c.transport.dispatched ++ ds)
    (htells : ∀ x ∈ more, Tells ds x) (hds : ∀ d ∈ ds, ∃ msg, d = .response msg) : c'.Inv := by
  have hissue : ∀ id, c'.Issued id ↔ c.Issued id := fun id => by rw [Issued, hr, Issued]
  refine ⟨?_, fun x hx => ?_, fun x hx => ?_, fun x hx => ?_, fun id hid => ?_,
    fun pre x post heq hres => ?_, fun x hx => ?_, hc.trans h.quiet, fun d hdm => ?_,
    hr.symm ▸ h.positive⟩
  · rw [ht, hp, h.timeouts]
  · rw [hp, List.mem_filter] at hx
    simpa only [hissue] using h.pending x hx.1
  · simp only [hissue]
    rw [hs, List.mem_append] at hx
    exact hx.elim (h.settled x) (hissued x)
  · simpa only [hissue] using h.writing x (hw hx)
  · rw [hp, hs, List.mem_filter, List.map_append, List.mem_append, not_or,
      h.waits id ((hissue id).1 hid)]
    simp only [decide_eq_true_eq]
  · rw [hs] at heq
    rcases List.append_eq_append_iff.1 heq with ⟨mid, hpre, hmore⟩ | ⟨mid, hold, hmid⟩
    · obtain ⟨hpend, hnot⟩ := hfirst mid x post hmore hres
      rw [hpre, List.map_append, List.mem_append, not_or]
      exact ⟨h.not_settled hpend, hnot⟩
    · rcases mid with _ | ⟨y, mid⟩
      · rw [List.append_nil] at hold
        obtain ⟨hpend, -⟩ := hfirst [] x post hmid.symm hres
        rw [← hold]
        exact h.not_settled hpend
      · obtain ⟨rfl, -⟩ := List.cons_eq_cons.1 hmid
        exact h.first pre x mid hold hres
  · rw [hd]
    rw [hs, List.mem_append] at hx
    rcases hx with hx | hx
    · exact (h.tells x hx).mono (List.subset_append_left _ _)
    · exact (htells x hx).mono (List.subset_append_right _ _)
  · rw [hd, List.mem_append] at hdm
    exact hdm.elim (h.responses d) (hds d)

theorem Inv.fail (h : c.Inv) {id : ℕ} (hid : c.Issued id) (message code : String) :
    (c.fail id (failure message code)).Inv := by
  refine h.settle [((id : ℚ), failure message code)] rfl (List.Subset.refl _) ?_ ?_ rfl ?_
    ?_ rfl (List.append_nil _).symm ?_ (by simp)
  · simp [NodeClient.fail]
  · simp [NodeClient.fail]
  · intro x hx
    exact ⟨id, hid, by rw [List.mem_singleton.1 hx]⟩
  · rintro pre x post heq ⟨result, hres⟩
    have hx : x ∈ [((id : ℚ), failure message code)] := by rw [heq]; simp
    rw [List.mem_singleton.1 hx] at hres
    cases hres
  · intro x hx result hres
    rw [List.mem_singleton.1 hx] at hres
    cases hres

theorem Inv.close (h : c.Inv) : c.close.Inv := by
  have hfst : (c.transport.pending.map fun id => (id, notConnected)).map Prod.fst =
      c.transport.pending := by simp [Function.comp_def]
  refine h.settle (c.transport.pending.map fun id => (id, notConnected)) rfl
    (List.Subset.refl _) ?_ ?_ rfl ?_ ?_ rfl (List.append_nil _).symm ?_ (by simp)
  · rw [hfst]
    rfl
  · rw [hfst]
    simp [NodeClient.close]
  · intro x hx
    obtain ⟨id, hid, rfl⟩ := List.mem_map.1 hx
    exact h.pending id hid
  · rintro pre x post heq ⟨result, hres⟩
    have hx : x ∈ c.transport.pending.map fun id => (id, notConnected) := by rw [heq]; simp
    obtain ⟨id, -, rfl⟩ := List.mem_map.1 hx
    cases hres
  · intro x hx result hres
    obtain ⟨id, -, rfl⟩ := List.mem_map.1 hx
    cases hres

theorem Inv.request (h : c.Inv) (method : String) (params : Option (Json.Value ℚ)) :
    (c.request method params).Inv := by
  unfold NodeClient.request
  split_ifs
  swap
  · exact h
  have hmono : ∀ {x : ℚ}, (∃ id, c.Issued id ∧ x = id) →
      ∃ id, (1 ≤ id ∧ id < c.requestId + 1) ∧ x = id := by
    rintro x ⟨id, ⟨hle, hlt⟩, rfl⟩
    exact ⟨id, ⟨hle, hlt.trans (Nat.lt_succ_self _)⟩, rfl⟩
  have hpos : 1 ≤ c.requestId := h.positive
  have hfresh : (c.requestId : ℚ) ∉ c.transport.settled.map Prod.fst := by
    intro hmem
    obtain ⟨x, hx, heq⟩ := List.mem_map.1 hmem
    obtain ⟨id, ⟨-, hlt⟩, hid⟩ := h.settled x hx
    rw [hid] at heq
    exact absurd (Nat.cast_injective heq) hlt.ne
  refine ⟨?_, fun x hx => ?_, fun x hx => hmono (h.settled x hx), fun x hx => ?_, fun id hid => ?_,
    h.first, h.tells, h.quiet, h.responses, Nat.le_succ_of_le hpos⟩
  · simp only [h.timeouts]
  · rcases List.mem_append.1 hx with hx | hx
    · exact hmono (h.pending x hx)
    · exact ⟨c.requestId, ⟨hpos, Nat.lt_succ_self _⟩, List.mem_singleton.1 hx⟩
  · rcases List.mem_append.1 hx with hx | hx
    · exact hmono (h.writing x hx)
    · exact ⟨c.requestId, ⟨hpos, Nat.lt_succ_self _⟩, List.mem_singleton.1 hx⟩
  · obtain ⟨hle, hlt⟩ := hid
    rw [List.mem_append, List.mem_singleton, Nat.cast_inj]
    by_cases hnew : id = c.requestId
    · subst hnew
      simpa using hfresh
    · rw [h.waits id ⟨hle, by simp only at hlt; omega⟩]
      simp [hnew]

theorem Inv.data (h : c.Inv) (bytes : List UInt8) : (c.data parse bytes).Inv := by
  unfold NodeClient.data
  split_ifs
  swap
  · exact h
  obtain ⟨more, hm⟩ := Transport.answers_handleData parse c.transport bytes
  obtain ⟨ds, hd, htells, hds⟩ := hm.dispatched
  have hdrop : (c.transport.handleData parse bytes).settled.drop c.transport.settled.length =
      more := by
    rw [hm.settled, List.drop_left]
  refine h.settle more rfl (List.Subset.refl _) (by simp only [hdrop]) hm.pending hm.settled
    (fun x hx => h.pending x.1 (hm.waited x hx)) ?_ hm.callback hd htells (hds h.quiet)
  rintro pre x post rfl -
  refine ⟨hm.waited x (by simp), fun hx => ?_⟩
  have := hm.nodup
  rw [List.map_append, List.map_cons, List.nodup_append] at this
  exact this.2.2 _ hx _ List.mem_cons_self rfl

theorem Inv.step (h : c.Inv) (act : Action) : (c.step parse act).Inv := by
  cases act with
  | connect =>
    exact ⟨h.timeouts, h.pending, h.settled, h.writing, h.waits, h.first, h.tells, h.quiet,
      h.responses, h.positive⟩
  | close => exact h.close
  | request method params => exact h.request method params
  | timeout id =>
    simp only [NodeClient.step, NodeClient.timeout]
    split_ifs with hid
    · rw [h.timeouts] at hid
      obtain ⟨id', hissued, heq⟩ := h.pending _ hid
      obtain rfl : id = id' := Nat.cast_injective heq
      exact h.fail hissued _ _
    · exact h
  | wrote id error =>
    simp only [NodeClient.step, NodeClient.wrote]
    split_ifs with hid
    · obtain ⟨id', hissued, heq⟩ := h.writing _ hid
      obtain rfl : id = id' := Nat.cast_injective heq
      have hw : ({ c with writing := c.writing.filter (· ≠ (id : ℚ)) } : NodeClient).Inv :=
        ⟨h.timeouts, h.pending, h.settled, fun x hx => h.writing x (List.mem_of_mem_filter hx),
          h.waits, h.first, h.tells, h.quiet, h.responses, h.positive⟩
      rcases error with _ | error
      · exact hw
      · exact hw.fail hissued _ _
    · exact h
  | data bytes => exact h.data bytes

theorem inv_after (parse : List Char → Option (Json.Value ℚ)) (acts : List Action) :
    (Run.after (step parse) new acts).Inv := by
  induction acts using List.reverseRecOn with
  | nil => exact inv_new
  | append_singleton acts act ih =>
    rw [Run.after_snoc]
    exact ih.step act

def agentsText : MessageText where
  text := "\x7b\"jsonrpc\":\"2.0\",\"result\":[],\"id\":2\x7d".toList
  oneLine := by decide +kernel
  notBlank := by decide +kernel

/-- The first request times out before the second is answered. -/
def asked : List Action := [.connect, .request "query_tree" none, .request "query_agents" none,
  .timeout 1]

/-- The answer comes in one chunk. -/
def answered : List Action := asked ++ [.data (sentBytes [agentsText])]

end NodeClient

end AmbientFs
