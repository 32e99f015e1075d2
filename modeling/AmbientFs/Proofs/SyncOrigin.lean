import AmbientFs.Proofs.SyncDelivery

/-!
# Where records come from

Every row of a store is one of the store's machine, so as long as no run stores anything the
machine of a row is the one that generated its event. The first event that a run stores is one of
another machine and gets the machine of the daemon that asked.
-/

namespace AmbientFs

/-! ## The check on clock times -/

namespace DateTime

/-- A time a clock can show. -/
def OnClock (t : DateTime) : Prop := 0 ≤ t.nanos ∧ t.FourDigitYear

theorem OnClock.trunc {t : DateTime} (h : t.OnClock) : t.trunc.OnClock :=
  ⟨trunc_nanos_nonneg h.1, h.2.trunc⟩

/-- A second before is in range. -/
theorem OnClock.second_before {t : DateTime} (h : t.OnClock) :
    ∃ since, ofNanos (t.nanos - nanosPerSec) = some since ∧ since.FourDigitYear ∧
      since.nanos ≤ t.nanos := by
  have hrange : minSecs * nanosPerSec ≤ t.nanos - nanosPerSec ∧
      t.nanos - nanosPerSec < (maxSecs + 1) * nanosPerSec := by
    have h0 := h.1
    have := t.inRange
    unfold minSecs maxSecs nanosPerSec at *
    omega
  refine ⟨⟨t.nanos - nanosPerSec, hrange⟩, dif_pos hrange, ?_, ?_⟩
  · obtain ⟨h0, hy⟩ := h
    rw [fourDigitYear_iff] at hy ⊢
    unfold timestamp nanosPerSec at *
    dsimp only
    omega
  · unfold nanosPerSec
    dsimp only
    omega

end DateTime

theorem Clock.onClock (c : Clock) : c.time.OnClock := ⟨c.afterEpoch, c.fourDigitYear⟩

/-- Among rows that are read back the check finds an event if there is a row for it. -/
theorem SyncManager.eventExists_of_holds {planner : Planner} {m : SyncManager} {e : FileEvent}
    (hread : m.store.Readable) (ht : e.timestamp.OnClock) (h : m.store.Holds e) :
    m.eventExists planner e = true := by
  obtain ⟨since, hsince, hyear, hle⟩ := ht.second_before
  obtain ⟨row, hrow, hproject, hpath, hmachine, htext⟩ := h
  obtain ⟨e', he'⟩ := hread row hrow
  obtain ⟨hrow', hy'⟩ := EventStore.eq_toRow hrow he'
  have htime : e'.timestamp = e.timestamp := by
    rw [hrow'] at htext
    exact DateTime.toRfc3339_injective hy' ht.2 htext
  have hpath' : e'.filePath = e.filePath := by
    rw [hrow'] at hpath
    exact hpath
  have hmachine' : e'.machineId = e.machineId := by
    rw [hrow'] at hmachine
    exact hmachine
  unfold eventExists
  rw [hsince]
  dsimp only
  obtain ⟨es, hes, hmem⟩ := hread.query planner
    (f := { projectId := e.projectId, filePath := e.filePath, since := since }) rfl
  rw [hes]
  refine List.any_eq_true.2 ⟨e', (hmem e').2 ⟨row, hrow, ?_, he'⟩, ?_⟩
  · unfold EventFilter.matches
    simp only [Bool.and_eq_true, Option.all_some, decide_eq_true_eq, Option.all_none, and_true]
    refine ⟨⟨hproject, hpath⟩, ?_⟩
    rw [htext]
    exact (DateTime.toRfc3339_le_iff hyear ht.2).2 hle
  · exact decide_eq_true ⟨htime, hpath', hmachine'⟩

namespace SyncAudit

variable (planner : Planner) (host : String → Option String)

/-- A run that ends has only read messages that were the daemon's own or had a row in its store
already. -/
def Silent (s : SyncAudit) : SyncAction → Prop
  | .finish a _ => (s.net a).ending.isSome → ∀ ρ ∈ s.log a, ρ.held = true
  | _ => True

/-- Every row is of its own machine, with a time on the clock. -/
structure Ranged (s : SyncAudit) : Prop where
  sound : Sound host s
  rows : ∀ a, ∀ row ∈ (s.net a).store.rows,
    ∃ e : FileEvent, row = e.toRow row.id ∧ e.machineId = a ∧ e.timestamp.OnClock

/-- Origins are still the rows themselves, and a run has something to store only if it read
something that was not held. -/
structure OwnRows (s : SyncAudit) : Prop extends Ranged host s where
  own : ∀ a, ∀ row ∈ (s.net a).store.rows, s.origin a row.id = (a, row.id)
  foreign : ∀ b, ∀ ρ ∈ s.log b, ρ.held = false → ρ.sent.message.machineId ≠ b
  batch : ∀ b r, (s.net b).round = some r → r.newEvents ≠ [] → ∃ ρ ∈ s.log b, ρ.held = false

variable {planner host} {s : SyncAudit} {b : String} {act : SyncAction}

theorem Ranged.readable (h : s.Ranged host) (a : String) : (s.net a).store.Readable := by
  intro row hrow
  obtain ⟨e, he, -, ht⟩ := h.rows a row hrow
  rw [he]
  exact ⟨e, FileEvent.toEvent_toRow ht.2 _⟩

/-- A message has the machine it came from, and what is made of it has a time on the clock. -/
theorem Ranged.message (h : s.Ranged host) {server : String} {x : Sent}
    (hx : s.net.MadeFrom server x) : x.message.machineId = server ∧
      ∀ machineId e, messageToFileEvent x.message machineId = some e →
        e.timestamp.OnClock ∧ e.machineId = machineId := by
  obtain ⟨row, hrow, -, e, he, hm⟩ := hx
  obtain ⟨e', he', hm', ht'⟩ := h.rows server row hrow
  rw [he'] at he
  obtain ⟨rfl, -⟩ := FileEvent.eq_of_toEvent_toRow he
  refine ⟨by rw [hm]; exact hm', fun machineId e hconv => ?_⟩
  rw [hm, messageToFileEvent_fileEventToMessage] at hconv
  cases hconv
  exact ⟨ht'.trunc, rfl⟩

theorem ranged_start (peers : String → List PeerConfig) :
    (start (fun _ => .new) peers).Ranged host :=
  ⟨sound_start _ peers, fun _ _ h => (nomatch h)⟩

theorem Ranged.step (h : s.Ranged host) (act : SyncAction) :
    (s.step planner host act).Ranged host := by
  refine ⟨h.sound.step act, fun b row hrow => ?_⟩
  rcases Network.rows_cases act hrow with hrow | ⟨now, e, -, rfl⟩ |
    ⟨now, r, -, hend, y, hy, hrow, -⟩
  · exact h.rows b row hrow
  · exact ⟨_, rfl, rfl, now.onClock⟩
  · obtain ⟨x, -, hmade, -, hconv⟩ :=
      (h.sound.run b r (SyncManager.ending_eq_some hend).1).batch y hy
    obtain ⟨ht, hm⟩ := (h.message hmade).2 b y.2 hconv
    exact ⟨y.2, hrow, hm, ht⟩

theorem nextOrigin_of_quiet (h : s.net.Quiet planner host b act) :
    s.nextOrigin act b = s.origin b := by
  unfold nextOrigin
  cases act with
  | record a now e => exact Function.update_of_ne (Ne.symm h) ..
  | finish a now =>
    dsimp only
    rcases hr : (s.net a).ending with _ | r
    · rfl
    · have hne : b ≠ a := fun he => by
        rw [h he.symm] at hr
        cases hr
      exact Function.update_of_ne hne ..
  | _ => rfl

theorem nextOrigin_of_empty {a : String} {now : Clock} {r : SyncRound}
    (hend : (s.net a).ending = some r) (hempty : r.newEvents = []) :
    s.nextOrigin (.finish a now) = s.origin := by
  unfold nextOrigin
  simp only [hend, hempty, List.getElem?_nil]
  exact Function.update_eq_self a s.origin

theorem OwnRows.own_step (h : s.OwnRows host) (hs : s.Silent act) {row : Row}
    (hrow : row ∈ ((s.step planner host act).net b).store.rows) :
    s.nextOrigin act b row.id = (b, row.id) := by
  have hc := Network.step_change planner host s.net b act
  have hnet : (s.step planner host act).net b = s.net.step planner host act b := rfl
  rw [hnet] at hrow
  generalize s.net.step planner host act b = m at hc hrow
  cases hc with
  | quiet hq hstore =>
    rw [hstore] at hrow
    rw [nextOrigin_of_quiet hq]
    exact h.own b row hrow
  | stream hq hstore =>
    rw [hstore] at hrow
    rw [nextOrigin_of_quiet hq]
    exact h.own b row hrow
  | @recorded now e =>
    have horigin : s.nextOrigin (.record b now e) b =
        Function.update (s.origin b) ((s.net b).store.lastId + 1)
          (b, (s.net b).store.lastId + 1) := Function.update_self ..
    rw [horigin]
    rcases EventStore.mem_insert.1 hrow with hrow | rfl
    · have hne : row.id ≠ (s.net b).store.lastId + 1 := by
        have := (s.net b).store.id_le row hrow
        omega
      rw [Function.update_of_ne hne]
      exact h.own b row hrow
    · exact Function.update_self ..
  | @finished r now hend =>
    have hempty : r.newEvents = [] := by
      by_contra hne
      obtain ⟨ρ, hρ, hf⟩ := h.batch b r (SyncManager.ending_eq_some hend).1 hne
      rw [hs (by rw [hend]; rfl) ρ hρ] at hf
      cases hf
    rw [Network.finish_of_ending hend, hempty] at hrow
    rw [nextOrigin_of_empty hend hempty]
    exact h.own b row hrow
  | _ => exact h.own b row hrow

theorem OwnRows.receipt_held (h : s.OwnRows host) {x : Sent} {r : SyncRound}
    (hx : s.net.MadeFrom r.server x) {e : FileEvent}
    (he : messageToFileEvent x.message b = some e) (hne : x.message.machineId ≠ b)
    (hex : (s.net b).eventExists planner e = false) : (s.receipt b x).held = false := by
  refine decide_eq_false ?_
  rintro (hown | ⟨e', he', hholds⟩)
  · exact hne hown
  · rw [he] at he'
    cases he'
    have ht := ((h.message hx).2 b e he).1
    rw [SyncManager.eventExists_of_holds (h.readable b) ht hholds] at hex
    cases hex

theorem OwnRows.foreign_step (h : s.OwnRows host) {ρ : Receipt}
    (hρ : ρ ∈ s.nextLog planner host act b) (hf : ρ.held = false) :
    ρ.sent.message.machineId ≠ b := by
  have hc := Network.step_change planner host s.net b act
  generalize s.net.step planner host act b = m at hc
  cases hc with
  | quiet hq =>
    rw [nextLog_of_quiet hq] at hρ
    exact h.foreign b ρ hρ hf
  | stream hq =>
    rw [nextLog_of_quiet hq] at hρ
    exact h.foreign b ρ hρ hf
  | started hreq =>
    rw [nextLog_of_request hreq] at hρ
    cases hρ
  | @read r x hread =>
    rw [nextLog_of_reading hread] at hρ
    rcases List.mem_append.1 hρ with hρ | hρ
    · exact h.foreign b ρ hρ hf
    · rw [List.mem_singleton.1 hρ] at hf ⊢
      exact fun hown => of_decide_eq_false hf (.inl hown)
  | _ => exact h.foreign b ρ hρ hf

theorem OwnRows.batch_step (h : s.OwnRows host) {r : SyncRound}
    (hr : ((s.step planner host act).net b).round = some r) (hne : r.newEvents ≠ []) :
    ∃ ρ ∈ s.nextLog planner host act b, ρ.held = false := by
  have hc := Network.step_change planner host s.net b act
  have hnet : (s.step planner host act).net b = s.net.step planner host act b := rfl
  rw [hnet] at hr
  generalize s.net.step planner host act b = m at hc hr
  cases hc with
  | quiet hq _ _ _ hround =>
    rw [nextLog_of_quiet hq]
    exact h.batch b r (hround ▸ hr) hne
  | stream hq _ _ _ hround hround' =>
    rw [hround'] at hr
    cases hr
    rw [nextLog_of_quiet hq]
    exact h.batch b _ hround hne
  | failed hround =>
    cases hr
    exact h.batch b _ hround hne
  | recorded => exact h.batch b r hr hne
  | started hreq =>
    cases hr
    obtain ⟨-, -, server, since, history, -, rfl, -⟩ := Network.request_eq_some hreq
    exact absurd rfl hne
  | @read r' x hread =>
    cases hr
    rw [nextLog_of_reading hread]
    obtain ⟨r₀, queue, hround, hrun, -, hq, rfl⟩ := SyncManager.reading_eq_some hread
    have hold : r₀.newEvents ≠ [] → ∃ ρ ∈ s.log b ++ [s.receipt b x], ρ.held = false := by
      intro hne
      obtain ⟨ρ, hρ, hf⟩ := h.batch b r₀ hround hne
      exact ⟨ρ, List.mem_append_left _ hρ, hf⟩
    have hmade : s.net.MadeFrom r₀.server x :=
      (h.sound.run b r₀ hround).pending x (by rw [hq]; exact List.mem_cons_self)
    rcases (s.net b).take_cases planner b (SyncManager.read r₀ x queue) x with
      ⟨-, heq⟩ | ⟨-, -, heq⟩ | ⟨e, hown, he, ⟨-, heq⟩ | ⟨hex, -⟩⟩
    · rw [heq] at hne
      exact hold hne
    · rw [heq] at hne
      exact hold hne
    · rw [heq] at hne
      exact hold hne
    · exact ⟨s.receipt b x, List.mem_append_right _ List.mem_cons_self,
        h.receipt_held hmade he hown hex⟩
  | finished hend =>
    rw [Network.finish_of_ending hend] at hr
    cases hr
    exact h.batch b _ (SyncManager.ending_eq_some hend).1 hne

theorem OwnRows.step (h : s.OwnRows host) (hs : s.Silent act) :
    (s.step planner host act).OwnRows host :=
  ⟨h.toRanged.step act, fun _ _ => h.own_step hs, fun _ _ => h.foreign_step,
    fun _ _ => h.batch_step⟩

end SyncAudit

end AmbientFs
