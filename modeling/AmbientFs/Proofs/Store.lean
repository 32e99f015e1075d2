import AmbientFs.Store
import AmbientFs.Proofs.Rfc3339

/-!
# What the store finds

Rows are read back as the events they were written for, if the year has four digits, and a query
returns the rows that match.
-/

namespace AmbientFs

open Decimal Gregorian

namespace DateTime

/-- The first second of year 0 and the last of year 9999. -/
theorem fourDigitYear_iff (t : DateTime) :
    t.FourDigitYear ↔ -62167219200 ≤ t.timestamp ∧ t.timestamp ≤ 253402300799 := by
  have hc0 := Int.emod_nonneg (t.timestamp / 86400 + epochDay) (show daysPerCycle ≠ 0 by decide)
  have hc := Int.emod_lt_of_pos (t.timestamp / 86400 + epochDay) (show 0 < daysPerCycle by decide)
  obtain ⟨ho, hyear, hnext⟩ := cycleToYearOrdinal_spec hc0 hc
  have hy : t.date.year = 400 * ((t.timestamp / 86400 + epochDay) / daysPerCycle) +
    (cycleToYearOrdinal ((t.timestamp / 86400 + epochDay) % daysPerCycle)).1 := rfl
  unfold FourDigitYear
  rw [hy]
  unfold daysBeforeYear leapsBefore at hyear hnext
  unfold daysPerCycle epochDay at *
  omega

theorem timestamp_trunc (t : DateTime) : t.trunc.timestamp = t.timestamp := by
  unfold trunc timestamp nanosPerSec
  dsimp only
  omega

theorem FourDigitYear.trunc {t : DateTime} (h : t.FourDigitYear) : t.trunc.FourDigitYear := by
  rw [fourDigitYear_iff] at *
  rwa [timestamp_trunc]

theorem trunc_nanos_nonneg {t : DateTime} (h : 0 ≤ t.nanos) : 0 ≤ t.trunc.nanos := by
  unfold trunc timestamp nanosPerSec
  dsimp only
  omega

/-- Other years are not read back. -/
theorem parseFromRfc3339_of_not {t : DateTime} (h : ¬ t.FourDigitYear) :
    parseFromRfc3339 t.toRfc3339 = none := by
  have hsign : ∀ c : Char, digitVal c = none → ∀ s, field 4 (· = '-') (c :: s) = none := by
    intro c hc s
    unfold field
    rw [number, hc]
  unfold parseFromRfc3339 toRfc3339 rfc3339Text yearText
  rw [if_neg (show ¬ (0 ≤ t.date.year ∧ t.date.year ≤ 9999) from h), List.cons_append]
  rw [hsign _ (by split_ifs <;> decide)]
  rfl

end DateTime

/-! ## Rows -/

theorem FileEvent.toEvent_toRow {e : FileEvent} (h : e.timestamp.FourDigitYear) (id : ℕ) :
    (e.toRow id).toEvent = .ok e := by
  unfold Row.toEvent FileEvent.toRow
  simp only [DateTime.parseFromRfc3339_toRfc3339 h, EventType.fromStr_asStr,
    Source.fromStr_asStr]

theorem FileEvent.eq_of_toEvent_toRow {e e' : FileEvent} {id : ℕ}
    (h : (e.toRow id).toEvent = .ok e') : e' = e ∧ e.timestamp.FourDigitYear := by
  by_cases hy : e.timestamp.FourDigitYear
  · rw [FileEvent.toEvent_toRow hy] at h
    exact ⟨(Except.ok.inj h).symm, hy⟩
  · unfold Row.toEvent FileEvent.toRow at h
    simp only [DateTime.parseFromRfc3339_of_not hy] at h
    cases h

namespace EventStore

variable {planner : Planner} {s : EventStore} {f : EventFilter}

theorem eq_toRow {r : Row} (hr : r ∈ s.rows) {e : FileEvent} (he : r.toEvent = .ok e) :
    r = e.toRow r.id ∧ e.timestamp.FourDigitYear := by
  obtain ⟨e', he'⟩ := s.written r hr
  rw [he'] at he
  obtain ⟨rfl, hy⟩ := FileEvent.eq_of_toEvent_toRow he
  exact ⟨he', hy⟩

theorem eq_of_id {r r' : Row} (hr : r ∈ s.rows) (hr' : r' ∈ s.rows) (h : r.id = r'.id) : r = r' :=
  List.inj_on_of_nodup_map s.nodup hr hr' h

/-! ## Insertion -/

theorem mem_insert {e : FileEvent} {r : Row} :
    r ∈ (s.insert e).rows ↔ r ∈ s.rows ∨ r = e.toRow (s.lastId + 1) := by
  show r ∈ s.rows ++ [_] ↔ _
  rw [List.mem_append, List.mem_singleton]

/-- A row that is the event's own. -/
def Has (s : EventStore) (e : FileEvent) : Prop := ∃ r ∈ s.rows, r = e.toRow r.id

theorem Has.insert {e : FileEvent} (h : s.Has e) (e' : FileEvent) : (s.insert e').Has e := by
  obtain ⟨r, hr, heq⟩ := h
  exact ⟨r, List.mem_append_left _ hr, heq⟩

theorem has_insert (s : EventStore) (e : FileEvent) : (s.insert e).Has e :=
  ⟨_, List.mem_append_right _ List.mem_cons_self, rfl⟩

/-- The rows of a batch come after those there are, one for each event, with the next ids. -/
theorem rows_insertBatch (es : List FileEvent) (s : EventStore) :
    (s.insertBatch es).rows = s.rows ++ es.mapIdx (fun i e => e.toRow (s.lastId + 1 + i)) ∧
    (s.insertBatch es).lastId = s.lastId + es.length := by
  induction es generalizing s with
  | nil => exact ⟨(List.append_nil _).symm, rfl⟩
  | cons e es ih =>
    obtain ⟨hrows, hid⟩ := ih (s.insert e)
    refine ⟨?_, ?_⟩
    · show ((s.insert e).insertBatch es).rows = _
      rw [hrows, List.mapIdx_cons]
      show (s.rows ++ [_]) ++ _ = _
      have hshift : es.mapIdx (fun i e => e.toRow (s.lastId + 1 + 1 + i)) =
          es.mapIdx fun i e => e.toRow (s.lastId + 1 + (i + 1)) := by
        congr 1
        funext i e
        rw [show s.lastId + 1 + 1 + i = s.lastId + 1 + (i + 1) by omega]
      rw [List.append_assoc, ← hshift]
      rfl
    · show ((s.insert e).insertBatch es).lastId = _
      rw [hid]
      show s.lastId + 1 + es.length = _
      rw [List.length_cons]
      omega

theorem mem_insertBatch_of_mem {es : List FileEvent} {r : Row} (hr : r ∈ s.rows) :
    r ∈ (s.insertBatch es).rows := by
  rw [(rows_insertBatch es s).1]
  exact List.mem_append_left _ hr

theorem mem_insertBatch {es : List FileEvent} {r : Row} (hr : r ∈ (s.insertBatch es).rows) :
    r ∈ s.rows ∨ ∃ i, ∃ h : i < es.length, r = (es.get ⟨i, h⟩).toRow (s.lastId + 1 + i) := by
  rw [(rows_insertBatch es s).1, List.mem_append, List.mem_mapIdx] at hr
  rcases hr with hr | ⟨i, h, rfl⟩
  · exact .inl hr
  · exact .inr ⟨i, h, rfl⟩

theorem exists_mem_insertBatch {es : List FileEvent} {i : ℕ} (h : i < es.length) :
    (es.get ⟨i, h⟩).toRow (s.lastId + 1 + i) ∈ (s.insertBatch es).rows := by
  rw [(rows_insertBatch es s).1]
  exact List.mem_append_right _ (List.mem_mapIdx.2 ⟨i, h, rfl⟩)

/-! ## Queries -/

theorem mem_select_of_no_limit (hl : f.limit = none) {r : Row} :
    r ∈ s.select planner f ↔ r ∈ s.rows ∧ f.matches r = true := by
  unfold select
  simp only [hl]
  rw [List.mem_insertionSort, (planner.perm f _).mem_iff, List.mem_filter]

end EventStore

section MapM

variable {α β ε : Type*} {g : α → Except ε β} {l : List α} {l' : List β}

/-- A list goes through if all that is in it does. -/
theorem mapM_eq_ok : l.mapM g = .ok l' ↔
    (∀ x ∈ l, (g x).toOption.isSome) ∧ l' = l.filterMap fun x => (g x).toOption := by
  induction l generalizing l' with
  | nil => simp [pure, Except.pure]
  | cons x l ih =>
    rw [List.mapM_cons, List.forall_mem_cons, List.filterMap_cons]
    rcases hx : g x with e | y
    · simp [bind, Except.bind, Except.toOption]
    · rcases hl : l.mapM g with e | ys
      · have hall : ¬ ∀ x ∈ l, (g x).toOption.isSome := by
          intro h
          rw [ih.2 ⟨h, rfl⟩] at hl
          cases hl
        simp [bind, Except.bind, hall]
      · obtain ⟨hall, rfl⟩ := ih.1 hl
        have hy : (Except.ok y : Except ε β).toOption = some y := rfl
        simp only [hy, Option.isSome_some, true_and, bind, Except.bind, pure, Except.pure,
          Except.ok.injEq]
        exact ⟨fun h => ⟨hall, h.symm⟩, fun h => h.2.symm⟩

/-- What comes out of a list that goes through without an error. -/
theorem mem_of_mapM_ok (h : l.mapM g = .ok l') {y : β} : y ∈ l' ↔ ∃ x ∈ l, g x = .ok y := by
  have htoOption : ∀ x, (g x).toOption = some y ↔ g x = .ok y := by
    intro x
    rcases g x with e | y' <;> simp [Except.toOption]
  rw [(mapM_eq_ok.1 h).2, List.mem_filterMap]
  simp only [htoOption]

theorem exists_mapM_ok (h : ∀ x ∈ l, ∃ y, g x = .ok y) : ∃ l', l.mapM g = .ok l' := by
  refine ⟨_, mapM_eq_ok.2 ⟨fun x hx => ?_, rfl⟩⟩
  obtain ⟨y, hy⟩ := h x hx
  rw [hy]
  rfl

end MapM

namespace EventStore

variable {planner : Planner} {s : EventStore} {f : EventFilter}

/-- The events a query returns were all written to rows that match. -/
theorem mem_of_query (hl : f.limit = none) {es : List FileEvent}
    (h : s.query planner f = .ok es) {e : FileEvent} (he : e ∈ es) :
    ∃ r ∈ s.rows, f.matches r = true ∧ r = e.toRow r.id ∧ e.timestamp.FourDigitYear := by
  obtain ⟨r, hr, hre⟩ := (mem_of_mapM_ok h).1 he
  obtain ⟨hr, hm⟩ := (mem_select_of_no_limit hl).1 hr
  obtain ⟨hrow, hy⟩ := eq_toRow hr hre
  exact ⟨r, hr, hm, hrow, hy⟩

/-- Every row is read back. -/
def Readable (s : EventStore) : Prop := ∀ r ∈ s.rows, ∃ e, r.toEvent = .ok e

variable (planner) in
theorem Readable.query (h : s.Readable) (hl : f.limit = none) :
    ∃ es, s.query planner f = .ok es ∧
      ∀ e, e ∈ es ↔ ∃ r ∈ s.rows, f.matches r = true ∧ r.toEvent = .ok e := by
  obtain ⟨es, hes⟩ := exists_mapM_ok (g := Row.toEvent) (l := s.select planner f) fun r hr =>
    h r ((mem_select_of_no_limit hl).1 hr).1
  refine ⟨es, hes, fun e => ?_⟩
  rw [mem_of_mapM_ok hes]
  constructor
  · rintro ⟨r, hr, he⟩
    obtain ⟨hr, hm⟩ := (mem_select_of_no_limit hl).1 hr
    exact ⟨r, hr, hm, he⟩
  · rintro ⟨r, hr, hm, he⟩
    exact ⟨r, (mem_select_of_no_limit hl).2 ⟨hr, hm⟩, he⟩

end EventStore

end AmbientFs
