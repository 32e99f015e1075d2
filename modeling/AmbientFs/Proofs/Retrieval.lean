import AmbientFs.Query
import AmbientFs.Proofs.Database
import AmbientFs.Proofs.Store

/-!
# What a query returns

An instant whose year does not have four digits is stored as a text that is not read back, and is
less than the texts that are. A query that reaches such a row fails.
-/

namespace AmbientFs

open Decimal

namespace DateTime

/-- What is not read back comes before what is. -/
theorem toRfc3339_lt_of_not {t t' : DateTime} (h : ¬ t.FourDigitYear) (h' : t'.FourDigitYear) :
    t.toRfc3339 < t'.toRfc3339 := by
  unfold FourDigitYear at h h'
  unfold toRfc3339 rfc3339Text yearText
  rw [if_neg h, if_pos h', List.cons_append]
  split_ifs
  · exact cons_lt_padded (by decide) (by omega) _ _
  · exact cons_lt_padded (by decide) (by omega) _ _

/-- The texts compare as the instants do, but for an instant after all that are read back. -/
theorem toRfc3339_le_iff_of_year (t : DateTime) {t' : DateTime} (h : t'.FourDigitYear) :
    t.toRfc3339 ≤ t'.toRfc3339 ↔ 253402300799 < t.timestamp ∨ t.nanos ≤ t'.nanos := by
  have hyear := (fourDigitYear_iff t').1 h
  by_cases ht : t.FourDigitYear
  · rw [toRfc3339_le_iff ht h]
    have hlast := ((fourDigitYear_iff t).1 ht).2
    exact (or_iff_right (not_lt.2 hlast)).symm
  · refine iff_of_true (toRfc3339_lt_of_not ht h).le ?_
    rw [fourDigitYear_iff] at ht
    unfold timestamp nanosPerSec at *
    omega

end DateTime

/-! ## Lists -/

section Lists

variable {α : Type}

/-- If what has a property comes first, the first so many all have it if so many have it. -/
theorem forall_take_iff {p : α → Bool} {l : List α} (h : l.Pairwise fun a b => p b → p a) (n : ℕ) :
    (∀ a ∈ l.take n, p a) ↔ n ≤ (l.filter p).length ∨ ∀ a ∈ l, p a := by
  induction l generalizing n with
  | nil => simp
  | cons a l ih =>
    rw [List.pairwise_cons] at h
    cases n with
    | zero => simp
    | succ n =>
      by_cases ha : p a
      · simp [ha, ih h.2 n]
      · have hnone : l.filter p = [] := by
          rw [List.filter_eq_nil_iff]
          exact fun b hb hpb => ha (h.1 b hb hpb)
        simp [ha, hnone]

/-- A list up to a limit. -/
def upTo : Option ℕ → List α → List α
  | none, l => l
  | some n, l => l.take n

/-- A number up to a limit. -/
def capped : Option ℕ → ℕ → ℕ
  | none, m => m
  | some n, m => min n m

@[simp] theorem length_upTo (limit : Option ℕ) (l : List α) :
    (upTo limit l).length = capped limit l.length := by
  cases limit <;> simp [upTo, capped]

theorem upTo_sublist (limit : Option ℕ) (l : List α) : (upTo limit l).Sublist l := by
  cases limit with
  | none => exact List.Sublist.refl l
  | some n => exact List.take_sublist n l

theorem forall_upTo_iff {p : α → Bool} {l : List α} (h : l.Pairwise fun a b => p b → p a)
    (limit : Option ℕ) : (∀ a ∈ upTo limit l, p a) ↔
      (∀ a ∈ l, p a) ∨ ∃ n ∈ limit, n ≤ (l.filter p).length := by
  cases limit with
  | none => simp [upTo]
  | some n => simpa [upTo, or_comm] using forall_take_iff h n

end Lists

namespace EventFilter

variable (f : EventFilter)

/-- The query's own comparison, of instants by their text. -/
def MatchesText (e : FileEvent) : Bool := f.matches (e.toRow 0)

/-- What the filter asks for, with instants in the order of time. -/
def Wants (e : FileEvent) : Bool :=
  f.projectId.all (e.projectId = ·) && f.filePath.all (e.filePath = ·) &&
    f.source.all (e.source = ·) && f.since.all (·.nanos ≤ e.timestamp.nanos)

variable {f} {e : FileEvent}

theorem matchesText_eq : f.MatchesText e = (f.projectId.all (e.projectId = ·) &&
    f.filePath.all (e.filePath = ·) && f.source.all (e.source = ·) &&
      f.since.all (·.toRfc3339 ≤ e.timestamp.toRfc3339)) := by
  have hsource : ∀ source : Source, e.source.asStr = source.asStr ↔ e.source = source := by
    intro source
    refine ⟨fun h => ?_, fun h => h ▸ rfl⟩
    have hparse := Source.fromStr_asStr e.source
    rw [h, Source.fromStr_asStr] at hparse
    exact (Except.ok.inj hparse).symm
  simp only [MatchesText, EventFilter.matches, FileEvent.toRow, hsource]
  rfl

/-- For an event that is read back the texts compare as the instants do, unless the filter's instant
is after all that are. -/
theorem wants_eq_matchesText (hf : ∀ since ∈ f.since, since.timestamp ≤ 253402300799)
    (he : e.timestamp.FourDigitYear) : f.Wants e = f.MatchesText e := by
  rw [matchesText_eq, Wants]
  congr 1
  rcases hs : f.since with _ | since
  · rfl
  · rw [Option.all_some, Option.all_some, decide_eq_decide, since.toRfc3339_le_iff_of_year he,
      or_iff_right (not_lt.2 (hf since hs))]

theorem wants_eq_false {since : DateTime} (hf : f.since = some since)
    (hlate : 253402300799 < since.timestamp) (he : e.timestamp.FourDigitYear) :
    f.Wants e = false := by
  have hread := (DateTime.fourDigitYear_iff _).1 he
  have hlt : ¬ since.nanos ≤ e.timestamp.nanos := by
    unfold DateTime.timestamp nanosPerSec at *
    omega
  simp [Wants, hf, hlt]

end EventFilter

/-! ## The rows of some events -/

/-- What is read back from a row. -/
def Row.read (r : Row) : Option FileEvent := r.toEvent.toOption

theorem read_toRow (e : FileEvent) (id : ℕ) :
    (e.toRow id).read = if e.timestamp.FourDigitYear then some e else none := by
  split_ifs with h
  · rw [Row.read, FileEvent.toEvent_toRow h]
    rfl
  · simp [Row.read, Row.toEvent, FileEvent.toRow, DateTime.parseFromRfc3339_of_not h,
      Except.toOption]

/-- An event that is read back. -/
def FileEvent.readable (e : FileEvent) : Bool := e.timestamp.FourDigitYear

namespace EventStore

variable {s : EventStore} {p : Row → Bool} {q : FileEvent → Bool}

/-- The rows are written from the events, one from each. -/
def WrittenFrom (s : EventStore) (events : List FileEvent) : Prop :=
  List.Forall₂ (fun e r => r = e.toRow r.id) events s.rows

variable {events : List FileEvent}

theorem WrittenFrom.filter (h : s.WrittenFrom events) (hpq : ∀ e id, p (e.toRow id) = q e) :
    List.Forall₂ (fun e r => r = e.toRow r.id) (events.filter q) (s.rows.filter p) := by
  refine List.rel_filter (fun e r hr => ?_) h
  have heq : p r = q e := hr ▸ hpq e r.id
  simp [heq]

theorem WrittenFrom.length_filter (h : s.WrittenFrom events) (hpq : ∀ e id, p (e.toRow id) = q e) :
    (s.rows.filter p).length = (events.filter q).length :=
  (h.filter hpq).length_eq.symm

theorem read_rows {rows : List Row} (h : List.Forall₂ (fun e r => r = e.toRow r.id) events rows) :
    rows.filterMap Row.read = events.filter FileEvent.readable := by
  induction h with
  | nil => rfl
  | @cons e r events rows hr _ ih =>
    rw [List.filterMap_cons, List.filter_cons, hr, read_toRow, ih]
    by_cases hyear : e.timestamp.FourDigitYear <;> simp [hyear, FileEvent.readable]

theorem WrittenFrom.read_filter (h : s.WrittenFrom events) (hpq : ∀ e id, p (e.toRow id) = q e) :
    (s.rows.filter p).filterMap Row.read = events.filter fun e => q e && e.readable := by
  rw [read_rows (h.filter hpq), List.filter_filter]
  simp only [Bool.and_comm]

theorem WrittenFrom.insertBatch (h : s.WrittenFrom events) (es : List FileEvent) :
    (s.insertBatch es).WrittenFrom (events ++ es) := by
  induction es generalizing s events with
  | nil =>
    rw [List.append_nil]
    exact h
  | cons e es ih =>
    have hinsert : (s.insert e).WrittenFrom (events ++ [e]) :=
      List.rel_append h (.cons rfl .nil)
    have hrest := ih hinsert
    rw [← List.append_cons] at hrest
    exact hrest

/-- Every store is written from some events. -/
theorem exists_writtenFrom (s : EventStore) : ∃ events, s.WrittenFrom events := by
  have hrows : ∀ rows : List Row, (∀ r ∈ rows, ∃ e : FileEvent, r = e.toRow r.id) →
      ∃ events, List.Forall₂ (fun (e : FileEvent) r => r = e.toRow r.id) events rows := by
    intro rows hwritten
    induction rows with
    | nil => exact ⟨[], .nil⟩
    | cons r rows ih =>
      rw [List.forall_mem_cons] at hwritten
      obtain ⟨e, he⟩ := hwritten.1
      obtain ⟨events, hevents⟩ := ih hwritten.2
      exact ⟨e :: events, .cons he hevents⟩
  exact hrows s.rows s.written

/-- The store after some events have been inserted. -/
def of (events : List FileEvent) : EventStore := new.insertBatch events

theorem writtenFrom_of (events : List FileEvent) : (of events).WrittenFrom events := by
  have hnew : new.WrittenFrom [] := .nil
  exact hnew.insertBatch events

variable {planner : Planner} {f : EventFilter}

/-- The rows that match, in the order they are returned in without a limit. -/
def sorted (planner : Planner) (s : EventStore) (f : EventFilter) : List Row :=
  (planner.visit f (s.rows.filter f.matches)).insertionSort fun a b => b.timestamp ≤ a.timestamp

theorem select_eq_upTo : s.select planner f = upTo f.limit (s.sorted planner f) := by
  unfold select sorted
  cases f.limit <;> rfl

theorem sorted_perm : (s.sorted planner f).Perm (s.rows.filter f.matches) :=
  (List.perm_insertionSort _ _).trans (planner.perm f _)

theorem pairwise_timestamp : (s.sorted planner f).Pairwise fun a b =>
    b.timestamp ≤ a.timestamp := by
  have htotal : Std.Total fun a b : Row => b.timestamp ≤ a.timestamp :=
    ⟨fun a b => le_total b.timestamp a.timestamp⟩
  have htrans : IsTrans Row fun a b => b.timestamp ≤ a.timestamp :=
    ⟨fun a b c hab hbc => le_trans hbc hab⟩
  exact List.pairwise_insertionSort _ _

theorem written_of_mem_sorted {r : Row} (hr : r ∈ s.sorted planner f) :
    ∃ e : FileEvent, r = e.toRow r.id :=
  s.written r (List.mem_of_mem_filter (sorted_perm.mem_iff.1 hr))

variable (planner s f) in
/-- Rows that are read back come first. -/
theorem pairwise_sorted : (s.sorted planner f).Pairwise fun a b =>
    b.read.isSome → a.read.isSome := by
  refine pairwise_timestamp.imp_of_mem fun {a b} ha hb hle hread => ?_
  obtain ⟨e, he⟩ := written_of_mem_sorted ha
  obtain ⟨e', he'⟩ := written_of_mem_sorted hb
  rw [he, read_toRow]
  rw [he', read_toRow] at hread
  split_ifs at hread with hb'
  · split_ifs with ha'
    · rfl
    · have hlt := DateTime.toRfc3339_lt_of_not ha' hb'
      rw [he, he'] at hle
      exact absurd hlt (not_lt.2 hle)
  · cases hread

variable (planner f) in
theorem WrittenFrom.length_sorted (h : s.WrittenFrom events) :
    (s.sorted planner f).length = (events.filter f.MatchesText).length := by
  rw [sorted_perm.length_eq, h.length_filter (q := f.MatchesText) fun e id => rfl]

variable (planner f) in
theorem WrittenFrom.read_sorted (h : s.WrittenFrom events) :
    ((s.sorted planner f).filterMap Row.read).Perm
      (events.filter fun e => f.MatchesText e && e.readable) := by
  refine (sorted_perm.filterMap Row.read).trans ?_
  rw [h.read_filter (q := f.MatchesText) fun e id => rfl]

/-- All events of a kind are read back, or as many as the limit allows. -/
def Enough (events : List FileEvent) (kind : FileEvent → Bool) (limit : Option ℕ) : Prop :=
  (∀ e ∈ events, kind e → e.timestamp.FourDigitYear) ∨
    ∃ n ∈ limit, n ≤ (events.filter fun e => kind e && e.readable).length

theorem enough_iff {kind : FileEvent → Bool} {limit : Option ℕ} : Enough events kind limit ↔
    (events.filter fun e => kind e && e.readable).length = (events.filter kind).length ∨
      ∃ n ∈ limit, n ≤ (events.filter fun e => kind e && e.readable).length := by
  unfold Enough
  refine or_congr_left ?_
  have hfilter : (events.filter fun e => kind e && e.readable) =
      (events.filter kind).filter FileEvent.readable := by
    simp [List.filter_filter, Bool.and_comm]
  rw [hfilter, List.length_filter_eq_length_iff]
  simp [FileEvent.readable]

theorem enough_iff_capped {kind : FileEvent → Bool} {limit : Option ℕ} :
    Enough events kind limit ↔ capped limit (events.filter fun e => kind e && e.readable).length =
      capped limit (events.filter kind).length := by
  have hle : (events.filter fun e => kind e && e.readable).length ≤ (events.filter kind).length :=
    (List.monotone_filter_right _ fun e he => (Bool.and_eq_true_iff.1 he).1).length_le
  rw [enough_iff]
  rcases limit with _ | n
  · simp [capped]
  · simp [capped]
    omega

/-- When a query succeeds, and what it returns. -/
theorem WrittenFrom.query_spec (h : s.WrittenFrom events) (planner : Planner) (f : EventFilter) :
    (Enough events f.MatchesText f.limit ↔ ∃ found, s.query planner f = .ok found) ∧
    ∀ found, s.query planner f = .ok found →
      found.Subperm (events.filter fun e => f.MatchesText e && e.readable) ∧
      found.length = capped f.limit (events.filter f.MatchesText).length := by
  have hreadable : ((s.sorted planner f).filter fun r => r.read.isSome).length =
      (events.filter fun e => f.MatchesText e && e.readable).length := by
    rw [← (h.read_sorted planner f).length_eq, List.length_filterMap_eq_countP,
      List.countP_eq_length_filter]
  have hall : (∀ r ∈ s.sorted planner f, r.read.isSome) ↔
      (events.filter fun e => f.MatchesText e && e.readable).length =
        (events.filter f.MatchesText).length := by
    rw [← hreadable, ← h.length_sorted planner f, List.length_filter_eq_length_iff]
  have hok := forall_upTo_iff (pairwise_sorted s planner f) f.limit
  rw [hall, hreadable, ← enough_iff, ← select_eq_upTo] at hok
  refine ⟨⟨fun henough => ⟨_, mapM_eq_ok.2 ⟨hok.2 henough, rfl⟩⟩, ?_⟩, fun found hquery => ?_⟩
  · rintro ⟨found, hquery⟩
    exact hok.1 (mapM_eq_ok.1 hquery).1
  obtain ⟨hsome, hfound⟩ : (∀ r ∈ s.select planner f, r.read.isSome) ∧
      found = (s.select planner f).filterMap Row.read := mapM_eq_ok.1 hquery
  refine ⟨?_, ?_⟩
  · have hsub := (upTo_sublist f.limit (s.sorted planner f)).filterMap Row.read
    rw [← select_eq_upTo, ← hfound] at hsub
    exact hsub.subperm.trans (h.read_sorted planner f).subperm
  · rw [hfound, List.length_filterMap_eq_countP, List.countP_eq_length.2 hsome, select_eq_upTo,
      length_upTo, h.length_sorted planner f]

/-- As many of the wanted events as the limit allows are among those found. -/
def Returns (wanted found : List FileEvent) (limit : Option ℕ) : Prop :=
  ∃ kept : List FileEvent, kept.Subperm wanted ∧ kept.Subperm found ∧
    kept.length = capped limit wanted.length

variable (events f) in
theorem filter_wants : (events.filter fun e => f.Wants e && e.readable) =
    if ∃ since ∈ f.since, 253402300799 < since.timestamp then []
    else events.filter fun e => f.MatchesText e && e.readable := by
  split_ifs with hlate
  · obtain ⟨since, hsince, hlate⟩ := hlate
    rw [List.filter_eq_nil_iff]
    intro e _ he
    rw [Bool.and_eq_true] at he
    rw [EventFilter.wants_eq_false hsince hlate (of_decide_eq_true he.2)] at he
    cases he.1
  · refine List.filter_congr fun e _ => ?_
    by_cases he : e.timestamp.FourDigitYear
    · have hsince : ∀ since ∈ f.since, since.timestamp ≤ 253402300799 := fun since hs =>
        not_lt.1 fun hlt => hlate ⟨since, hs, hlt⟩
      rw [EventFilter.wants_eq_matchesText hsince he]
    · simp [FileEvent.readable, he]

theorem Returns.enough {kind : FileEvent → Bool} {found : List FileEvent} {limit : Option ℕ}
    (h : Returns (events.filter kind) found limit) (hfound : ∀ e ∈ found, e.readable) :
    Enough events kind limit := by
  obtain ⟨kept, hwanted, hkept, hlength⟩ := h
  have hreadable : kept.filter FileEvent.readable = kept :=
    List.filter_eq_self.2 fun e he => hfound e (hkept.subset he)
  have hle := (hwanted.filter FileEvent.readable).length_le
  have hle' := List.length_filter_le FileEvent.readable (events.filter kind)
  rw [hreadable, hlength] at hle
  rw [List.filter_filter] at hle hle'
  simp only [Bool.and_comm] at hle hle'
  rw [enough_iff_capped]
  rcases limit with _ | n <;> simp only [capped] at hle ⊢ <;> omega

theorem returns_of_enough {found : List FileEvent}
    (hsub : found.Subperm (events.filter fun e => f.MatchesText e && e.readable))
    (hlength : found.length = capped f.limit (events.filter f.MatchesText).length)
    (htext : Enough events f.MatchesText f.limit) (hwants : Enough events f.Wants f.limit) :
    Returns (events.filter f.Wants) found f.limit := by
  have hfilter := filter_wants events f
  rw [enough_iff_capped] at htext hwants
  split_ifs at hfilter with hlate
  · -- none of the wanted events is read back, so there is none or the limit is zero
    refine ⟨[], List.nil_subperm, List.nil_subperm, ?_⟩
    rw [← hwants, hfilter]
    cases f.limit <;> simp [capped]
  · refine ⟨found, ?_, List.Subperm.refl found, ?_⟩
    · rw [← hfilter] at hsub
      exact hsub.trans
        (List.monotone_filter_right _ fun e he => (Bool.and_eq_true_iff.1 he).1).subperm
    · rw [hlength, ← htext, ← hfilter, hwants]

theorem returns_iff (planner : Planner) (events : List FileEvent) (f : EventFilter) :
    (∃ found, (of events).query planner f = .ok found ∧
      Returns (events.filter f.Wants) found f.limit) ↔
    Enough events f.MatchesText f.limit ∧ Enough events f.Wants f.limit := by
  obtain ⟨hok, hfound⟩ := (writtenFrom_of events).query_spec planner f
  constructor
  · rintro ⟨found, hquery, hreturns⟩
    refine ⟨hok.2 ⟨found, hquery⟩, hreturns.enough fun e he => ?_⟩
    have hmem := (hfound found hquery).1.subset he
    rw [List.mem_filter, Bool.and_eq_true] at hmem
    exact hmem.2.2
  · rintro ⟨htext, hwants⟩
    obtain ⟨found, hquery⟩ := hok.1 htext
    obtain ⟨hsub, hlength⟩ := hfound found hquery
    exact ⟨found, hquery, returns_of_enough hsub hlength htext hwants⟩

end EventStore

namespace Sql

variable {db : Db}

/-- A new file in which some events have been inserted. -/
def insertAll : Db → List FileEvent → Except DbError Db
  | db, [] => .ok db
  | db, event :: events => do
    let (_, db) ← EventStore.insert db event
    insertAll db events

def ingested (events : List FileEvent) : Except DbError Db := do
  let db ← EventStore.new .empty
  insertAll db events

theorem insertAll_spec (events : List FileEvent) {es : EventStore}
    (h : db.tables .fileEvents = some (eventTable es)) :
    ∃ db', insertAll db events = .ok db' ∧
      db'.tables .fileEvents = some (eventTable (es.insertBatch events)) := by
  induction events generalizing db es with
  | nil => exact ⟨db, rfl, h⟩
  | cons event events ih =>
    have hset : (db.set .fileEvents (eventTable (es.insert event))).tables .fileEvents =
        some (eventTable (es.insert event)) := Sqlite.Database.tables_set_self
    obtain ⟨db', hrest, htable⟩ := ih hset
    refine ⟨db', ?_, htable⟩
    rw [insertAll, insert_spec h]
    exact hrest

theorem ingested_spec (events : List FileEvent) : ∃ db, ingested events = .ok db ∧
    db.tables .fileEvents = some (eventTable (.of events)) := by
  obtain ⟨db, hok, htables⟩ := new_spec known_empty.fileEvents
  have hnew : db.tables .fileEvents = some (eventTable .new) := htables .fileEvents
  obtain ⟨db', hrest, htable⟩ := insertAll_spec events hnew
  refine ⟨db', ?_, htable⟩
  rw [ingested, hok]
  exact hrest

/-- Opening the store again makes no difference to a query. -/
theorem openAndQuery_eq (planner : Sqlite.Planner ColumnName) {es : AmbientFs.EventStore}
    (h : db.tables .fileEvents = some (eventTable es)) (f : EventFilter) :
    openAndQuery planner db f = EventStore.query planner db f := by
  obtain ⟨db', hok, htables⟩ := new_spec fun t ht => by
    rw [h, Option.some.injEq] at ht
    exact .inl (ht ▸ rfl)
  have hsame : db'.tables .fileEvents = db.tables .fileEvents := by
    rw [htables, h, Option.some_or]
  simp only [openAndQuery, hok, ok_bind, EventStore.query, Sqlite.Database.read, hsame]

/-- A query returns the stored events that its filter asks for, as many as its limit allows, and so
do the requests that build the filter. -/
def Retrieved (planner : Sqlite.Planner ColumnName) (events : List FileEvent) (f : EventFilter) :
    Prop :=
  ∃ db found, ingested events = .ok db ∧
    EventStore.query planner db f = .ok found ∧
    AmbientFs.EventStore.Returns (events.filter f.Wants) found f.limit ∧
    (∀ now params members, paramsMap params = some members → queryFilter now members = .ok f →
      handleQueryEvents planner db now params = .events found) ∧
    ∀ now (req : QueryEventsRequest), req.filter now = .ok f →
      queryEvents planner db now req = .ok (found.map fileEventToMessage)

section Retrieved

variable {planner : Sqlite.Planner ColumnName} {events : List FileEvent} {f : EventFilter}

theorem Retrieved.enough (h : Retrieved planner events f) : (∀ n ∈ f.limit, n < 2 ^ 63) ∧
    AmbientFs.EventStore.Enough events f.MatchesText f.limit ∧
      AmbientFs.EventStore.Enough events f.Wants f.limit := by
  obtain ⟨db', found, hok', hquery, hall, -⟩ := h
  obtain ⟨db, hok, htable⟩ := ingested_spec events
  rw [← Except.ok.inj (hok.symm.trans hok')] at hquery
  by_cases hlimit : ∀ n ∈ f.limit, n < 2 ^ 63
  · rw [query_of_limit htable hlimit] at hquery
    refine ⟨hlimit, (AmbientFs.EventStore.returns_iff (eventPlanner planner) events f).1
      ⟨found, ?_, hall⟩⟩
    rcases htyped : AmbientFs.EventStore.query _ _ f with e | es <;> rw [htyped] at hquery <;>
      cases hquery
    rfl
  · rw [query_of_not_limit htable (by simpa using hlimit)] at hquery
    cases hquery

theorem retrieved_of_enough (hlimit : ∀ n ∈ f.limit, n < 2 ^ 63)
    (henough : AmbientFs.EventStore.Enough events f.MatchesText f.limit ∧
      AmbientFs.EventStore.Enough events f.Wants f.limit) : Retrieved planner events f := by
  obtain ⟨db, hok, htable⟩ := ingested_spec events
  obtain ⟨found, hquery, hall⟩ :=
    (AmbientFs.EventStore.returns_iff (eventPlanner planner) events f).2 henough
  have hsql : EventStore.query planner db f = .ok found := by
    rw [query_of_limit htable hlimit, hquery]
    rfl
  have hopen := openAndQuery_eq planner htable f
  refine ⟨db, found, hok, hsql, hall, fun now params members hparams hf => ?_, fun now req hf => ?_⟩
  · simp only [handleQueryEvents, hparams, hf, hopen, hsql]
  · simp only [queryEvents, hf, hopen, hsql]

end Retrieved

/-- All events are retrieved if and only if the database takes the limit, and the events that match
by their text, and those that are asked for, are read back, or as many as the limit allows. -/
theorem retrieved_iff (planner : Sqlite.Planner ColumnName) (events : List FileEvent)
    (f : EventFilter) : Retrieved planner events f ↔
      (∀ n ∈ f.limit, n < 2 ^ 63) ∧ AmbientFs.EventStore.Enough events f.MatchesText f.limit ∧
        AmbientFs.EventStore.Enough events f.Wants f.limit :=
  ⟨Retrieved.enough, fun h => retrieved_of_enough h.1 h.2⟩

/-! ## A message from the year 10000 -/

def farMessage : FileEventMessage where
  timestamp := 253402300800
  eventType := "modified"
  filePath := "a"
  projectId := "p"
  source := "user"
  sourceId := none
  machineId := "m"
  contentHash := none
  oldPath := none

theorem year_farMessage : ∃ e, messageToFileEvent farMessage "m" = some e ∧
    ¬ e.timestamp.FourDigitYear := by
  refine ⟨_, rfl, ?_⟩
  rw [DateTime.fourDigitYear_iff]
  decide

/-- An event that is received with such an instant makes every query fail that reaches it. -/
theorem not_retrieved : ¬ ∀ (planner : Sqlite.Planner ColumnName)
    (messages : List FileEventMessage) (f : EventFilter),
      Retrieved planner (messages.filterMap (messageToFileEvent · "m")) f := by
  intro h
  obtain ⟨e, he, hyear⟩ := year_farMessage
  obtain ⟨-, htext, -⟩ := (h ⟨fun _ rows => rows, fun _ _ => .refl _⟩ [farMessage] {}).enough
  have hevents : [farMessage].filterMap (messageToFileEvent · "m") = [e] := by
    simp [he]
  rw [hevents] at htext
  rcases htext with hread | ⟨n, hn, -⟩
  · exact hyear (hread e List.mem_cons_self rfl)
  · cases hn

end Sql

end AmbientFs
