import AmbientFs.Lib.Cutoffs
import AmbientFs.Proofs.ClientApi
import AmbientFs.Proofs.CliEvents
import AmbientFs.Proofs.Protocol

/-!
# Since when the client asks for events

The client documents its `since` as a Unix timestamp, and the server takes it for a number of
seconds before its own clock. The answer is what was asked for only if the two instants cut the
stored events at the same place, or if no more events are asked for than are since both.
-/

namespace AmbientFs

open Sql (eventTable eventPlanner)

/-- The order of the cutoffs. -/
def FileEvent.nanos (e : FileEvent) : ℤ := e.timestamp.nanos

/-- Not after the year 9999. -/
def FileEvent.dated (e : FileEvent) : Bool := e.timestamp.timestamp ≤ 253402300799

namespace EventFilter

variable {f : EventFilter} {events : List FileEvent} {asks : FileEvent → Bool}

/-- What a query finds, and reads back. -/
def Serves (f : EventFilter) (e : FileEvent) : Bool := f.MatchesText e && e.readable

/-- What is asked for but for its instant. -/
def Others (f : EventFilter) (e : FileEvent) : Bool := { f with since := none }.Wants e

theorem matchesText_eq_others (e : FileEvent) : f.MatchesText e =
    (f.Others e && f.since.all (·.toRfc3339 ≤ e.timestamp.toRfc3339)) := by
  rw [matchesText_eq, Others, Wants]
  simp

theorem serves_iff {e : FileEvent} : f.Serves e ↔ f.Others e ∧ e.timestamp.FourDigitYear ∧
    f.since.all (·.toRfc3339 ≤ e.timestamp.toRfc3339) := by
  rw [Serves, matchesText_eq_others, FileEvent.readable]
  simp only [Bool.and_eq_true, decide_eq_true_eq]
  tauto

/-- What is read back and is not before an instant. By their text all are after one that is after the
year 9999. -/
def Past (since : DateTime) (e : FileEvent) : Bool :=
  e.readable && (253402300799 < since.timestamp || since.nanos ≤ e.nanos)

theorem serves_eq {since : DateTime} (hf : f.since = some since) (e : FileEvent) :
    f.Serves e = (f.Others e && Past since e) := by
  rw [Serves, matchesText_eq_others, hf, Past, Bool.and_assoc, Bool.and_comm _ e.readable]
  by_cases hyear : e.timestamp.FourDigitYear
  · congr 2
    rw [Option.all_some, Bool.eq_iff_iff, decide_eq_true_eq, since.toRfc3339_le_iff_of_year hyear,
      Bool.or_eq_true, decide_eq_true_eq, decide_eq_true_eq]
    rfl
  · simp [FileEvent.readable, hyear]

/-- The filter's instant and a Unix time cut the events alike, or the limit allows no more than are
since both. -/
def Cuts (f : EventFilter) (since : DateTime) (events : List FileEvent) (T : ℤ) : Prop :=
  f.limit = some 0 ∨
    (∀ e ∈ events, f.Others e → (T * nanosPerSec ≤ e.nanos ↔ Past since e)) ∨
    (∀ e ∈ events, f.Others e → T * nanosPerSec ≤ e.nanos → e.dated) ∧ ∃ n ∈ f.limit,
      n ≤ (events.filter fun e => f.Others e && T * nanosPerSec ≤ e.nanos && Past since e).length

theorem cuts_iff {since : DateTime} {T : ℤ} (hf : f.since = some since)
    (hasks : ∀ e, asks e = (f.Others e && decide (T * nanosPerSec ≤ e.nanos))) :
    f.Cuts since events T ↔ f.limit = some 0 ∨ (∀ e ∈ events, f.Serves e = asks e) ∨
      (∀ e ∈ events, asks e → e.dated) ∧
        ∃ n ∈ f.limit, n ≤ (events.filter fun e => f.Serves e && asks e).length := by
  have hboth : (fun e => f.Serves e && asks e) = fun e =>
      f.Others e && T * nanosPerSec ≤ e.nanos && Past since e := by
    funext e
    rw [serves_eq hf, hasks]
    cases f.Others e <;> simp [Bool.and_comm]
  have hsame : ∀ e, f.Serves e = asks e ↔
      (f.Others e → (T * nanosPerSec ≤ e.nanos ↔ Past since e)) := by
    intro e
    rw [serves_eq hf, hasks, Bool.eq_iff_iff]
    cases f.Others e <;> simp [iff_comm]
  simp only [Cuts, hboth, hsame]
  simp only [hasks, Bool.and_eq_true, decide_eq_true_eq, and_imp]

theorem dated_of_serves {e : FileEvent} (h : f.Serves e) : e.dated := by
  have hyear := (serves_iff.1 h).2.1
  rw [DateTime.fourDigitYear_iff] at hyear
  simp [FileEvent.dated, hyear.2]

/-- Of the events that otherwise match, and are not after the year 9999, those are found that are
late enough. -/
theorem upward_serves : Cutoffs.Upward FileEvent.nanos
    (events.filter fun e => f.Others e && e.dated) f.Serves := by
  intro a ha b hb hserves hle
  obtain ⟨-, hyear, hsince⟩ := serves_iff.1 hserves
  obtain ⟨-, hothers⟩ := List.mem_filter.1 hb
  rw [Bool.and_eq_true, FileEvent.dated, decide_eq_true_eq] at hothers
  have hyear' : b.timestamp.FourDigitYear := by
    rw [DateTime.fourDigitYear_iff] at hyear ⊢
    refine ⟨?_, hothers.2⟩
    unfold FileEvent.nanos at hle
    unfold DateTime.timestamp nanosPerSec at *
    omega
  refine serves_iff.2 ⟨hothers.1, hyear', ?_⟩
  rcases hs : f.since with _ | since
  · rfl
  · rw [hs] at hsince
    simp only [Option.all_some, decide_eq_true_eq] at hsince ⊢
    exact hsince.trans ((DateTime.toRfc3339_le_iff hyear hyear').2 hle)

end EventFilter

/-- Some list that has the entries, the latest first, starts so up to the limit. -/
def FirstOf (entries : List FileEvent) (limit : Option ℕ) (found : List FileEvent) : Prop :=
  ∃ sorted : List FileEvent, sorted.Perm entries ∧ LatestFirst sorted ∧ found = upTo limit sorted

theorem exists_latestFirst (entries : List FileEvent) :
    ∃ sorted : List FileEvent, sorted.Perm entries ∧ LatestFirst sorted := by
  have htotal : Std.Total fun e e' : FileEvent => e'.nanos ≤ e.nanos :=
    ⟨fun e e' => le_total e'.nanos e.nanos⟩
  have htrans : IsTrans FileEvent fun e e' => e'.nanos ≤ e.nanos :=
    ⟨fun a b c hab hbc => le_trans hbc hab⟩
  exact ⟨entries.insertionSort fun e e' => e'.nanos ≤ e.nanos, List.perm_insertionSort _ _,
    List.pairwise_insertionSort _ _⟩

theorem firstOf_nil_iff {entries : List FileEvent} {limit : Option ℕ} :
    FirstOf entries limit [] ↔ limit = some 0 ∨ entries = [] := by
  constructor
  · rintro ⟨sorted, hperm, -, hnil⟩
    rcases upTo_eq_nil.1 hnil.symm with hzero | rfl
    · exact .inl hzero
    · exact .inr hperm.symm.eq_nil
  · intro h
    obtain ⟨sorted, hperm, hsorted⟩ := exists_latestFirst entries
    refine ⟨sorted, hperm, hsorted, (upTo_eq_nil.2 (h.imp_right fun hnil => ?_)).symm⟩
    rw [hnil] at hperm
    exact hperm.eq_nil

namespace EventStore

variable {planner : Planner} {s : EventStore} {f : EventFilter}
  {events found sorted : List FileEvent} {asks : FileEvent → Bool} {T : ℤ}

theorem upward_asks (hasks : ∀ e, asks e = (f.Others e && decide (T * nanosPerSec ≤ e.nanos))) :
    Cutoffs.Upward FileEvent.nanos (events.filter fun e => f.Others e && e.dated) asks := by
  intro a ha b hb hask hle
  obtain ⟨-, hothers⟩ := List.mem_filter.1 hb
  rw [hasks, Bool.and_eq_true, decide_eq_true_eq] at hask ⊢
  rw [Bool.and_eq_true] at hothers
  exact ⟨hothers.1, hask.2.trans hle⟩

theorem filter_filter_of_imp {p q : FileEvent → Bool} (h : ∀ e ∈ events, q e → p e) :
    (events.filter p).filter q = events.filter q := by
  rw [List.filter_filter]
  exact Cutoffs.filter_and_of_imp h

theorem firstOf_take_iff (hperm : sorted.Perm (events.filter f.Serves))
    (hsorted : LatestFirst sorted)
    (hasks : ∀ e, asks e = (f.Others e && decide (T * nanosPerSec ≤ e.nanos)))
    (hdated : ∀ e ∈ events, asks e → e.dated) (n : ℕ) :
    FirstOf (events.filter asks) (some n) (sorted.take n) ↔ (∀ e ∈ events, f.Serves e = asks e) ∨
      n ≤ (events.filter fun e => f.Serves e && asks e).length := by
  have hserves : ∀ e ∈ events, f.Serves e → f.Others e && e.dated := fun e _ h => by
    simp [(EventFilter.serves_iff.1 h).1, EventFilter.dated_of_serves h]
  have hkept : ∀ e ∈ events, asks e → f.Others e && e.dated := fun e he h => by
    have hdate := hdated e he h
    rw [hasks, Bool.and_eq_true] at h
    simp [h.1, hdate]
  have hboth : ∀ e ∈ events, (f.Serves e && asks e) → f.Others e && e.dated := fun e he h => by
    rw [Bool.and_eq_true] at h
    exact hkept e he h.2
  have hsame : (∀ e ∈ events.filter fun e => f.Others e && e.dated, f.Serves e = asks e) ↔
      ∀ e ∈ events, f.Serves e = asks e := by
    rw [← Cutoffs.perm_filter_iff, ← Cutoffs.perm_filter_iff, filter_filter_of_imp hserves,
      filter_filter_of_imp hkept]
  rw [← filter_filter_of_imp hserves] at hperm
  have htop := Cutoffs.topOf_iff (n := n) hperm hsorted EventFilter.upward_serves
    (upward_asks hasks)
  rwa [filter_filter_of_imp hkept, filter_filter_of_imp hboth, hsame] at htop

/-- The first is the latest of all. -/
theorem dated_of_firstOf {entries : List FileEvent} {n : ℕ}
    (h : FirstOf entries (some (n + 1)) found) (hfound : ∀ e ∈ found, e.dated) :
    ∀ e ∈ entries, e.dated := by
  obtain ⟨sorted, hperm, hsorted, rfl⟩ := h
  intro e he
  rcases sorted with _ | ⟨a, rest⟩
  · simp [hperm.symm.eq_nil] at he
  have hdate := hfound a (by simp [upTo])
  have hle : e.nanos ≤ a.nanos := LatestFirst.le_head hsorted (hperm.mem_iff.2 he)
  simp only [FileEvent.dated, decide_eq_true_eq, FileEvent.nanos] at hdate hle ⊢
  unfold DateTime.timestamp nanosPerSec at *
  omega

/-- A query finds the first of what is asked for exactly if the filter's instant cuts so. -/
theorem WrittenFrom.firstOf_iff (h : s.WrittenFrom events) (hquery : s.query planner f = .ok found)
    {since : DateTime} (hf : f.since = some since)
    (hasks : ∀ e, asks e = (f.Others e && decide (T * nanosPerSec ≤ e.nanos))) :
    FirstOf (events.filter asks) f.limit found ↔ f.Cuts since events T := by
  obtain ⟨sorted, hperm, hsorted, hfound⟩ := h.query_ordered planner f
  obtain rfl := hfound found hquery
  have hserves : sorted.Perm (events.filter f.Serves) := hperm
  rw [EventFilter.cuts_iff hf hasks]
  rcases f.limit with _ | n
  · simp only [reduceCtorEq, Option.mem_def, false_and, exists_false, and_false, or_false, false_or]
    rw [← Cutoffs.perm_filter_iff]
    constructor
    · rintro ⟨sorted', hperm', -, hall⟩
      obtain rfl : sorted = sorted' := hall
      exact hserves.symm.trans hperm'
    · exact fun heq => ⟨sorted, hserves.trans heq, hsorted, rfl⟩
  · simp only [Option.some.injEq, Option.mem_def, exists_eq_left']
    by_cases hdated : ∀ e ∈ events, asks e → e.dated
    · rw [and_iff_right hdated]
      exact (firstOf_take_iff hserves hsorted hasks hdated n).trans
        (iff_or_self.2 fun hzero => .inr (by omega))
    · have hne : ¬ ∀ e ∈ events, f.Serves e = asks e := fun heq =>
        hdated fun e he hask => EventFilter.dated_of_serves ((heq e he).trans hask)
      simp only [hne, hdated, false_and, or_false]
      cases n with
      | zero => exact iff_of_true (firstOf_nil_iff.2 (.inl rfl)) rfl
      | succ n =>
        refine iff_of_false (fun hfirst => hdated fun e he hask => ?_) (by simp)
        refine dated_of_firstOf hfirst (fun a ha => ?_) e (List.mem_filter.2 ⟨he, hask⟩)
        have hmem := hserves.mem_iff.1 ((upTo_sublist _ _).subset ha)
        exact EventFilter.dated_of_serves (List.mem_filter.1 hmem).2

end EventStore

namespace Client

variable {o : Outside} {s : ServerState} {filter : EventFilter} {f : AmbientFs.EventFilter}
  {events found : List FileEvent} {now : DateTime} {T : ℤ}

/-- The request is answered, the response comes back to the call, and the call returns the reply. -/
def Call.Returns (o : Outside) (s : ServerState) (call : Call) (reply : Reply) : Prop :=
  ∀ subs id req, Rpc.Request.fromValue (call.request id) = some req →
    ∃ res, (Rpc.handleRequest o s subs req).2.2 = some res ∧ responseId res.toValue = some id ∧
      call.finish o.chrono (responseAnswer res.toValue) = .ok reply

theorem responseAnswer_ofError (id : Rpc.Id) (e : ProtocolError) :
    ∃ error, responseAnswer (Rpc.Response.ofError id e).toValue = .error error := by
  simp [Rpc.Response.ofError, Rpc.Response.toValue, responseAnswer, List.lookup_cons]

theorem returns_iff (h : ∀ t ∈ (Call.queryEvents filter).instants o,
    o.chrono.parse (o.chrono.text t) = some t) :
    (Call.queryEvents filter).Returns o s (.events found) ↔
      handleQueryEvents o.planner o.db o.now (some (.object filter.members)) = .events found := by
  constructor
  · intro hreturns
    obtain ⟨res, hres, -, hfinish⟩ := hreturns ∅ 1 _ (Call.queryEvents filter).fromValue_request_one
    rw [Call.handleRequest_queryEvents] at hres
    rcases hfound : handleQueryEvents o.planner o.db o.now (some (.object filter.members))
      with found' | e | _ <;> rw [hfound] at hres
    · obtain rfl := Option.some.inj hres
      rw [Call.finish_ofResult, Call.reply_queryEvents h hfound] at hfinish
      cases hfinish
      rfl
    · obtain rfl := Option.some.inj hres
      obtain ⟨error, herror⟩ := responseAnswer_ofError (.number 1) e
      rw [herror] at hfinish
      cases hfinish
    · cases hres
  · intro hfound subs id req hreq
    obtain rfl := Call.eq_of_fromValue_request hreq
    rw [Call.handleRequest_queryEvents, hfound]
    refine ⟨_, rfl, Rpc.Response.responseId_ofResult rfl, ?_⟩
    rw [Call.finish_ofResult, Call.reply_queryEvents h hfound]
    rfl

/-- The events since a Unix time that are asked for. -/
def EventFilter.Asks (filter : EventFilter) (T : ℤ) (e : FileEvent) : Bool :=
  filter.projectId.all (e.projectId = ·) &&
    filter.source.all (fun source => some e.source = (Source.fromStr source).toOption) &&
      T * nanosPerSec ≤ e.nanos

/-- The filter that the server makes of the client's. -/
def EventFilter.served (now : DateTime) (filter : EventFilter) :
    Except FilterError AmbientFs.EventFilter :=
  AmbientFs.EventFilter.ofRequest now filter.projectId filter.since filter.source
    (filter.limit.map UInt64.toNat)

theorem queryFilter_members (h : ∀ T ∈ filter.since, T < 2 ^ 63) :
    queryFilter now filter.members = filter.served now := by
  have hsince : (Json.Value.asNumber (.ofOption JsonValue.ofI64 filter.since)).bind
      JsonNumber.asI64 = filter.since := by
    rcases hs : filter.since with _ | T
    · rfl
    · exact asI64_ofI64 (h T hs)
  unfold queryFilter EventFilter.members EventFilter.served
  simp only [List.lookup_cons, String.reduceBEq, Option.bind_some, hsince]
  congr 1
  · cases filter.projectId <;> rfl
  · cases filter.source <;> rfl
  · cases filter.limit <;> rfl

theorem asks_of_served (h : filter.served now = .ok f) (hT : filter.since = some T) :
    f.limit = filter.limit.map UInt64.toNat ∧
      (∃ since, secondsAgo now T = some since ∧ f.since = some since) ∧
      ∀ e, filter.Asks T e = (f.Others e && decide (T * nanosPerSec ≤ e.nanos)) := by
  unfold EventFilter.served AmbientFs.EventFilter.ofRequest at h
  rw [hT] at h
  rcases ht : secondsAgo now T with _ | since
  · simp [ht] at h
    cases h
  · rcases hsource : filter.source with _ | text
    · simp only [ht, hsource] at h
      cases h
      refine ⟨rfl, ⟨since, rfl, rfl⟩, fun e => ?_⟩
      simp [EventFilter.Asks, hsource, AmbientFs.EventFilter.Others, AmbientFs.EventFilter.Wants]
    · rcases hparse : Source.fromStr text with err | source
      · simp only [ht, hsource, hparse] at h
        cases h
      · simp only [ht, hsource, hparse] at h
        cases h
        refine ⟨rfl, ⟨since, rfl, rfl⟩, fun e => ?_⟩
        simp [EventFilter.Asks, hsource, hparse, AmbientFs.EventFilter.Others,
          AmbientFs.EventFilter.Wants, Except.toOption]

/-- When what is answered is what is asked for since a Unix time, at the server's clock. Where the
query fails, nothing is answered. -/
def EventFilter.Heeded (filter : EventFilter) (now : DateTime) (events : List FileEvent) (T : ℤ) :
    Prop :=
  ∃ f, filter.served now = .ok f ∧ ∃ since, secondsAgo now T = some since ∧
    (((∀ n ∈ f.limit, n < 2 ^ 63) ∧ EventStore.Enough events f.MatchesText f.limit) ∧
        f.Cuts since events T ∨
      ¬ ((∀ n ∈ f.limit, n < 2 ^ 63) ∧ EventStore.Enough events f.MatchesText f.limit) ∧
        ∀ e ∈ events, f.Others e → ¬ T * nanosPerSec ≤ e.nanos)

theorem handleQueryEvents_eq_events {planner : Sqlite.Planner Sql.ColumnName} {db : Sql.Db}
    (h : ∀ T ∈ filter.since, T < 2 ^ 63) :
    handleQueryEvents planner db now (some (.object filter.members)) = .events found ↔
      ∃ f, filter.served now = .ok f ∧ (openAndQuery planner db f = .ok found ∨
        found = [] ∧ ∀ events, openAndQuery planner db f ≠ .ok events) := by
  unfold handleQueryEvents
  simp only [paramsMap, queryFilter_members h]
  rcases filter.served now with (_ | sourceStr) | f
  · simp
  · simp
  · rcases hq : openAndQuery planner db f with e | events
    · simp [hq, eq_comm]
    · simp [hq]

/-- A limit that SQLite takes, and as many events that are read back as it allows. -/
theorem exists_openAndQuery_iff (planner : Sqlite.Planner Sql.ColumnName) {db : Sql.Db}
    {es : EventStore} (htable : db.tables .fileEvents = some (eventTable es))
    (hevents : es.WrittenFrom events) : (∃ found, openAndQuery planner db f = .ok found) ↔
      (∀ n ∈ f.limit, n < 2 ^ 63) ∧ EventStore.Enough events f.MatchesText f.limit := by
  simp only [Sql.openAndQuery_eq_ok htable, exists_and_left]
  rw [(hevents.query_spec (eventPlanner planner) f).1]

/-- What the call returns is what its filter asks for. -/
def EventFilter.SinceAgrees (o : Outside) (s : ServerState) (events : List FileEvent)
    (filter : EventFilter) (T : ℤ) : Prop :=
  ∃ found, (Call.queryEvents filter).Returns o s (.events found) ∧
    FirstOf (events.filter (filter.Asks T)) (filter.limit.map UInt64.toNat) found

theorem sinceAgrees_iff_firstOf (hsince : ∀ T ∈ filter.since, T < 2 ^ 63)
    (hchrono : ∀ t ∈ (Call.queryEvents filter).instants o,
      o.chrono.parse (o.chrono.text t) = some t) :
    filter.SinceAgrees o s events T ↔ ∃ f, filter.served o.now = .ok f ∧ ∃ found,
      (openAndQuery o.planner o.db f = .ok found ∨
        found = [] ∧ ∀ events, openAndQuery o.planner o.db f ≠ .ok events) ∧
      FirstOf (events.filter (filter.Asks T)) (filter.limit.map UInt64.toNat) found := by
  simp only [EventFilter.SinceAgrees, returns_iff hchrono, handleQueryEvents_eq_events hsince]
  constructor
  · rintro ⟨found, ⟨f, hf, hfound⟩, hfirst⟩
    exact ⟨f, hf, found, hfound, hfirst⟩
  · rintro ⟨f, hf, found, hfound, hfirst⟩
    exact ⟨found, ⟨f, hf, hfound⟩, hfirst⟩

theorem lt_of_since {T : ℤ} (hT : filter.since = some T) (hi64 : T < 2 ^ 63) :
    ∀ T ∈ filter.since, T < 2 ^ 63 := by
  intro T' hT'
  rw [hT, Option.mem_some_iff] at hT'
  exact hT' ▸ hi64

/-- The client's `since` is heeded as it is documented exactly if the server's cutoff makes no
difference to it. -/
theorem sinceAgrees_iff (o : Outside) (s : ServerState) (es : EventStore) (events : List FileEvent)
    (filter : EventFilter) (T : ℤ) (htable : o.db.tables .fileEvents = some (eventTable es))
    (hevents : es.WrittenFrom events) (hT : filter.since = some T) (hi64 : T < 2 ^ 63)
    (hchrono : ∀ t ∈ (Call.queryEvents filter).instants o,
      o.chrono.parse (o.chrono.text t) = some t) :
    filter.SinceAgrees o s events T ↔ filter.Heeded o.now events T := by
  rw [sinceAgrees_iff_firstOf (lt_of_since hT hi64) hchrono]
  refine exists_congr fun f => and_congr_right fun hf => ?_
  obtain ⟨hlimit, ⟨since, hago, hfsince⟩, hasks⟩ := asks_of_served hf hT
  simp only [hago, Option.some.injEq, exists_eq_left']
  rw [← hlimit, ← exists_openAndQuery_iff o.planner htable hevents]
  by_cases hok : ∃ found, openAndQuery o.planner o.db f = .ok found
  · obtain ⟨found, hfound⟩ := hok
    have hquery := ((Sql.openAndQuery_eq_ok htable).1 hfound).2
    simpa [hfound] using hevents.firstOf_iff hquery hfsince hasks
  · have hnonzero : f.limit ≠ some 0 := fun hzero =>
      hok ((exists_openAndQuery_iff _ htable hevents).2
        ⟨by simp [hzero], .inr ⟨0, hzero, Nat.zero_le _⟩⟩)
    have hnil : FirstOf (events.filter (filter.Asks T)) f.limit [] ↔
        ∀ e ∈ events, f.Others e → ¬ T * nanosPerSec ≤ e.nanos := by
      refine firstOf_nil_iff.trans ((or_iff_right hnonzero).trans (List.filter_eq_nil_iff.trans ?_))
      simp [hasks]
    push Not at hok
    simp [hok, hnil]

/-! ## A client whose clock is the server's -/

open Rpc.ConnectionAudit (idle idleOutside)
open Sql (firstEvent)

/-- The server's clock, and a store of events of 1970. -/
def epochOutside (db : Sql.Db) (now : DateTime) : Outside :=
  { idleOutside with now := now, db := db, chrono := epochOnly }

/-- All that is found is stored. -/
theorem instants_epochOutside (now : DateTime) {db : Sql.Db} {es : EventStore}
    (htable : db.tables .fileEvents = some (eventTable es)) (hevents : es.WrittenFrom [firstEvent])
    (hsince : ∀ T ∈ filter.since, T < 2 ^ 63) :
    ∀ t ∈ (Call.queryEvents filter).instants (epochOutside db now),
      epochOnly.parse (epochOnly.text t) = some t := by
  rintro t ⟨found, hfound, e, he, rfl⟩
  obtain ⟨f, -, hopen | ⟨rfl, -⟩⟩ := (handleQueryEvents_eq_events hsince).1 hfound
  · have hquery := ((Sql.openAndQuery_eq_ok htable).1 hopen).2
    have hmem := (((hevents.query_spec _ f).2 found hquery).1.subset he)
    obtain rfl : e = firstEvent := by simpa using (List.mem_filter.1 hmem).1
    rfl
  · simp at he

def sinceUnix (T : ℤ) : EventFilter := { since := some T }

/-- The instant is the epoch for the server. -/
theorem served_sinceUnix (h : secondsAgo now T = some .epoch) :
    (sinceUnix T).served now = .ok { since := some .epoch } := by
  unfold EventFilter.served AmbientFs.EventFilter.ofRequest
  simp only [sinceUnix, h]
  rfl

theorem enough_firstEvent : (∀ n ∈ ({ since := some .epoch } : AmbientFs.EventFilter).limit,
    n < 2 ^ 63) ∧ EventStore.Enough [firstEvent]
      ({ since := some .epoch } : AmbientFs.EventFilter).MatchesText none := by
  refine ⟨by simp, .inl fun e he _ => ?_⟩
  rw [List.mem_singleton.1 he]
  decide

theorem sinceAgrees_epoch : ∃ db, Sql.ingested [firstEvent] = .ok db ∧
    (sinceUnix 0).SinceAgrees (epochOutside db .epoch) idle [firstEvent] 0 := by
  obtain ⟨db, hok, htable⟩ := Sql.ingested_spec [firstEvent]
  have hevents := EventStore.writtenFrom_of [firstEvent]
  refine ⟨db, hok, (sinceAgrees_iff _ idle _ _ (sinceUnix 0) 0 htable hevents rfl (by decide)
    (instants_epochOutside .epoch htable hevents (by simp [sinceUnix]))).2 ?_⟩
  refine ⟨_, served_sinceUnix rfl, .epoch, rfl, .inl ⟨enough_firstEvent, .inr (.inl ?_)⟩⟩
  decide

/-- The client asks for what is to come, and is given all since 1970. -/
theorem not_sinceAgrees : ¬ ∀ (o : Outside) (s : ServerState) (es : EventStore)
    (events : List FileEvent) (filter : EventFilter) (T : ℤ),
    o.db.tables .fileEvents = some (eventTable es) → es.WrittenFrom events → filter.since = some T →
    T < 2 ^ 63 →
    (∀ t ∈ (Call.queryEvents filter).instants o, o.chrono.parse (o.chrono.text t) = some t) →
      filter.SinceAgrees o s events T := by
  intro h
  obtain ⟨db, hok, htable⟩ := Sql.ingested_spec [firstEvent]
  have hevents := EventStore.writtenFrom_of [firstEvent]
  have hsince : ∀ T ∈ (sinceUnix 1767225600).since, T < 2 ^ 63 := by simp [sinceUnix]
  have hchrono := instants_epochOutside Sql.newYear htable hevents hsince
  have hagrees := h (epochOutside db Sql.newYear) idle _ _ (sinceUnix 1767225600) 1767225600 htable
    hevents rfl (by decide) hchrono
  obtain ⟨f, hf, found, hfound, hfirst⟩ := (sinceAgrees_iff_firstOf hsince hchrono).1 hagrees
  obtain ⟨-, -, hasks⟩ := asks_of_served hf rfl
  have hserved : (sinceUnix 1767225600).served Sql.newYear = .ok { since := some .epoch } :=
    served_sinceUnix rfl
  obtain rfl := Except.ok.inj (hserved.symm.trans hf)
  rcases hfound with hopen | ⟨-, hnone⟩
  · have hquery := ((Sql.openAndQuery_eq_ok htable).1 hopen).2
    rcases (hevents.firstOf_iff hquery rfl hasks).1 hfirst with hzero | hsame | ⟨-, n, hn, -⟩
    · cases hzero
    · exact absurd (hsame firstEvent List.mem_cons_self) (by decide)
    · cases hn
  · obtain ⟨found', hopen⟩ := (exists_openAndQuery_iff Sql.rowidOrder htable
      hevents).2 enough_firstEvent
    exact hnone found' hopen

end Client

end AmbientFs
