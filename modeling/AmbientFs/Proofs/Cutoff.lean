import AmbientFs.Cutoff
import AmbientFs.Proofs.DatabaseOrder
import AmbientFs.Proofs.Handlers

/-!
# Cutoffs that can be computed

However a cutoff is asked for, it is computed exactly if the second it falls in is one of a
`DateTime`. The durations are not limited further: one that is out of the range of `TimeDelta` leads
out of that of `DateTime` from wherever the clock is.
-/

namespace AmbientFs

/-- The instant so many seconds before lies within the range of instants. -/
def DateTime.Reaches (now : DateTime) (seconds : ℤ) : Prop :=
  minSecs ≤ now.timestamp - seconds ∧ now.timestamp - seconds ≤ maxSecs

variable {now : DateTime} {seconds : ℤ}

theorem DateTime.Reaches.natAbs_le (h : now.Reaches seconds) :
    seconds.natAbs ≤ 9223372036854775 := by
  have hnow := now.timestamp_mem
  unfold DateTime.Reaches at h
  simp only [minSecs, maxSecs] at *
  omega

theorem ofNanos_sub_isSome :
    (DateTime.ofNanos (now.nanos - seconds * nanosPerSec)).isSome ↔ now.Reaches seconds := by
  unfold DateTime.ofNanos DateTime.Reaches DateTime.timestamp
  rw [Option.isSome_dite]
  simp only [nanosPerSec, minSecs, maxSecs]
  omega

theorem secondsAgo_isSome : (secondsAgo now seconds).isSome ↔ now.Reaches seconds := by
  unfold secondsAgo
  split_ifs with h
  · exact ofNanos_sub_isSome
  · exact iff_of_false (by simp) fun hr => h hr.natAbs_le

theorem timeDelta_bind_isSome {n unit : ℤ} :
    ((timeDelta n unit).bind fun delta =>
      DateTime.ofNanos (now.nanos - delta * nanosPerSec)).isSome ↔ now.Reaches (n * unit) := by
  unfold timeDelta
  split_ifs with h
  · exact ofNanos_sub_isSome
  · exact iff_of_false (by simp) fun hr => h hr.natAbs_le

/-! ## Requests -/

theorem any_isNone_eq_false {since : Option ℤ} :
    ¬ since.any (fun seconds => (secondsAgo now seconds).isNone) = true ↔
      ∀ seconds ∈ since, now.Reaches seconds := by
  rcases since with _ | seconds
  · simp
  · simp [← secondsAgo_isSome, Option.isSome_iff_ne_none]

/-- What a JSON-RPC request asks for. -/
def requestedSince (params : Option Params) : Option ℤ :=
  (paramsMap params).bind fun members =>
    ((members.lookup "since").bind Json.Value.asNumber).bind JsonNumber.asI64

variable {planner : Sqlite.Planner Sql.ColumnName} {db : Sql.Db}

theorem handleQueryEvents_ne_panicked {params : Option Params} :
    handleQueryEvents planner db now params ≠ .panicked ↔
      ∀ seconds ∈ requestedSince params, now.Reaches seconds := by
  rw [← any_isNone_eq_false, not_iff_not]
  unfold handleQueryEvents requestedSince
  rcases paramsMap params with _ | members
  · simp
  · rw [Option.bind_some, ← Rpc.queryFilter_eq_overflow]
    rcases h : queryFilter now members with (sourceStr | _) | filter
    · simp [h]
    · simp [h]
    · rcases hq : openAndQuery planner db filter with e | events <;> simp [h, hq]

theorem queryEvents_ne_panicked {req : QueryEventsRequest} :
    queryEvents planner db now req ≠ .error .panicked ↔
      ∀ seconds ∈ req.since, now.Reaches seconds := by
  have hfilter : req.filter now = .error .overflow ↔
      req.since.any (fun seconds => (secondsAgo now seconds).isNone) = true :=
    Rpc.ofRequest_eq_overflow
  rw [← any_isNone_eq_false, not_iff_not, ← hfilter]
  unfold queryEvents
  rcases req.filter now with (sourceStr | _) | filter
  · simp
  · simp
  · rcases hq : openAndQuery planner db filter with e | events <;> simp [hq]

/-! ## The command line -/

/-- What `--since` asks for: a number that is an `i64`, of a unit there is. -/
def Cli.requestedSince (s : List Char) : Option ℤ :=
  (parseI64 (s.takeWhile Char.isDigit)).bind fun num =>
    (unitSeconds (s.dropWhile Char.isDigit)).map fun unit => num * unit

theorem eventsSince_isSome {s : List Char} :
    (Cli.eventsSince now (some s)).isSome ↔
      ∀ seconds ∈ Cli.requestedSince s, now.Reaches seconds := by
  unfold Cli.eventsSince Cli.parseDuration Cli.requestedSince
  rcases hnum : parseI64 (s.takeWhile Char.isDigit) with _ | num
  · simp [hnum]
  rcases hunit : Cli.unitSeconds (s.dropWhile Char.isDigit) with _ | unit
  · simp [hnum, hunit]
  simp only [hnum, hunit, Option.bind_some, Option.map_some, Option.mem_some_iff, forall_eq']
  unfold timeDelta
  by_cases h : (num * unit).natAbs ≤ 9223372036854775
  · simp [if_pos h, secondsAgo_isSome]
  · refine iff_of_false ?_ fun hr => h hr.natAbs_le
    simp [if_neg h]

/-- No cutoff panics exactly where the instant it names is within the range of instants. -/
theorem cutoffs_iff (planner : Sqlite.Planner Sql.ColumnName) (db : Sql.Db) (now : DateTime) :
    (∀ params, handleQueryEvents planner db now params ≠ .panicked ↔
        ∀ seconds ∈ requestedSince params, now.Reaches seconds) ∧
      (∀ req, queryEvents planner db now req ≠ .error .panicked ↔
        ∀ seconds ∈ req.since, now.Reaches seconds) ∧
      (∀ s, (Cli.eventsSince now (some s)).isSome ↔
        ∀ seconds ∈ Cli.requestedSince s, now.Reaches seconds) ∧
      ∀ days, (PruneConfig.cutoffTimestamp ⟨days⟩ now).isSome ↔ now.Reaches (days * 86400) :=
  ⟨fun _ => handleQueryEvents_ne_panicked, fun _ => queryEvents_ne_panicked,
    fun _ => eventsSince_isSome, fun _ => timeDelta_bind_isSome⟩

/-- The greatest `i64`. -/
def farSince : List (String × JsonValue) := [("since", .number (.posInt 9223372036854775807))]

theorem farSince_panics :
    handleQueryEvents Sql.rowidOrder .empty .epoch (some (.object farSince)) = .panicked ∧
      queryEvents Sql.rowidOrder .empty .epoch ⟨none, some 9223372036854775807, none, none⟩ =
        .error .panicked ∧
      Cli.eventsSince .epoch (some "9223372036854775807s".toList) = none ∧
      PruneConfig.cutoffTimestamp ⟨9223372036854775807⟩ .epoch = none :=
  ⟨by decide +kernel, by decide +kernel, by decide +kernel, by decide +kernel⟩

end AmbientFs
