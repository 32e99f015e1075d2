import AmbientFs.Query

/-!
# Cutoffs of the command line

Since when events are listed, and before when they are pruned. A constructor of `TimeDelta` panics
where the duration is out of its range, and a subtraction from the clock where the instant is out of
that of `DateTime`. There is no value then.
-/

namespace AmbientFs

/-- The seconds in a number of units, as a `TimeDelta`. -/
def timeDelta (n unit : ℤ) : Option ℤ :=
  if (n * unit).natAbs ≤ 9223372036854775 then some (n * unit) else none

/-- `str::parse::<i64>` of a text of digits. -/
def parseI64 (digits : List Char) : Option ℤ :=
  if digits ≠ [] ∧ Nat.ofDigitChars 10 digits 0 < 2 ^ 63 then some (Nat.ofDigitChars 10 digits 0)
  else none

namespace Cli

def unitSeconds (suffix : List Char) : Option ℤ :=
  match String.ofList suffix with
  | "s" | "sec" => some 1
  | "m" | "min" => some 60
  | "h" | "hour" => some 3600
  | "d" | "day" => some 86400
  | _ => none

/-- Parse duration string like "1h", "30m", "7d", in seconds. -/
def parseDuration (s : List Char) : Option (Option ℤ) :=
  match parseI64 (s.takeWhile Char.isDigit) with
  | none => some none
  | some num =>
    match unitSeconds (s.dropWhile Char.isDigit) with
    | none => some none
    | some unit => (timeDelta num unit).map some

/-- What `events` makes of `--since`. A text that is no duration is as if it were not given. -/
def eventsSince (now : DateTime) (since : Option (List Char)) : Option (Option DateTime) :=
  match since with
  | none => some none
  | some s =>
    match parseDuration s with
    | none => none
    | some none => some none
    | some (some seconds) => (secondsAgo now seconds).map some

end Cli

/-- Configuration for event pruning. -/
structure PruneConfig where
  retentionDays : ℤ := 90

def PruneConfig.cutoffTimestamp (c : PruneConfig) (now : DateTime) : Option DateTime :=
  (timeDelta c.retentionDays 86400).bind fun delta =>
    DateTime.ofNanos (now.nanos - delta * nanosPerSec)

end AmbientFs
