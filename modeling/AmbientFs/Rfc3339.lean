import AmbientFs.Event
import AmbientFs.Lib.Decimal
import AmbientFs.Lib.Gregorian

/-!
# RFC 3339 text

The text `to_rfc3339` prints for an instant and `parse_from_rfc3339` reads back. The event store
keeps instants as this text and compares them as text, byte by byte, which for text of one byte a
character is the order of the characters.
-/

namespace AmbientFs

open Decimal Gregorian

/-- The day 1970-01-01. -/
def epochDay : ℤ := 719528

/-- A year outside 0 to 9999 has a sign, and at least four digits. -/
def yearText (year : ℤ) : List Char :=
  if 0 ≤ year ∧ year ≤ 9999 then padded 4 year.toNat
  else (if year < 0 then '-' else '+') :: (Nat.toDigits 10 year.natAbs).leftpad 4 '0'

/-- The shortest exact fraction of none, three, six or nine digits. -/
def fractionText (nanos : ℕ) : List Char :=
  if nanos = 0 then []
  else if nanos % 1000000 = 0 then '.' :: padded 3 (nanos / 1000000)
  else if nanos % 1000 = 0 then '.' :: padded 6 (nanos / 1000)
  else '.' :: padded 9 nanos

def utcText : List Char := ['+', '0', '0', ':', '0', '0']

def rfc3339Text (d : Date) (second nanos : ℕ) : List Char :=
  yearText d.year ++ '-' :: (padded 2 d.month ++ '-' :: (padded 2 d.day ++
    'T' :: (padded 2 (second / 3600) ++ ':' :: (padded 2 (second / 60 % 60) ++
    ':' :: (padded 2 (second % 60) ++ (fractionText nanos ++ utcText))))))

/-! ## Reading it back -/

/-- A number of so many digits and the character after it. -/
def field (w : ℕ) (sep : Char → Bool) (s : List Char) : Option (ℕ × List Char) :=
  match number w 0 s with
  | some (n, c :: s) => if sep c then some (n, s) else none
  | _ => none

/-- Nanoseconds after a point, if there is one. Digits after the ninth are skipped. -/
def nanosecond : List Char → Option (ℕ × List Char)
  | '.' :: s =>
    let ds := s.takeWhile fun c => (digitVal c).isSome
    if ds = [] then none
    else
      match number (min ds.length 9) 0 s with
      | none => none
      | some (n, _) => some (n * 10 ^ (9 - min ds.length 9), s.drop ds.length)
  | s => some (0, s)

/-- An offset from UTC in seconds, at the end of the text. -/
def timezoneOffset : List Char → Option ℤ
  | [] => none
  | c :: s =>
    if c = 'Z' ∨ c = 'z' then if s = [] then some 0 else none
    else do
      let sign : ℤ ← if c = '+' then some 1 else if c = '-' ∨ c = '−' then some (-1) else none
      let (h, s) ← field 2 (· = ':') s
      let (m, s) ← number 2 0 s
      if s = [] ∧ m < 60 ∧ h < 24 then some (sign * (3600 * h + 60 * m)) else none

namespace DateTime

/-- The date in UTC. -/
def date (t : DateTime) : Date := .ofDays (t.timestamp / 86400 + epochDay)

def secondOfDay (t : DateTime) : ℕ := (t.timestamp % 86400).toNat

def subsecNanos (t : DateTime) : ℕ := (t.nanos % nanosPerSec).toNat

def toRfc3339 (t : DateTime) : List Char := rfc3339Text t.date t.secondOfDay t.subsecNanos

def ofNanos (n : ℤ) : Option DateTime :=
  if h : minSecs * nanosPerSec ≤ n ∧ n < (maxSecs + 1) * nanosPerSec then some ⟨n, h⟩ else none

/-- `parse_from_rfc3339`, in UTC. A second of 60 is not represented. -/
def parseFromRfc3339 (s : List Char) : Option DateTime := do
  let (year, s) ← field 4 (· = '-') s
  let (month, s) ← field 2 (· = '-') s
  let (day, s) ← field 2 (fun c => c = 'T' ∨ c = 't' ∨ c = ' ') s
  let (hour, s) ← field 2 (· = ':') s
  let (minute, s) ← field 2 (· = ':') s
  let (second, s) ← number 2 0 s
  let (nanos, s) ← nanosecond s
  let offset ← timezoneOffset s
  let date : Date := ⟨year, month, day⟩
  if date.Ok ∧ hour < 24 ∧ minute < 60 ∧ second < 60 then
    ofNanos (((date.toDays - epochDay) * 86400 + 3600 * hour + 60 * minute + second - offset) *
      nanosPerSec + nanos)
  else none

/-- The years whose text has four digits. -/
def FourDigitYear (t : DateTime) : Prop := 0 ≤ t.date.year ∧ t.date.year ≤ 9999

instance (t : DateTime) : Decidable t.FourDigitYear := inferInstanceAs (Decidable (_ ∧ _))

end DateTime

end AmbientFs
