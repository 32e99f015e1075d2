import AmbientFs.Lib.Utf8
import AmbientFs.Rfc3339

/-!
# The order of printed instants

Among the years of four digits text is read back as the instant it was printed for, and the
order of texts is the order of instants.
-/

namespace AmbientFs

open Decimal Gregorian

/-! ## Fractions -/

/-- The signs come before the digits. -/
theorem cons_lt_padded {c : Char} (hc : c < '0') {w n : ℕ} (hw : w ≠ 0) (s t : List Char) :
    c :: s < padded w n ++ t := by
  obtain ⟨w, rfl⟩ := Nat.exists_eq_succ_of_ne_zero hw
  have hdigit : ∀ d < 10, '0' ≤ Nat.digitChar d := by decide
  rw [padded, List.cons_append, List.cons_lt_cons_iff]
  exact .inl (lt_of_lt_of_le hc (hdigit _ (Nat.mod_lt _ (by omega))))

/-- Numbers split into thousands. -/
theorem fractionText_eq (n : ℕ) : fractionText n =
    if n = 0 then []
    else '.' :: (padded 3 (n / 1000000) ++ if n % 1000000 = 0 then []
      else padded 3 (n / 1000 % 1000) ++ if n % 1000 = 0 then [] else padded 3 (n % 1000)) := by
  have h6 : padded 6 (n / 1000) = padded 3 (n / 1000000) ++ padded 3 (n / 1000 % 1000) := by
    rw [padded_add 3 3, Nat.div_div_eq_div_mul, ← padded_mod 3 (n / 1000)]
    rfl
  have h9 : padded 9 n = padded 6 (n / 1000) ++ padded 3 (n % 1000) := by
    rw [padded_add 6 3, ← padded_mod 3 n]
    rfl
  unfold fractionText
  split_ifs with h0 h1 h2
  · rfl
  · rw [List.append_nil]
  · rw [h6, List.append_nil]
  · rw [h9, h6, List.append_assoc]

theorem fractionText_lt {m n : ℕ} (h : m < n) (hn : n < 1000000000) :
    fractionText m ++ utcText < fractionText n ++ utcText := by
  have hthree : ∀ {a b : ℕ} (s t : List Char), a < b → b < 1000 →
      padded 3 a ++ s < padded 3 b ++ t := fun s t hab hb => padded_append_lt hab hb s t
  rw [fractionText_eq, fractionText_eq, if_neg (show n ≠ 0 by omega)]
  by_cases hm0 : m = 0
  · rw [if_pos hm0]
    show '+' :: _ < '.' :: _
    rw [List.cons_lt_cons_iff]
    exact .inl (by decide)
  rw [if_neg hm0, List.cons_append, List.cons_append, List.cons_lt_cons_iff]
  refine .inr ⟨rfl, ?_⟩
  rw [List.append_assoc, List.append_assoc]
  rcases Nat.lt_or_eq_of_le (Nat.div_le_div_right (c := 1000000) h.le) with hlt | heq
  · exact hthree _ _ hlt (by omega)
  rw [heq]
  apply List.append_left_lt
  rw [if_neg (show n % 1000000 ≠ 0 by omega)]
  by_cases hm1 : m % 1000000 = 0
  · rw [if_pos hm1, List.append_assoc]
    exact cons_lt_padded (by decide) (by decide) _ _
  rw [if_neg hm1, List.append_assoc, List.append_assoc]
  rcases Nat.lt_or_eq_of_le (show m / 1000 % 1000 ≤ n / 1000 % 1000 by omega) with hlt | heq'
  · exact hthree _ _ hlt (by omega)
  rw [heq']
  apply List.append_left_lt
  rw [if_neg (show n % 1000 ≠ 0 by omega)]
  by_cases hm2 : m % 1000 = 0
  · rw [if_pos hm2]
    exact cons_lt_padded (by decide) (by decide) _ _
  rw [if_neg hm2]
  exact hthree _ _ (by omega) (by omega)

/-! ## The order -/

theorem rfc3339Text_lt_of_before {d e : Date} (hd : 0 ≤ d.year) (he : e.year ≤ 9999)
    (hok : e.Ok) (h : d.Before e) (s s' n n' : ℕ) :
    rfc3339Text d s n < rfc3339Text e s' n' := by
  have hmonth := hok.month_le
  have hday := hok.day_le
  have hyears : yearText d.year = padded 4 d.year.toNat ∧
      yearText e.year = padded 4 e.year.toNat := by
    unfold Date.Before at h
    unfold yearText
    rw [if_pos (by omega), if_pos (by omega)]
    exact ⟨rfl, rfl⟩
  unfold rfc3339Text
  rw [hyears.1, hyears.2]
  rcases h with hy | ⟨hy, hm | ⟨hm, hlt⟩⟩
  · exact padded_append_lt (by omega) (by omega) _ _
  · rw [hy]
    apply List.append_left_lt
    rw [List.cons_lt_cons_self]
    exact padded_append_lt hm (by omega) _ _
  · rw [hy, hm]
    apply List.append_left_lt
    rw [List.cons_lt_cons_self]
    apply List.append_left_lt
    rw [List.cons_lt_cons_self]
    exact padded_append_lt hlt (by omega) _ _

theorem rfc3339Text_lt_of_second {d : Date} {s s' n n' : ℕ} (hs' : s' < 86400)
    (h : s < s' ∨ s = s' ∧ n < n') (hn' : n' < 1000000000) :
    rfc3339Text d s n < rfc3339Text d s' n' := by
  unfold rfc3339Text
  apply List.append_left_lt
  rw [List.cons_lt_cons_self]
  apply List.append_left_lt
  rw [List.cons_lt_cons_self]
  apply List.append_left_lt
  rw [List.cons_lt_cons_self]
  have hparts : s / 3600 < s' / 3600 ∨ s / 3600 = s' / 3600 ∧
      (s / 60 % 60 < s' / 60 % 60 ∨ s / 60 % 60 = s' / 60 % 60 ∧
        (s % 60 < s' % 60 ∨ s % 60 = s' % 60 ∧ n < n')) := by
    omega
  rcases hparts with hh | ⟨hh, hm | ⟨hm, hsec | ⟨hsec, hn⟩⟩⟩
  · exact padded_append_lt hh (by omega) _ _
  · rw [hh]
    apply List.append_left_lt
    rw [List.cons_lt_cons_self]
    exact padded_append_lt hm (by omega) _ _
  · rw [hh, hm]
    apply List.append_left_lt
    rw [List.cons_lt_cons_self]
    apply List.append_left_lt
    rw [List.cons_lt_cons_self]
    exact padded_append_lt hsec (by omega) _ _
  · rw [hh, hm, hsec]
    apply List.append_left_lt
    rw [List.cons_lt_cons_self]
    apply List.append_left_lt
    rw [List.cons_lt_cons_self]
    apply List.append_left_lt
    exact fractionText_lt hn hn'

namespace DateTime

theorem secondOfDay_lt (t : DateTime) : t.secondOfDay < 86400 := by
  unfold secondOfDay
  omega

theorem subsecNanos_lt (t : DateTime) : t.subsecNanos < 1000000000 := by
  unfold subsecNanos nanosPerSec
  omega

theorem date_ok (t : DateTime) : t.date.Ok := (Date.ofDays_spec _).1

theorem toRfc3339_lt {t t' : DateTime} (h : t.FourDigitYear) (h' : t'.FourDigitYear)
    (hlt : t.nanos < t'.nanos) : t.toRfc3339 < t'.toRfc3339 := by
  unfold toRfc3339
  have hparts : t.timestamp / 86400 < t'.timestamp / 86400 ∨
      t.timestamp / 86400 = t'.timestamp / 86400 ∧ (t.secondOfDay < t'.secondOfDay ∨
        t.secondOfDay = t'.secondOfDay ∧ t.subsecNanos < t'.subsecNanos) := by
    unfold secondOfDay subsecNanos timestamp nanosPerSec
    omega
  rcases hparts with hday | ⟨hday, hrest⟩
  · exact rfc3339Text_lt_of_before h.1 h'.2 t'.date_ok (Date.ofDays_before (by omega)) _ _ _ _
  · have hdate : t.date = t'.date := by
      unfold date
      rw [hday]
    rw [hdate]
    exact rfc3339Text_lt_of_second t'.secondOfDay_lt hrest t'.subsecNanos_lt

theorem toRfc3339_lt_iff {t t' : DateTime} (h : t.FourDigitYear) (h' : t'.FourDigitYear) :
    t.toRfc3339 < t'.toRfc3339 ↔ t.nanos < t'.nanos := by
  refine ⟨fun hlt => ?_, toRfc3339_lt h h'⟩
  rcases lt_trichotomy t.nanos t'.nanos with hn | hn | hn
  · exact hn
  · rw [DateTime.ext hn] at hlt
    exact absurd hlt (List.lt_irrefl _)
  · exact absurd hlt (List.lt_asymm (toRfc3339_lt h' h hn))

theorem toRfc3339_le_iff {t t' : DateTime} (h : t.FourDigitYear) (h' : t'.FourDigitYear) :
    t.toRfc3339 ≤ t'.toRfc3339 ↔ t.nanos ≤ t'.nanos := by
  rw [← not_lt, toRfc3339_lt_iff h' h, not_lt]

end DateTime

/-! ## Reading back -/

theorem field_padded {w n : ℕ} {sep : Char → Bool} {c : Char} {s : List Char} (hn : n < 10 ^ w)
    (hc : sep c = true) : field w sep (padded w n ++ c :: s) = some (n, s) := by
  unfold field
  rw [number_padded, Nat.mod_eq_of_lt hn, zero_mul, zero_add]
  exact if_pos hc

theorem nanosecond_digits {w n : ℕ} (hw : w ≠ 0) (hw9 : w ≤ 9) (hn : n < 10 ^ w) :
    nanosecond ('.' :: (padded w n ++ utcText)) = some (n * 10 ^ (9 - w), utcText) := by
  have htake : (padded w n ++ utcText).takeWhile (fun c => (digitVal c).isSome) = padded w n := by
    rw [List.takeWhile_append_of_pos fun c => isSome_digitVal_of_mem_padded]
    exact List.append_nil _
  have hne : padded w n ≠ [] := fun he => hw (by rw [← length_padded w n, he]; rfl)
  unfold nanosecond
  simp only [htake, if_neg hne, length_padded, Nat.min_eq_left hw9, number_padded,
    Nat.mod_eq_of_lt hn, zero_mul, zero_add]
  rw [List.drop_left' (length_padded w n)]

theorem nanosecond_fractionText {n : ℕ} (hn : n < 1000000000) :
    nanosecond (fractionText n ++ utcText) = some (n, utcText) := by
  unfold fractionText
  split_ifs with h0 h1 h2
  · rw [h0]
    rfl
  · rw [List.cons_append, nanosecond_digits (by decide) (by decide) (by omega)]
    congr 2
    omega
  · rw [List.cons_append, nanosecond_digits (by decide) (by decide) (by omega)]
    congr 2
    omega
  · rw [List.cons_append, nanosecond_digits (by decide) (by decide) (by omega)]
    congr 2
    omega

theorem timezoneOffset_utcText : timezoneOffset utcText = some 0 := by decide

namespace DateTime

theorem parseFromRfc3339_text {d : Date} {s n : ℕ} (hd : d.Ok) (h0 : 0 ≤ d.year)
    (h9 : d.year ≤ 9999) (hs : s < 86400) (hn : n < 1000000000) :
    parseFromRfc3339 (rfc3339Text d s n) =
      ofNanos (((d.toDays - epochDay) * 86400 + s) * nanosPerSec + n) := by
  have hmonth := hd.month_le
  have hday := hd.day_le
  have hyear : (d.year.toNat : ℤ) = d.year := Int.toNat_of_nonneg h0
  unfold parseFromRfc3339 rfc3339Text yearText
  rw [if_pos ⟨h0, h9⟩]
  rw [field_padded (by omega) (by decide)]
  simp only [Option.bind_eq_bind, Option.bind_some]
  rw [field_padded (by omega) (by decide)]
  simp only [Option.bind_some]
  rw [field_padded (by omega) (by decide)]
  simp only [Option.bind_some]
  rw [field_padded (by omega) (by decide)]
  simp only [Option.bind_some]
  rw [field_padded (by omega) (by decide)]
  simp only [Option.bind_some]
  rw [number_padded, Nat.mod_eq_of_lt (by omega)]
  simp only [Option.bind_some]
  rw [nanosecond_fractionText hn]
  simp only [Option.bind_some]
  rw [timezoneOffset_utcText]
  simp only [Option.bind_some, zero_mul, zero_add, hyear]
  rw [if_pos ⟨hd, by omega, by omega, by omega⟩]
  have hd : (⟨d.year, d.month, d.day⟩ : Date).toDays = d.toDays := rfl
  rw [hd]
  congr 1
  push_cast
  unfold nanosPerSec
  omega

theorem parseFromRfc3339_toRfc3339 {t : DateTime} (h : t.FourDigitYear) :
    parseFromRfc3339 t.toRfc3339 = some t := by
  unfold toRfc3339
  rw [parseFromRfc3339_text t.date_ok h.1 h.2 t.secondOfDay_lt t.subsecNanos_lt]
  have hdays : t.date.toDays = t.timestamp / 86400 + epochDay := (Date.ofDays_spec _).2
  have hnanos : ((t.date.toDays - epochDay) * 86400 + t.secondOfDay) * nanosPerSec +
      t.subsecNanos = t.nanos := by
    rw [hdays]
    unfold secondOfDay subsecNanos timestamp nanosPerSec
    omega
  rw [hnanos]
  exact dif_pos t.inRange

theorem toRfc3339_injective {t t' : DateTime} (h : t.FourDigitYear) (h' : t'.FourDigitYear)
    (he : t.toRfc3339 = t'.toRfc3339) : t = t' := by
  have hparse := parseFromRfc3339_toRfc3339 h
  rw [he, parseFromRfc3339_toRfc3339 h'] at hparse
  exact (Option.some.inj hparse).symm

/-- The order of the bytes is the order of time, and different instants have different bytes. -/
theorem rfc3339_order {t t' : DateTime} (h : t.FourDigitYear) (h' : t'.FourDigitYear) :
    (Utf8.encode t.toRfc3339 < Utf8.encode t'.toRfc3339 ↔ t.nanos < t'.nanos) ∧
      (Utf8.encode t.toRfc3339 = Utf8.encode t'.toRfc3339 ↔ t = t') := by
  refine ⟨Utf8.encode_lt_encode_iff.trans (toRfc3339_lt_iff h h'), fun heq => ?_, fun heq => ?_⟩
  · exact toRfc3339_injective h h' (Utf8.encode_injective heq)
  · rw [heq]

/-- The first instant whose text has a point where that of the epoch has a sign. -/
def firstMilli : DateTime := ⟨1000000, by decide⟩

theorem rfc3339_order_milli :
    (Utf8.encode epoch.toRfc3339 < Utf8.encode firstMilli.toRfc3339 ↔
      epoch.nanos < firstMilli.nanos) ∧
    (Utf8.encode epoch.toRfc3339 = Utf8.encode firstMilli.toRfc3339 ↔ epoch = firstMilli) :=
  rfc3339_order (by decide) (by decide)

end DateTime

end AmbientFs
