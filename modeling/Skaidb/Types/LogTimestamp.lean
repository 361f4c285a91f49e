import Skaidb.Codec.Padded
import Skaidb.Data.Calendar

/-!
# Log timestamps

A log line starts with the time at which it was written, as a date and a time of the day in
UTC with milliseconds. The date is computed from the days since 1970 by integer division, and
the digits are pushed one after another. Texts are lists of characters; where the program would
leave the buffer of a number there is no result.
-/

namespace Skaidb

open Codec Calendar

namespace LogTimestamp

/-! ## Numbers -/

/-- The last decimal digit of a number, as the character that `push_u64` writes for it. -/
def digit (v : ℕ) : Char := Char.ofNat (48 + v % 10)

/-- Push digits from a power of ten downwards. -/
def pushDigits (out : List Char) (v div : ℕ) : List Char :=
  if _h : 0 < div then pushDigits (out ++ [digit (v / div)]) v (div / 10) else out
termination_by div
decreasing_by omega

/-- Fill a buffer with digits from an index downwards; the index of the first digit is
returned. -/
def fillDigits : ℕ → ℕ → List Char → Option (ℕ × List Char)
  | 0, _, _ => none
  | i + 1, v, buf =>
    let buf := buf.set i (digit v)
    if v / 10 = 0 then some (i, buf) else fillDigits i (v / 10) buf

/-- Push a number with zeros in front of it up to a width. -/
def pushPadded (out : List Char) (n : ℤ) (width : ℕ) : Option (List Char) :=
  if 0 ≤ n ∧ (1 ≤ width ∧ width ≤ 4) ∧ n.toNat < [1, 10, 100, 1000, 10000].getD width 0 then
    some (pushDigits out n.toNat ([1, 10, 100, 1000].getD (width - 1) 0))
  else do
    let out := if n < 0 then out ++ ['-'] else out
    let (i, buf) ← fillDigits 20 n.natAbs (List.replicate 20 '0')
    if 20 < width then none
    else some (out ++ buf.drop (min i (20 - width)))

/-! ## The date and the line -/

/-- The year, the month and the day of a day counted from 1970 on. -/
def civilFromDays (days : ℤ) : ℤ × ℤ × ℤ :=
  let z := days + 719468
  let era := (if 0 ≤ z then z else z - 146096).tdiv 146097
  let doe := z - era * 146097
  let yoe := (doe - doe.tdiv 1460 + doe.tdiv 36524 - doe.tdiv 146096).tdiv 365
  let y := yoe + era * 400
  let doy := doe - (365 * yoe + yoe.tdiv 4 - yoe.tdiv 100)
  let mp := (5 * doy + 2).tdiv 153
  let d := doy - (153 * mp + 2).tdiv 5 + 1
  let m := if mp < 10 then mp + 3 else mp - 9
  let y := if m ≤ 2 then y + 1 else y
  (y, m, d)

/-- Append the timestamp of a millisecond counted from 1970 on. -/
def logTimestampInto (out : List Char) (ms : ℤ) : Option (List Char) := do
  let days := ms / 86400000
  let rem := ms % 86400000
  let (y, m, d) := civilFromDays days
  let secs := rem.tdiv 1000
  let msPart := rem.tmod 1000
  let hh := secs.tdiv 3600
  let mm := (secs.tmod 3600).tdiv 60
  let ss := secs.tmod 60
  let out ← pushPadded out y 4
  let out ← pushPadded (out ++ ['-']) m 2
  let out ← pushPadded (out ++ ['-']) d 2
  let out ← pushPadded (out ++ ['T']) hh 2
  let out ← pushPadded (out ++ [':']) mm 2
  let out ← pushPadded (out ++ [':']) ss 2
  let out ← pushPadded (out ++ ['.']) msPart 3
  some (out ++ ['Z'])

/-! ## Pushed digits -/

/-- The digit that is pushed is the digit of the number. -/
theorem digit_eq (v : ℕ) : digit v = Nat.digitChar (v % 10) := by
  have htable : ∀ d < 10, Char.ofNat (48 + d) = Nat.digitChar d := by decide
  exact htable _ (Nat.mod_lt v (by decide))

/-- The loop over powers of ten pushes every digit down to the last one, zeros in front included. -/
theorem pushDigits_pow (out : List Char) (v width : ℕ) :
    pushDigits out v (10 ^ width) = out ++ fixedDigits (width + 1) v := by
  induction width generalizing out with
  | zero =>
    rw [pushDigits, dif_pos (by decide), pushDigits, dif_neg (by decide), digit_eq]
    simp [fixedDigits]
  | succ width ih =>
    rw [pushDigits, dif_pos (Nat.pow_pos (by decide)), pow_succ,
      Nat.mul_div_cancel _ (by decide), ih, digit_eq, fixedDigits_succ (width + 1), pow_succ]
    simp

/-- The buffer is filled with all digits of the number. -/
theorem fillDigits_eq {i v : ℕ} (hi : 0 < i) (h : v < 10 ^ i) (back : List Char) :
    fillDigits i v (List.replicate i '0' ++ back) =
      some (i - (Nat.toDigits 10 v).length, padded i v ++ back) := by
  induction i generalizing v back with
  | zero => cases hi
  | succ i ih =>
    have hset : (List.replicate (i + 1) '0' ++ back).set i (digit v) =
        List.replicate i '0' ++ ([digit v] ++ back) := by
      simp [List.replicate_succ']
    rw [fillDigits, hset, digit_eq]
    by_cases hv : v < 10
    · simp [padded, List.leftpad, Nat.toDigits_of_lt_base hv, Nat.mod_eq_of_lt hv, hv]
    · have hdiv : v / 10 < 10 ^ i := Nat.div_lt_of_lt_mul (by rwa [pow_succ'] at h)
      have hpos : 0 < i := by
        by_contra hzero
        rw [Nat.eq_zero_of_not_pos hzero] at h
        exact hv h
      have hdigits : Nat.toDigits 10 v = Nat.toDigits 10 (v / 10) ++ [Nat.digitChar (v % 10)] :=
        Nat.toDigits_of_base_le (by decide) (Nat.not_lt.mp hv)
      rw [if_neg (by omega), ih hpos hdiv, padded, padded, hdigits, leftpad_append_singleton]
      simp

/-- **A number that is not negative is pushed with its padding.** -/
theorem pushPadded_natCast (out : List Char) {n width : ℕ} (hwidth : 0 < width ∧ width ≤ 20)
    (h : n < 10 ^ 20) : pushPadded out n width = some (out ++ padded width n) := by
  unfold pushPadded
  split
  next hfast =>
    obtain ⟨-, ⟨hlow, hhigh⟩, hlt⟩ := hfast
    have hrange : [1, 10, 100, 1000, 10000].getD width 0 = 10 ^ width ∧
        [1, 10, 100, 1000].getD (width - 1) 0 = 10 ^ (width - 1) := by
      interval_cases width <;> exact ⟨rfl, rfl⟩
    rw [Int.toNat_natCast, hrange.1] at hlt
    rw [Int.toNat_natCast, hrange.2, pushDigits_pow, Nat.sub_add_cancel hlow,
      padded_eq_fixedDigits hlow hlt]
  next =>
    have hbuf := fillDigits_eq (by decide : 0 < 20) h []
    have hlen : (Nat.toDigits 10 n).length ≤ 20 := by
      have hpad := congrArg List.length (padded_eq_fixedDigits (by decide : 0 < 20) h)
      rw [padded, List.length_leftpad, length_fixedDigits] at hpad
      omega
    rw [List.append_nil, List.append_nil] at hbuf
    rw [if_neg (by omega), Int.natAbs_natCast, hbuf]
    have hdrop : (padded 20 n).drop (min (20 - (Nat.toDigits 10 n).length) (20 - width)) =
        padded width n := by
      -- The buffer keeps as many zeros as the width asks for.
      rw [padded, List.leftpad, List.drop_append_of_le_length (by simp), List.drop_replicate,
        padded, List.leftpad]
      congr 2
      omega
    simp only [Option.bind_eq_bind, Option.bind_some, if_neg (Nat.not_lt.mpr hwidth.2), hdrop]

/-! ## The date -/

/-- The year of an era that the code computes with signed division is the one of the calendar. -/
theorem yoe_natCast {doe : ℕ} (h : doe ≤ 146096) :
    ((doe : ℤ) - (doe : ℤ).tdiv 1460 + (doe : ℤ).tdiv 36524 - (doe : ℤ).tdiv 146096).tdiv 365 =
      (eraYear doe : ℕ) := by
  have hdays : (doe : ℤ) - (doe : ℤ).tdiv 1460 + (doe : ℤ).tdiv 36524 - (doe : ℤ).tdiv 146096 =
      (withoutLeapDays doe : ℕ) := by
    simp (disch := omega) only [Int.tdiv_eq_ediv_of_nonneg]
    unfold withoutLeapDays
    omega
  rw [hdays]
  rfl

/-- The day of a year that the code computes with signed division is the one of the calendar. -/
theorem doy_natCast {doe yoe : ℕ} (h : eraYearStart yoe ≤ doe) :
    (doe : ℤ) - (365 * (yoe : ℤ) + (yoe : ℤ).tdiv 4 - (yoe : ℤ).tdiv 100) =
      (doe - eraYearStart yoe : ℕ) := by
  simp (disch := omega) only [Int.tdiv_eq_ediv_of_nonneg]
  unfold eraYearStart at h ⊢
  omega

/-- **The date that is computed is the date of the day.** -/
theorem civilFromDays_natCast (n : ℕ) :
    ∃ date : Date, date.dayNumber = daysBeforeYear 1970 + n ∧
      civilFromDays n = ((date.year : ℤ), (date.month : ℤ), (date.day : ℤ)) := by
  obtain ⟨era, doe, hera, hdoe⟩ : ∃ era doe, n + 719468 = 146097 * era + doe ∧ doe ≤ 146096 :=
    ⟨(n + 719468) / 146097, (n + 719468) % 146097, by omega, by omega⟩
  have hstart := eraYearStart_eraYear_le hdoe
  have hepoch : daysBeforeYear 1970 = 719528 := by rw [daysBeforeYear_eq]
  have hlt := sub_eraYearStart_lt hdoe era
  have hbound : doe - eraYearStart (eraYear doe) < 366 := by
    have hlength := yearLength_eq (400 * era + eraYear doe + 1)
    split at hlength <;> omega
  obtain ⟨date, hnumber, hyear, hmonth, hday⟩ := exists_date_of_march hlt
  rw [days_before_march_of_era era _ (eraYear_lt hdoe)] at hnumber
  have hera' : (if 0 ≤ (n : ℤ) + 719468 then (n : ℤ) + 719468
      else (n : ℤ) + 719468 - 146096).tdiv 146097 = era := by
    rw [if_pos (by omega), Int.tdiv_eq_ediv_of_nonneg (by omega)]
    omega
  have hdoe' : (n : ℤ) + 719468 - era * 146097 = (doe : ℕ) := by omega
  refine ⟨date, by omega, ?_⟩
  simp only [civilFromDays, hera', hdoe', yoe_natCast hdoe, doy_natCast hstart]
  -- What is left is the month, found in the days of the year.
  generalize doe - eraYearStart (eraYear doe) = doy at hyear hmonth hday hbound
  obtain ⟨mp, hmp⟩ : ∃ mp, mp = (5 * doy + 2) / 153 := ⟨_, rfl⟩
  have hmonth' : (5 * (doy : ℤ) + 2).tdiv 153 = mp := by
    rw [Int.tdiv_eq_ediv_of_nonneg (by omega)]
    omega
  have hday' : (doy : ℤ) - (153 * (mp : ℤ) + 2).tdiv 5 + 1 = (doy - marchStart mp + 1 : ℕ) := by
    rw [Int.tdiv_eq_ediv_of_nonneg (by omega)]
    unfold marchStart
    omega
  rw [← hmp] at hyear hmonth hday
  rw [hmonth', hday', hyear, hmonth, hday]
  by_cases hspring : mp < 10
  · simp only [if_pos hspring, if_pos (show (mp : ℤ) < 10 by omega),
      if_neg (show ¬ (mp : ℤ) + 3 ≤ 2 by omega), Prod.mk.injEq, and_true]
    omega
  · simp only [if_neg hspring, if_neg (show ¬ (mp : ℤ) < 10 by omega),
      if_pos (show (mp : ℤ) - 9 ≤ 2 by omega), Prod.mk.injEq, and_true]
    omega

/-! ## The line -/

/-- The ISO 8601 text of a moment, to the millisecond and ending in `Z`. -/
def isoText (t : Moment) : List Char :=
  padded 4 t.date.year ++ '-' :: (padded 2 t.date.month ++ '-' :: (padded 2 t.date.day ++
    'T' :: (padded 2 t.hour ++ ':' :: (padded 2 t.minute ++ ':' :: (padded 2 t.second ++
      '.' :: (padded 3 t.milli ++ ['Z']))))))

/-- Two digits are enough for everything between the year and the milliseconds. -/
theorem twoDigits (t : Moment) : t.date.month < 10 ^ 2 ∧ t.date.day < 10 ^ 2 ∧ t.hour < 10 ^ 2 ∧
    t.minute < 10 ^ 2 ∧ t.second < 10 ^ 2 := by
  have hmonth := t.date.month_le
  have hday := t.date.day_le.trans (monthLength_le _ _)
  have hhour := t.hour_lt
  have hminute := t.minute_lt
  have hsecond := t.second_lt
  omega

/-- Four digits are enough for the years before 10000. -/
theorem length_isoText {t : Moment} (h : t.date.year < 10000) : (isoText t).length = 24 := by
  obtain ⟨hmonth, hday, hhour, hminute, hsecond⟩ := twoDigits t
  rw [isoText, padded_eq_fixedDigits (by decide) h, padded_eq_fixedDigits (by decide) hmonth,
    padded_eq_fixedDigits (by decide) hday, padded_eq_fixedDigits (by decide) hhour,
    padded_eq_fixedDigits (by decide) hminute, padded_eq_fixedDigits (by decide) hsecond,
    padded_eq_fixedDigits (by decide) t.milli_lt]
  simp

/-- **Before the year 10000, texts are ordered as moments are.** -/
theorem compare_isoText {a b : Moment} (ha : a.date.year < 10000) (hb : b.date.year < 10000) :
    compare (utf8Bytes (isoText a)) (utf8Bytes (isoText b)) = a.order b := by
  obtain ⟨hmonth, hday, hhour, hminute, hsecond⟩ := twoDigits a
  obtain ⟨hmonth', hday', hhour', hminute', hsecond'⟩ := twoDigits b
  have hnone : Ranks (utf8Bytes []) (utf8Bytes []) .eq := Ranks.nil
  have hmilli := Ranks.padded (by decide : 0 < 3) a.milli_lt b.milli_lt 'Z' hnone
  have htime := Ranks.padded (by decide) hhour hhour' ':'
    (Ranks.padded (by decide) hminute hminute' ':'
      (Ranks.padded (by decide) hsecond hsecond' '.' hmilli))
  have hdate := Ranks.padded (by decide : 0 < 4) ha hb '-'
    (Ranks.padded (by decide) hmonth hmonth' '-'
      (Ranks.padded (by decide) hday hday' 'T' htime))
  rw [isoText, isoText, hdate.compare_eq, Moment.order, Date.order]
  simp only [Ordering.then_assoc, Ordering.then_eq]

/-- A moment before the first of January 10000 has a year of four digits. -/
theorem year_lt_of_millis {t : Moment} (h : t.millis < daysBeforeYear 10000 * 86400000) :
    t.date.year < 10000 := by
  by_contra hge
  have hmono := daysBeforeYear_mono (Nat.not_lt.mp hge)
  have hbefore := t.date.daysBeforeYear_le
  rw [Moment.millis] at h
  omega

/-- The moment of a millisecond counted from 1970 on is the one that is written. -/
theorem logTimestampInto_natCast (out : List Char) {ms : ℕ} (h : ms < 2 ^ 63) :
    ∃ t : Moment, t.millis = daysBeforeYear 1970 * 86400000 + ms ∧
      logTimestampInto out ms = some (out ++ isoText t) := by
  obtain ⟨date, hnumber, hcivil⟩ := civilFromDays_natCast (ms / 86400000)
  obtain ⟨rem, hrem⟩ : ∃ rem, rem = ms % 86400000 := ⟨_, rfl⟩
  have hdays : (ms : ℤ) / 86400000 = (ms / 86400000 : ℕ) := rfl
  have hrest : (ms : ℤ) % 86400000 = rem := by omega
  have hmilli : (rem : ℤ).tmod 1000 = (rem % 1000 : ℕ) := rfl
  have hhour : ((rem : ℤ).tdiv 1000).tdiv 3600 = (rem / 1000 / 3600 : ℕ) := rfl
  have hminute : (((rem : ℤ).tdiv 1000).tmod 3600).tdiv 60 = (rem / 1000 % 3600 / 60 : ℕ) := rfl
  have hsecond : ((rem : ℤ).tdiv 1000).tmod 60 = (rem / 1000 % 60 : ℕ) := rfl
  have hyear : date.year < 10 ^ 20 := by
    have hle := daysBeforeYear_eq date.year
    have hbefore := date.daysBeforeYear_le
    have hepoch : daysBeforeYear 1970 = 719528 := by rw [daysBeforeYear_eq]
    omega
  have hmonth := date.month_le
  have hday := date.day_le.trans (monthLength_le _ _)
  refine ⟨⟨date, rem / 1000 / 3600, rem / 1000 % 3600 / 60, rem / 1000 % 60, rem % 1000,
    by omega, by omega, by omega, by omega⟩, ?_, ?_⟩
  · change (((date.dayNumber * 24 + rem / 1000 / 3600) * 60 + rem / 1000 % 3600 / 60) * 60 +
      rem / 1000 % 60) * 1000 + rem % 1000 = _
    rw [hnumber]
    omega
  · simp only [logTimestampInto, hdays, hrest, hcivil, hmilli, hhour, hminute, hsecond,
      Option.bind_eq_bind]
    rw [pushPadded_natCast _ (by decide) hyear, Option.bind_some,
      pushPadded_natCast _ (by decide) (by omega), Option.bind_some,
      pushPadded_natCast _ (by decide) (by omega), Option.bind_some,
      pushPadded_natCast _ (by decide) (by omega), Option.bind_some,
      pushPadded_natCast _ (by decide) (by omega), Option.bind_some,
      pushPadded_natCast _ (by decide) (by omega), Option.bind_some,
      pushPadded_natCast _ (by decide) (by omega), Option.bind_some, isoText]
    simp

/-- Milliseconds that are not negative compare as the natural numbers they are. -/
theorem compare_natCast (m n : ℕ) : compare (m : ℤ) (n : ℤ) = compare m n := by
  change compareOfLessAndEq _ _ = compareOfLessAndEq _ _
  simp only [compareOfLessAndEq, Nat.cast_lt, Nat.cast_inj]

/-- **Log timestamps.** The text of a millisecond is the date and the time of the day of the
moment that lies as many milliseconds after the start of 1970. Before the year 10000 it has 24
characters, and the order of the texts is the order of time. -/
theorem logTimestampInto_correct (out : List Char) :
    (∀ ms : ℤ, 0 ≤ ms → ms < 2 ^ 63 →
      ∃ t : Moment, (t.millis : ℤ) = daysBeforeYear 1970 * 86400000 + ms ∧
        logTimestampInto out ms = some (out ++ isoText t)) ∧
    ∀ ms ms' : ℤ, 0 ≤ ms → 0 ≤ ms' →
      ms < ((daysBeforeYear 10000 : ℤ) - daysBeforeYear 1970) * 86400000 →
      ms' < ((daysBeforeYear 10000 : ℤ) - daysBeforeYear 1970) * 86400000 →
      ∃ text text', logTimestampInto [] ms = some text ∧ logTimestampInto [] ms' = some text' ∧
        text.length = 24 ∧ compare (utf8Bytes text) (utf8Bytes text') = compare ms ms' := by
  constructor
  · intro ms hpos hlt
    lift ms to ℕ using hpos
    obtain ⟨t, hmillis, htext⟩ := logTimestampInto_natCast out (show ms < 2 ^ 63 by omega)
    exact ⟨t, by rw [hmillis]; push_cast; rfl, htext⟩
  · intro ms ms' hpos hpos' hlt hlt'
    lift ms to ℕ using hpos
    lift ms' to ℕ using hpos'
    have hepoch : daysBeforeYear 1970 = 719528 := by rw [daysBeforeYear_eq]
    have hend : daysBeforeYear 10000 = 3652425 := by rw [daysBeforeYear_eq]
    rw [hepoch, hend] at hlt hlt'
    obtain ⟨t, hmillis, htext⟩ := logTimestampInto_natCast [] (show ms < 2 ^ 63 by omega)
    obtain ⟨t', hmillis', htext'⟩ := logTimestampInto_natCast [] (show ms' < 2 ^ 63 by omega)
    have hyear : t.date.year < 10000 := year_lt_of_millis (by omega)
    have hyear' : t'.date.year < 10000 := year_lt_of_millis (by omega)
    refine ⟨isoText t, isoText t', htext, htext', length_isoText hyear, ?_⟩
    rw [compare_isoText hyear hyear', ← Moment.compare_millis, hmillis, hmillis',
      compare_add_left, compare_natCast]

/-- A moment of July 2026 is written out as its ISO text, which the calendar bounds allow. -/
theorem logTimestampInto_july :
    ∃ t : Moment, (t.millis : ℤ) = daysBeforeYear 1970 * 86400000 + 1784572933123 ∧
      logTimestampInto [] 1784572933123 = some ([] ++ isoText t) :=
  (logTimestampInto_correct []).1 1784572933123 (by decide) (by decide)

example : logTimestampInto [] 1784572933123 = some "2026-07-20T18:42:13.123Z".toList := by
  decide +kernel

end LogTimestamp

end Skaidb
