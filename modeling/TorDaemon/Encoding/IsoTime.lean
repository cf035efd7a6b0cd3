import TorDaemon.Library.Calendar
import TorDaemon.SharedRandom.DiskRoundTrip

/-! The text of a time (`time_fmt.c`), and how it is read (`scanf.c`). -/
namespace TorDaemon.Encoding.IsoTime
open Library.Calendar Library.NetworkOrder Library.Scanner SharedRandom

section Gmtime

/-- What is read of `struct tm`. The year is `tm_year` and 1900. -/
structure Tm where
  year : ℤ
  mon : ℕ
  mday : ℕ
  hour : ℕ
  min : ℕ
  sec : ℕ
  deriving DecidableEq

/-- The days before 1970. -/
def epochDay : ℤ := daysBeforeYear 1970

def intMin : ℤ := -2 ^ 31

/-- `gmtime_r`, which fails where the year is no `int`. -/
def gmtimeR (t : ℤ) : Option Tm :=
  let date := Date.ofDay (t / 86400 + epochDay)
  let s := (t % 86400).toNat
  if date.year - 1900 < intMin ∨ intMax < date.year - 1900 then none
  else some ⟨date.year, date.month, date.day + 1, s / 3600, s / 60 % 60, s % 60⟩

def correctTm (t : ℤ) : Option Tm → Tm
  | some r =>
    if 9999 < r.year then ⟨9999, 11, 31, 23, 59, 59⟩
    else if r.year < 1 then ⟨1, 0, 1, 0, 0, 0⟩
    else r
  | none =>
    if t < 0 then ⟨1970, 0, 1, 0, 0, 0⟩
    else if intMax ≤ t then ⟨2037, 11, 31, 23, 59, 59⟩
    else ⟨1900, 0, 0, 0, 0, 0⟩

def torGmtimeR (t : ℤ) : Tm := correctTm t (gmtimeR t)

/-- `timegm` of a month of the year, with the days and seconds carried over. -/
def timegm (tm : Tm) : ℤ :=
  (daysBeforeYear tm.year + daysBeforeMonth tm.year tm.mon + tm.mday - 1 - epochDay) * 86400 +
    tm.hour * 3600 + tm.min * 60 + tm.sec

def torTimegm (tm : Tm) : Option ℤ := if timegm tm = -1 then none else some (timegm tm)

end Gmtime

section Format

/-- `%02d` -/
def twoDigits (n : ℕ) : Bytes := [48 + UInt8.ofNat (n / 10), 48 + UInt8.ofNat (n % 10)]

/-- `%Y-%m-%d %H:%M:%S`, with a separator of its own between the day and the hour. -/
def isoText (sep : UInt8) (tm : Tm) : Bytes :=
  decimalString tm.year.toNat ++ 45 :: (twoDigits (tm.mon + 1) ++ 45 :: (twoDigits tm.mday ++
    sep :: (twoDigits tm.hour ++ 58 :: (twoDigits tm.min ++ 58 :: twoDigits tm.sec))))

def formatIsoTime (t : ℤ) : Bytes := isoText 32 (torGmtimeR t)

def formatIsoTimeNospace (t : ℤ) : Bytes := (formatIsoTime t).set 10 84

end Format

section Parse

def maxScanfWidth : ℕ := 9999

/-- `%u` with a width. -/
def scanUnsigned (width : ℕ) (buf : Bytes) : Option (ℕ × Bytes) :=
  let digits := (buf.takeWhile isDigit).take width
  if digits = [] ∨ 2 ^ 32 ≤ decimal digits then none
  else some (decimal digits, buf.drop digits.length)

/-- A character of the pattern. -/
def scanLiteral (c : UInt8) : Bytes → Option Bytes
  | [] => none
  | b :: buf => if b = c then some buf else none

/-- `%c` -/
def scanChar : Bytes → Option (UInt8 × Bytes)
  | [] => none
  | b :: buf => some (b, buf)

/-- The fields that `tor_sscanf` reads with `%u-%2u-%2u%c%2u:%2u:%2u%c`, where there are seven or
eight of them: the month is counted from 1, and the rest of the text is given too. -/
def scanIsoTime (cp : Bytes) : Option (Tm × UInt8 × Bytes) := do
  let (year, cp) ← scanUnsigned maxScanfWidth cp
  let (month, cp) ← scanUnsigned 2 (← scanLiteral 45 cp)
  let (day, cp) ← scanUnsigned 2 (← scanLiteral 45 cp)
  let (separatorChar, cp) ← scanChar cp
  let (hour, cp) ← scanUnsigned 2 cp
  let (minute, cp) ← scanUnsigned 2 (← scanLiteral 58 cp)
  let (second, cp) ← scanUnsigned 2 (← scanLiteral 58 cp)
  return (⟨year, month, day, hour, minute, second⟩, separatorChar, cp)

/-- `parse_iso_time_` -/
def parseIsoTimeImpl (strict nospace : Bool) (cp : Bytes) : Option ℤ := do
  let (tm, separatorChar, rest) ← scanIsoTime cp
  if strict ∧ rest ≠ [] then none
  else if separatorChar ≠ (if nospace then 84 else 32) then none
  else if tm.year < 1970 ∨ tm.mon < 1 ∨ 12 < tm.mon ∨ tm.mday < 1 ∨ 31 < tm.mday ∨ 23 < tm.hour ∨
      59 < tm.min ∨ 60 < tm.sec ∨ intMax ≤ tm.year then none
  else torTimegm { tm with mon := tm.mon - 1 }

def parseIsoTimeNospace (cp : Bytes) : Option ℤ := parseIsoTimeImpl true true cp

end Parse

section RoundTrip
variable {n width : ℕ} {t : ℤ} {rest : Bytes} {sep : UInt8} {tm : Tm}

/-- The times from 1970 until the year 9999, which are those that have a text of their own. -/
structure Representable (t : ℤ) : Prop where
  nonneg : 0 ≤ t
  lt : t < 253402300800

theorem twoDigits_spec (h : n < 100) :
    (∀ c ∈ twoDigits n, isDigit c = true) ∧ decimal (twoDigits n) = n := by
  have hall : ∀ n : Fin 100,
      (twoDigits n.val).all isDigit = true ∧ decimal (twoDigits n.val) = n.val := by
    decide +kernel
  obtain ⟨hdigits, hvalue⟩ := hall ⟨n, h⟩
  exact ⟨List.all_eq_true.mp hdigits, hvalue⟩

theorem scanUnsigned_digits {digits : Bytes} (hne : digits ≠ []) (hwidth : digits.length ≤ width)
    (hdigits : ∀ c ∈ digits, isDigit c = true) (hsmall : decimal digits < 2 ^ 32)
    (hrest : ∀ c ∈ rest.head?, isDigit c = false) :
    scanUnsigned width (digits ++ rest) = some (decimal digits, rest) := by
  have htake : ((digits ++ rest).takeWhile isDigit).take width = digits := by
    rw [(span_append hdigits hrest).1, List.take_of_length_le hwidth]
  unfold scanUnsigned
  rw [htake, if_neg (by simpa [hne] using hsmall), List.drop_left]

theorem scanUnsigned_twoDigits (h : n < 100) (hrest : ∀ c ∈ rest.head?, isDigit c = false) :
    scanUnsigned 2 (twoDigits n ++ rest) = some (n, rest) := by
  obtain ⟨hdigits, hvalue⟩ := twoDigits_spec h
  have hne : twoDigits n ≠ [] := List.cons_ne_nil _ _
  have hsmall : decimal (twoDigits n) < 2 ^ 32 := by omega
  have hscan : scanUnsigned 2 (twoDigits n ++ rest) = some (decimal (twoDigits n), rest) :=
    scanUnsigned_digits hne le_rfl hdigits hsmall hrest
  rwa [hvalue] at hscan

/-- The fields of a time are numbers of the length that their places have. -/
structure Fits (tm : Tm) : Prop where
  year_pos : 1000 ≤ tm.year
  year_lt : tm.year < 10000
  mon : tm.mon < 12
  mday : tm.mday ≤ 31
  hour : tm.hour < 24
  min : tm.min < 60
  sec : tm.sec < 60

section
variable (h : Fits tm)
include h

theorem length_year : (decimalString tm.year.toNat).length = 4 := by
  have hpos := h.year_pos
  have hlt := h.year_lt
  have hle : (decimalString tm.year.toNat).length ≤ 4 := by
    rw [decimalString, List.length_map, Nat.length_toDigits_le_iff (by decide) (by decide)]
    omega
  have hgt : ¬ (decimalString tm.year.toNat).length ≤ 3 := by
    rw [decimalString, List.length_map, Nat.length_toDigits_le_iff (by decide) (by decide)]
    omega
  omega

/-- The separator stands behind the ten characters of the date. -/
theorem isoText_set : (isoText 32 tm).set 10 84 = isoText 84 tm := by
  have hlength := length_year h
  obtain ⟨a, b, c, d, hyear⟩ : ∃ a b c d, decimalString tm.year.toNat = [a, b, c, d] := by
    match hs : decimalString tm.year.toNat, hlength with
    | [a, b, c, d], _ => exact ⟨a, b, c, d, rfl⟩
  unfold isoText
  rw [hyear]
  rfl

theorem scanUnsigned_year (hrest : ∀ c ∈ rest.head?, isDigit c = false) :
    scanUnsigned maxScanfWidth (decimalString tm.year.toNat ++ rest) =
      some (tm.year.toNat, rest) := by
  have hlt := h.year_lt
  have hvalue := decimal_decimalString tm.year.toNat
  have hwidth : (decimalString tm.year.toNat).length ≤ maxScanfWidth := by
    rw [length_year h]
    decide
  have hscan := scanUnsigned_digits (decimalString_isWord tm.year.toNat).nonempty hwidth
    (decimalString_digits _) (by omega) hrest
  rwa [hvalue] at hscan

theorem scanIsoTime_isoText (hsep : isDigit sep = false) :
    scanIsoTime (isoText sep tm) = some ({ tm with mon := tm.mon + 1 }, sep, []) := by
  have hminus : isDigit 45 = false := by decide
  have hcolon : isDigit 58 = false := by decide
  have hpos := h.year_pos
  have hmon := h.mon
  have hmday := h.mday
  have hhour := h.hour
  have hmin := h.min
  have hsec := h.sec
  have hscan : scanUnsigned 2 (twoDigits tm.sec ++ []) = some (tm.sec, []) :=
    scanUnsigned_twoDigits (by omega) (by simp)
  rw [List.append_nil] at hscan
  unfold scanIsoTime isoText
  rw [scanUnsigned_year h (by simp [hminus])]
  simp only [Option.bind_eq_bind, Option.bind_some, scanLiteral, if_true, scanChar]
  rw [scanUnsigned_twoDigits (by omega) (by simp [hminus])]
  simp only [Option.bind_some, if_true]
  rw [scanUnsigned_twoDigits (by omega) (by simp [hsep])]
  simp only [Option.bind_some]
  rw [scanUnsigned_twoDigits (by omega) (by simp [hcolon])]
  simp only [Option.bind_some, if_true]
  rw [scanUnsigned_twoDigits (by omega) (by simp [hcolon])]
  simp only [Option.bind_some, if_true]
  rw [hscan]
  simp only [Option.bind_some, Int.toNat_of_nonneg (show 0 ≤ tm.year by omega)]
  rfl

end

section
variable (h : Representable t)
include h

theorem gmtime_spec : Fits (torGmtimeR t) ∧ 1970 ≤ (torGmtimeR t).year ∧
    1 ≤ (torGmtimeR t).mday ∧ timegm (torGmtimeR t) = t := by
  obtain ⟨hnonneg, hlt⟩ := h
  have hepoch : epochDay = 719162 := by decide
  have hdate := Date.toDay_ofDay (t / 86400 + epochDay)
  have hlow := Date.year_lt_iff (t / 86400 + epochDay) 1970
  have hhigh := Date.year_lt_iff (t / 86400 + epochDay) 10000
  have hyears : daysBeforeYear 1970 = 719162 ∧ daysBeforeYear 10000 = 3652059 := by decide
  have hday := (Date.ofDay (t / 86400 + epochDay)).day_lt
  have hlength := monthLength_le (Date.ofDay (t / 86400 + epochDay)).year
    (Date.ofDay (t / 86400 + epochDay)).month
  have hmonth := (Date.ofDay (t / 86400 + epochDay)).month_lt
  have hgmtime : torGmtimeR t = ⟨(Date.ofDay (t / 86400 + epochDay)).year,
      (Date.ofDay (t / 86400 + epochDay)).month, (Date.ofDay (t / 86400 + epochDay)).day + 1,
      (t % 86400).toNat / 3600, (t % 86400).toNat / 60 % 60, (t % 86400).toNat % 60⟩ := by
    unfold torGmtimeR gmtimeR intMin intMax
    rw [if_neg (by omega)]
    unfold correctTm
    dsimp only
    rw [if_neg (by omega), if_neg (by omega)]
  rw [hgmtime]
  refine ⟨⟨by dsimp only; omega, by dsimp only; omega, hmonth, by dsimp only; omega,
    by dsimp only; omega, by dsimp only; omega, by dsimp only; omega⟩, by dsimp only; omega,
    by dsimp only; omega, ?_⟩
  unfold Date.toDay at hdate
  unfold timegm
  dsimp only
  omega

/-- A time is read back from its text. -/
theorem parseIsoTimeNospace_format : parseIsoTimeNospace (formatIsoTimeNospace t) = some t := by
  obtain ⟨hfits, hyear, hmday, htime⟩ := gmtime_spec h
  have hsep : isDigit 84 = false := by decide
  have hscan := scanIsoTime_isoText hfits hsep
  have hnonneg := h.nonneg
  have hmon := hfits.mon
  have hmday' := hfits.mday
  have hhour := hfits.hour
  have hmin := hfits.min
  have hsec := hfits.sec
  have hyear' := hfits.year_lt
  unfold parseIsoTimeNospace parseIsoTimeImpl formatIsoTimeNospace formatIsoTime
  rw [isoText_set hfits, hscan]
  simp only [Option.bind_eq_bind, Option.bind_some]
  rw [if_neg (by simp), if_neg (by simp), if_neg (by unfold intMax; omega), Nat.add_sub_cancel,
    torTimegm, htime, if_neg (by omega)]

theorem noSpace_formatIsoTimeNospace : ∀ x ∈ formatIsoTimeNospace t, isSpace x = false := by
  obtain ⟨hfits, -⟩ := gmtime_spec h
  have htwo : ∀ n < 100, ∀ x ∈ twoDigits n, isSpace x = false := fun n hn x hx =>
    noSpace_of_digit ((twoDigits_spec hn).1 x hx)
  have hmon := hfits.mon
  have hmday := hfits.mday
  have hhour := hfits.hour
  have hmin := hfits.min
  have hsec := hfits.sec
  unfold formatIsoTimeNospace formatIsoTime
  rw [isoText_set hfits]
  unfold isoText
  simp only [List.forall_mem_append, List.forall_mem_cons]
  exact ⟨(decimalString_isWord _).noSpace, by decide, htwo _ (by omega), by decide,
    htwo _ (by omega), by decide, htwo _ (by omega), by decide, htwo _ (by omega), by decide,
    htwo _ (by omega)⟩

end

end RoundTrip

end TorDaemon.Encoding.IsoTime
