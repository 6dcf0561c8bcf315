/-
  SystemOS.Fat12.Times — the date and the time of an entry, written and printed.

  `create_directory` packs the date into two bytes and the time into two more; the month and the
  minute are cut in two, one part in each byte.  `print_date` and `print_time` put them together.

  Main results:
    * `pack_toNat`      — two fields in one byte.
    * `divided_toNat`   — a field from two bytes.
    * `created_printed` — what is printed of an entry that has been created.
-/
import SystemOS.Fat12.Creation
import SystemOS.Lib.Decimal
import SystemOS.Lib.Words

namespace SystemOS.Fat12.Times

open SystemOS.Lib.ByteMemory SystemOS.Lib.Strings SystemOS.Lib.Lines SystemOS.Lib.Decimal
open SystemOS.Lib.Words
open SystemOS.Fat12.FileSystem SystemOS.Fat12.Blocks SystemOS.Fat12.Creation

/-! ## §1. The code. -/

/-- What `%0wd` prints of a number that is not negative. -/
def zeroPadded (w n : Nat) : Bytes := List.replicate (w - (digits n).length) 48 ++ digits n

/-- The variables of `print_date`. -/
structure Date where
  year : UInt32
  month : UInt32
  day : UInt32

/-- The variables of `print_time`. -/
structure Time where
  hour : UInt32
  minute : UInt32
  second : UInt32

def readDate (m : Mem) (date : Nat) : Date where
  year := (((m (date + 1)).toUInt32 >>> 1) &&& 0x7F) + 1980
  month := (((m (date + 1)).toUInt32 &&& 0x01) <<< 3) ||| (((m date).toUInt32 >>> 5) &&& 0x07)
  day := (m date).toUInt32 &&& 0x1F

def readTime (m : Mem) (time : Nat) : Time where
  hour := ((m (time + 1)).toUInt32 >>> 3) &&& 0x1F
  minute := (((m (time + 1)).toUInt32 &&& 0x07) <<< 3) ||| (((m time).toUInt32 >>> 5) &&& 0x07)
  second := ((m time).toUInt32 &&& 0x1F) * 2

/-- `"%04d-%02d-%02d "`. -/
def dateText (year month day : Nat) : Bytes :=
  zeroPadded 4 year ++ 45 :: zeroPadded 2 month ++ 45 :: zeroPadded 2 day ++ [32]

/-- `"%02d:%02d:%02d "`. -/
def timeText (hour minute second : Nat) : Bytes :=
  zeroPadded 2 hour ++ 58 :: zeroPadded 2 minute ++ 58 :: zeroPadded 2 second ++ [32]

def print_date (m : Mem) (date : Nat) : Bytes :=
  let d := readDate m date
  dateText d.year.toNat d.month.toNat d.day.toNat

def print_time (m : Mem) (time : Nat) : Bytes :=
  let t := readTime m time
  timeText t.hour.toNat t.minute.toNat t.second.toNat

/-! ## §2. Fields of a word. -/

section Fields

variable {v mask lo hi k : UInt32} {w l h : Nat}

/-- The low bits of a word. -/
theorem low_toNat (hmask : mask.toNat = 2 ^ w - 1) : (v &&& mask).toNat = v.toNat % 2 ^ w := by
  rw [UInt32.toNat_and, hmask, Nat.and_two_pow_sub_one_eq_mod]

theorem shifted_toNat (n : Nat) (hk : k.toNat = n) (hn : n < 32) :
    (v >>> k).toNat = v.toNat / 2 ^ n := by
  rw [UInt32.toNat_shiftRight, hk, Nat.mod_eq_of_lt hn, Nat.shiftRight_eq_div_pow]

/-- A field in the middle, masked where it is and shifted down. -/
theorem middle_toNat (n : Nat) (hk : k.toNat = n) (hn : n < 32)
    (hmask : mask.toNat = (2 ^ w - 1) <<< n) :
    ((v &&& mask) >>> k).toNat = v.toNat / 2 ^ n % 2 ^ w := by
  rw [UInt32.toNat_shiftRight, hk, Nat.mod_eq_of_lt hn, UInt32.toNat_and, hmask, mask_shift]

/-- Two fields, the lower one of `n` bits. -/
theorem join_toNat (n : Nat) (hk : k.toNat = n) (hn : n < 32) (hlo : lo.toNat = l)
    (hhi : hi.toNat = h) (hl : l < 2 ^ n) (hfit : 2 ^ n * h < 2 ^ 32) :
    (lo ||| (hi <<< k)).toNat = l + 2 ^ n * h := by
  have hshift : (hi <<< k).toNat = h <<< n := by
    rw [UInt32.toNat_shiftLeft, hk, hhi, Nat.mod_eq_of_lt hn, Nat.shiftLeft_eq, Nat.mul_comm]
    exact Nat.mod_eq_of_lt hfit
  rw [UInt32.toNat_or, hshift, hlo, or_shift h hl]

/-- **Two fields in one byte.** -/
theorem pack_toNat (n : Nat) (hk : k.toNat = n) (hn : n < 32) (hlo : lo.toNat = l)
    (hhi : hi.toNat = h) (hl : l < 2 ^ n) (hfit : l + 2 ^ n * h < 256) :
    (lo ||| (hi <<< k)).toUInt8.toNat = l + 2 ^ n * h := by
  rw [UInt32.toNat_toUInt8, join_toNat n hk hn hlo hhi hl (by omega)]
  exact Nat.mod_eq_of_lt hfit

end Fields

/-! ## §3. The bytes that are written. -/

section Bytes

variable {day month year minute hour : UInt32}

/-- The day below the low part of the month, and the second below that of the minute. -/
theorem low_byte (hday : day.toNat < 32) :
    ((day &&& (0x1F : UInt32)) ||| ((month &&& 0x07) <<< 5)).toUInt8.toNat
      = day.toNat + 32 * (month.toNat % 8) := by
  have hlo : (day &&& 0x1F).toNat = day.toNat % 2 ^ 5 := low_toNat rfl
  have hhi : (month &&& 0x07).toNat = month.toNat % 2 ^ 3 := low_toNat rfl
  rw [pack_toNat 5 rfl (by decide) hlo hhi (by omega) (by omega)]
  omega

/-- The high bit of the month below the year. -/
theorem year_byte (hmonth : month.toNat < 16) (hyear : year.toNat < 128) :
    (((month &&& (0x08 : UInt32)) >>> 3) ||| ((year &&& 0x7F) <<< 1)).toUInt8.toNat
      = month.toNat / 8 + 2 * year.toNat := by
  have hlo : ((month &&& 0x08) >>> 3).toNat = month.toNat / 2 ^ 3 % 2 ^ 1 :=
    middle_toNat 3 rfl (by decide) rfl
  have hhi : (year &&& 0x7F).toNat = year.toNat % 2 ^ 7 := low_toNat rfl
  rw [pack_toNat 1 rfl (by decide) hlo hhi (by omega) (by omega)]
  omega

/-- The high part of the minute below the hour. -/
theorem hour_byte (hminute : minute.toNat < 64) (hhour : hour.toNat < 32) :
    (((minute &&& (0x38 : UInt32)) >>> 3) ||| ((hour &&& 0x1F) <<< 3)).toUInt8.toNat
      = minute.toNat / 8 + 8 * hour.toNat := by
  have hlo : ((minute &&& 0x38) >>> 3).toNat = minute.toNat / 2 ^ 3 % 2 ^ 3 :=
    middle_toNat 3 rfl (by decide) rfl
  have hhi : (hour &&& 0x1F).toNat = hour.toNat % 2 ^ 5 := low_toNat rfl
  rw [pack_toNat 3 rfl (by decide) hlo hhi (by omega) (by omega)]
  omega

end Bytes

/-- What `localtime` fills in for a time from 1980 to 2107. -/
structure LocalTime (t : tm) : Prop where
  year_ge : 80 ≤ t.tm_year.toNat
  year_le : t.tm_year.toNat ≤ 207
  mon_le : t.tm_mon.toNat ≤ 11
  mday_le : t.tm_mday.toNat ≤ 31
  hour_le : t.tm_hour.toNat ≤ 23
  min_le : t.tm_min.toNat ≤ 59
  sec_le : t.tm_sec.toNat ≤ 61

/-- The bytes of a date at `a`. -/
structure HasDate (m : Mem) (a year month day : Nat) : Prop where
  low : (m a).toNat = day + 32 * (month % 8)
  high : (m (a + 1)).toNat = month / 8 + 2 * (year - 1980)

/-- The bytes of a time at `a`. -/
structure HasTime (m : Mem) (a hour minute second : Nat) : Prop where
  low : (m a).toNat = second / 2 + 32 * (minute % 8)
  high : (m (a + 1)).toNat = minute / 8 + 8 * hour

variable {fs : Image} {a : Nat} {path dirname : CString} {tm_info : tm}

theorem written_date (ht : LocalTime tm_info) : HasDate (writeEntry fs a dirname tm_info).mem (a + 26)
    (tm_info.tm_year.toNat + 1900) (tm_info.tm_mon.toNat + 1) tm_info.tm_mday.toNat := by
  have hmon := ht.mon_le
  have hday := ht.mday_le
  have hge := ht.year_ge
  have hle := ht.year_le
  have hyear : (tm_info.tm_year + 1900 - 1980).toNat = tm_info.tm_year.toNat - 80 := by
    rw [UInt32.toNat_sub, UInt32.toNat_add]
    show (2 ^ 32 - 1980 + (tm_info.tm_year.toNat + 1900) % 2 ^ 32) % 2 ^ 32 = _
    omega
  have hmonth : (tm_info.tm_mon + 1).toNat = tm_info.tm_mon.toNat + 1 := by
    rw [UInt32.toNat_add]
    show (tm_info.tm_mon.toNat + 1) % 2 ^ 32 = _
    omega
  constructor
  · have hbyte := @writeEntry_times fs a dirname tm_info 0 (by rw [encoded_length]; decide)
    refine (congrArg UInt8.toNat hbyte).trans ?_
    refine (low_byte (by omega)).trans ?_
    rw [hmonth]
  · have hbyte := @writeEntry_times fs a dirname tm_info 1 (by rw [encoded_length]; decide)
    refine (congrArg UInt8.toNat hbyte).trans ?_
    refine (year_byte (by omega) (by omega)).trans ?_
    rw [hmonth, hyear]
    omega

theorem written_time (ht : LocalTime tm_info) : HasTime (writeEntry fs a dirname tm_info).mem (a + 28)
    tm_info.tm_hour.toNat tm_info.tm_min.toNat tm_info.tm_sec.toNat := by
  have hsec := ht.sec_le
  have hmin := ht.min_le
  have hhour := ht.hour_le
  have hsecond : (tm_info.tm_sec / 2).toNat = tm_info.tm_sec.toNat / 2 := UInt32.toNat_div _ _
  constructor
  · have hbyte := @writeEntry_times fs a dirname tm_info 2 (by rw [encoded_length]; decide)
    refine (congrArg UInt8.toNat hbyte).trans ?_
    refine (low_byte (by omega)).trans ?_
    rw [hsecond]
  · have hbyte := @writeEntry_times fs a dirname tm_info 3 (by rw [encoded_length]; decide)
    refine (congrArg UInt8.toNat hbyte).trans ?_
    exact hour_byte (by omega) (by omega)

/-! ## §4. The bytes that are read. -/

/-- A field whose low three bits are at the top of `v` and whose other bits are at the bottom of `u`:
    the month and the minute. -/
theorem divided_toNat {u v mask : UInt32} (n : Nat) (hmask : mask.toNat = 2 ^ n - 1) (hn : n ≤ 5) :
    (((u &&& mask) <<< 3) ||| ((v >>> 5) &&& 0x07)).toNat
      = v.toNat / 32 % 8 + 8 * (u.toNat % 2 ^ n) := by
  have hlo : ((v >>> 5) &&& 0x07).toNat = v.toNat / 2 ^ 5 % 2 ^ 3 := by
    rw [low_toNat (w := 3) rfl, shifted_toNat 5 rfl (by decide)]
  have hhi : (u &&& mask).toNat = u.toNat % 2 ^ n := low_toNat hmask
  have hlt : u.toNat % 2 ^ n < 2 ^ 5 :=
    (Nat.mod_lt _ (Nat.two_pow_pos n)).trans_le (Nat.pow_le_pow_right (by decide) hn)
  rw [UInt32.or_comm, join_toNat 3 rfl (by decide) hlo hhi (by omega) (by omega)]
  rfl

/-- **`print_date` puts the date together again.** -/
theorem read_date {m : Mem} {year month day : Nat} (h : HasDate m a year month day)
    (hge : 1980 ≤ year) (hle : year ≤ 2107) (hmonth : month < 16) (hday : day < 32) :
    (readDate m a).year.toNat = year ∧ (readDate m a).month.toNat = month
      ∧ (readDate m a).day.toNat = day := by
  have hlow : (m a).toUInt32.toNat = day + 32 * (month % 8) := (UInt8.toNat_toUInt32 _).trans h.low
  have hhigh : (m (a + 1)).toUInt32.toNat = month / 8 + 2 * (year - 1980) :=
    (UInt8.toNat_toUInt32 _).trans h.high
  refine ⟨?_, ?_, ?_⟩
  · have hyear : (((m (a + 1)).toUInt32 >>> 1) &&& 0x7F).toNat
        = (m (a + 1)).toUInt32.toNat / 2 ^ 1 % 2 ^ 7 := by
      rw [low_toNat (w := 7) rfl, shifted_toNat 1 rfl (by decide)]
    show ((((m (a + 1)).toUInt32 >>> 1) &&& 0x7F) + 1980).toNat = year
    rw [UInt32.toNat_add, hyear, hhigh]
    show ((month / 8 + 2 * (year - 1980)) / 2 ^ 1 % 2 ^ 7 + 1980) % 2 ^ 32 = year
    omega
  · show ((((m (a + 1)).toUInt32 &&& 0x01) <<< 3) ||| (((m a).toUInt32 >>> 5) &&& 0x07)).toNat = month
    rw [divided_toNat 1 rfl (by decide), hlow, hhigh]
    omega
  · show ((m a).toUInt32 &&& 0x1F).toNat = day
    rw [low_toNat (w := 5) rfl, hlow]
    omega

/-- **`print_time` puts the time together again**, up to the parity of the second. -/
theorem read_time {m : Mem} {hour minute second : Nat} (h : HasTime m a hour minute second)
    (hhour : hour < 32) (hminute : minute < 64) (hsecond : second < 64) :
    (readTime m a).hour.toNat = hour ∧ (readTime m a).minute.toNat = minute
      ∧ (readTime m a).second.toNat = second / 2 * 2 := by
  have hlow : (m a).toUInt32.toNat = second / 2 + 32 * (minute % 8) :=
    (UInt8.toNat_toUInt32 _).trans h.low
  have hhigh : (m (a + 1)).toUInt32.toNat = minute / 8 + 8 * hour :=
    (UInt8.toNat_toUInt32 _).trans h.high
  refine ⟨?_, ?_, ?_⟩
  · show (((m (a + 1)).toUInt32 >>> 3) &&& 0x1F).toNat = hour
    rw [low_toNat (w := 5) rfl, shifted_toNat 3 rfl (by decide), hhigh]
    omega
  · show ((((m (a + 1)).toUInt32 &&& 0x07) <<< 3) ||| (((m a).toUInt32 >>> 5) &&& 0x07)).toNat
      = minute
    rw [divided_toNat 3 rfl (by decide), hlow, hhigh]
    omega
  · have hfield : ((m a).toUInt32 &&& 0x1F).toNat = second / 2 := by
      rw [low_toNat (w := 5) rfl, hlow]
      omega
    show (((m a).toUInt32 &&& 0x1F) * 2).toNat = second / 2 * 2
    rw [UInt32.toNat_mul, hfield]
    show second / 2 * 2 % 2 ^ 32 = _
    omega

/-- **What is printed of an entry that has been created** is the time of its creation, with an even
    second. -/
theorem created_printed (hslot : createSlot fs path = some a) (ht : LocalTime tm_info) :
    let m := (create_directory fs path dirname tm_info).mem
    ((readDate m (a + 26)).year.toNat = tm_info.tm_year.toNat + 1900
        ∧ (readDate m (a + 26)).month.toNat = tm_info.tm_mon.toNat + 1
        ∧ (readDate m (a + 26)).day.toNat = tm_info.tm_mday.toNat)
      ∧ ((readTime m (a + 28)).hour.toNat = tm_info.tm_hour.toNat
        ∧ (readTime m (a + 28)).minute.toNat = tm_info.tm_min.toNat
        ∧ (readTime m (a + 28)).second.toNat = tm_info.tm_sec.toNat / 2 * 2)
      ∧ print_date m (a + 26) = dateText (tm_info.tm_year.toNat + 1900) (tm_info.tm_mon.toNat + 1)
        tm_info.tm_mday.toNat
      ∧ print_time m (a + 28) = timeText tm_info.tm_hour.toNat tm_info.tm_min.toNat
        (tm_info.tm_sec.toNat / 2 * 2) := by
  have hge := ht.year_ge
  have hle := ht.year_le
  have hmon := ht.mon_le
  have hmday := ht.mday_le
  have hhour := ht.hour_le
  have hmin := ht.min_le
  have hsec := ht.sec_le
  rw [create_of_slot hslot]
  intro m
  have hdate := read_date (@written_date fs a dirname tm_info ht) (by omega)
    (by omega) (by omega) (by omega)
  have htime := read_time (@written_time fs a dirname tm_info ht) (by omega)
    (by omega) (by omega)
  refine ⟨hdate, htime, ?_, ?_⟩
  · show dateText _ _ _ = _
    rw [hdate.1, hdate.2.1, hdate.2.2]
  · show timeText _ _ _ = _
    rw [htime.1, htime.2.1, htime.2.2]

/-- The last minute of February 2004, in the first slot of a blank image. -/
theorem created_printed_leap :
    print_time (create_directory (worn 0).fs root nameA ⟨104, 1, 29, 23, 59, 59⟩).mem (rootDir + 28)
      = timeText 23 59 58 :=
  (@created_printed (worn 0).fs rootDir root nameA ⟨104, 1, 29, 23, 59, 59⟩ rfl
    ⟨by decide, by decide, by decide, by decide, by decide, by decide, by decide⟩).2.2.2

end SystemOS.Fat12.Times
