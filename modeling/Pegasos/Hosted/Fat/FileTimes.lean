import Pegasos.Hosted.Fat.Dir
import Pegasos.Support.Bits

/-!
# Times of files

`dir_set_datetime` packs a broken-down local time into the two words of a directory entry,
and `fillstat` takes it apart again for `mktime`.  The year is counted from 1980 in the
entry and from 1900 in a `struct tm`, the month from one and from zero.
-/

namespace Pegasos.Hosted

open Pegasos.Support
open Fat (Dirent direntAt)

/-- `struct stat`, as far as `fillstat` fills it under `NO_STAT_EXTRAS`. -/
structure HostStat where
  stIno : UInt16
  stNlink : Nat
  stSize : UInt32
  stMtime : Int

/-- The `struct tm` which `fillstat` makes of an entry. -/
def fillTm (dir : Dirent) : Tm where
  tmHour := (dir.modtime >>> 11).toNat
  tmMin := (dir.modtime >>> 5 &&& (0x3f : UInt16)).toNat
  tmSec := (dir.modtime &&& 0x1f).toNat * 2
  tmYear := (dir.moddate >>> 9).toNat + 1980 - 1900
  tmMon := (dir.moddate >>> 5 &&& (0x0f : UInt16)).toNat - 1
  tmMday := (dir.moddate &&& 0x1f).toNat

/-- `fillstat`, with the `mktime` of the host. -/
def fillstat (mktime : Tm → Int) (info : FileInfo) : HostStat where
  stIno := info.dir.cluster0
  stNlink := 1
  stSize := info.dir.size
  stMtime := mktime (fillTm info.dir)

namespace Tm

/-- A broken-down time of the years that an entry can hold; a minute can have a leap second. -/
structure Valid (tm : Tm) : Prop where
  year : 80 ≤ tm.tmYear ∧ tm.tmYear ≤ 207
  mon : 0 ≤ tm.tmMon ∧ tm.tmMon ≤ 11
  mday : 1 ≤ tm.tmMday ∧ tm.tmMday ≤ 31
  hour : 0 ≤ tm.tmHour ∧ tm.tmHour ≤ 23
  min : 0 ≤ tm.tmMin ∧ tm.tmMin ≤ 59
  sec : 0 ≤ tm.tmSec ∧ tm.tmSec ≤ 60

/-- The same time with its second rounded down to an even one. -/
def evenSecond (tm : Tm) : Tm := { tm with tmSec := tm.tmSec / 2 * 2 }

end Tm

variable {tm : Tm} {ent : Dirent}

/-- The word of the time has five bits of half seconds, six of minutes and five of hours. -/
theorem modtime_dirSetDatetime (valid : tm.Valid) :
    (dirSetDatetime tm ent).modtime.toNat =
      (tm.tmHour.toNat * 0x40 + tm.tmMin.toNat) * 0x20 + (tm.tmSec / 2).toNat := by
  have hour := valid.hour
  have min := valid.min
  have sec := valid.sec
  have half : tm.tmSec >>> (1 : Nat) = tm.tmSec / 2 := Int.shiftRight_eq_div_pow tm.tmSec 1
  have noHour : tm.tmHour.toNat <<< 11 % 0x10000 = tm.tmHour.toNat <<< 11 := by
    rw [Nat.shiftLeft_eq]
    omega
  have noMin : tm.tmMin.toNat <<< 5 % 0x10000 = tm.tmMin.toNat <<< 5 := by
    rw [Nat.shiftLeft_eq]
    omega
  calc (dirSetDatetime tm ent).modtime.toNat
      = tm.tmHour.toNat <<< 11 % 0x10000 ||| tm.tmMin.toNat <<< 5 % 0x10000 |||
          (tm.tmSec / 2).toNat := by
        rw [dirSetDatetime, half, UInt16.toNat_or, UInt16.toNat_or, UInt16.toNat_shiftLeft,
          UInt16.toNat_shiftLeft, toNat_ofInt16 hour.1 (by omega), toNat_ofInt16 min.1 (by omega),
          toNat_ofInt16 (by omega) (by omega)]
        rfl
    _ = tm.tmHour.toNat <<< (6 + 5) ||| tm.tmMin.toNat <<< 5 ||| (tm.tmSec / 2).toNat := by
        rw [noHour, noMin]
    _ = _ := three_fields (by omega) (by omega)

/-- The word of the date has five bits of days, four of months and seven of years. -/
theorem moddate_dirSetDatetime (valid : tm.Valid) :
    (dirSetDatetime tm ent).moddate.toNat =
      ((tm.tmYear - 80).toNat * 0x10 + (tm.tmMon + 1).toNat) * 0x20 + tm.tmMday.toNat := by
  have year := valid.year
  have mon := valid.mon
  have mday := valid.mday
  have noYear : (tm.tmYear - 80).toNat <<< 9 % 0x10000 &&& 0xfe00 =
      (tm.tmYear - 80).toNat <<< 9 := by
    have mask : (0xfe00 : Nat) = (2 ^ 7 - 1) <<< 9 := by decide
    rw [Nat.mod_eq_of_lt (by rw [Nat.shiftLeft_eq]; omega), mask, ← Nat.shiftLeft_and_distrib,
      Nat.and_two_pow_sub_one_eq_mod, Nat.mod_eq_of_lt (by omega)]
  have noMon : (tm.tmMon + 1).toNat <<< 5 % 0x10000 = (tm.tmMon + 1).toNat <<< 5 := by
    rw [Nat.shiftLeft_eq]
    omega
  calc (dirSetDatetime tm ent).moddate.toNat
      = ((tm.tmYear - 80).toNat <<< 9 % 0x10000 &&& 0xfe00) |||
          (tm.tmMon + 1).toNat <<< 5 % 0x10000 ||| tm.tmMday.toNat := by
        rw [dirSetDatetime, UInt16.toNat_or, UInt16.toNat_or, UInt16.toNat_and,
          UInt16.toNat_shiftLeft, UInt16.toNat_shiftLeft, toNat_ofInt16 (by omega) (by omega),
          toNat_ofInt16 (by omega) (by omega), toNat_ofInt16 (by omega) (by omega)]
        rfl
    _ = (tm.tmYear - 80).toNat <<< (4 + 5) ||| (tm.tmMon + 1).toNat <<< 5 |||
          tm.tmMday.toNat := by
        rw [noYear, noMon]
    _ = _ := three_fields (by omega) (by omega)

/-- `fillstat` takes the two words apart. -/
theorem fillTm_eq (dir : Dirent) :
    fillTm dir =
      { tmHour := (dir.modtime.toNat / 0x800 : Nat)
        tmMin := (dir.modtime.toNat / 0x20 % 0x40 : Nat)
        tmSec := (dir.modtime.toNat % 0x20 : Nat) * 2
        tmYear := (dir.moddate.toNat / 0x200 : Nat) + 80
        tmMon := (dir.moddate.toNat / 0x20 % 0x10 : Nat) - 1
        tmMday := (dir.moddate.toNat % 0x20 : Nat) } := by
  have shift (word : UInt16) (width : Nat) (narrow : width < 16) :
      (word >>> UInt16.ofNat width).toNat = word.toNat / 2 ^ width := by
    have fits : width < UInt16.size := Nat.lt_trans narrow (by decide)
    rw [UInt16.toNat_shiftRight, UInt16.toNat_ofNat_of_lt' fits, Nat.mod_eq_of_lt narrow,
      Nat.shiftRight_eq_div_pow]
  have low (word : UInt16) (mask : UInt16) (width : Nat) (ones : mask.toNat = 2 ^ width - 1) :
      (word &&& mask).toNat = word.toNat % 2 ^ width := by
    rw [UInt16.toNat_and, ones, Nat.and_two_pow_sub_one_eq_mod]
  have hour : (dir.modtime >>> 11).toNat = dir.modtime.toNat / 2 ^ 11 :=
    shift dir.modtime 11 (by decide)
  have min : (dir.modtime >>> 5).toNat = dir.modtime.toNat / 2 ^ 5 :=
    shift dir.modtime 5 (by decide)
  have year : (dir.moddate >>> 9).toNat = dir.moddate.toNat / 2 ^ 9 :=
    shift dir.moddate 9 (by decide)
  have mon : (dir.moddate >>> 5).toNat = dir.moddate.toNat / 2 ^ 5 :=
    shift dir.moddate 5 (by decide)
  have minBits := low (dir.modtime >>> 5) 0x3f 6 rfl
  have secBits := low dir.modtime 0x1f 5 rfl
  have monBits := low (dir.moddate >>> 5) 0x0f 4 rfl
  have mdayBits := low dir.moddate 0x1f 5 rfl
  unfold fillTm
  simp only [minBits, secBits, monBits, mdayBits, hour, min, year, mon, Tm.mk.injEq]
  omega

/-- What is stored comes back, with an even second. -/
theorem fillTm_dirSetDatetime (valid : tm.Valid) :
    fillTm (dirSetDatetime tm ent) = tm.evenSecond := by
  have year := valid.year
  have mon := valid.mon
  have mday := valid.mday
  have hour := valid.hour
  have min := valid.min
  have sec := valid.sec
  rw [fillTm_eq, modtime_dirSetDatetime valid, moddate_dirSetDatetime valid, Tm.evenSecond,
    Tm.mk.injEq]
  refine ⟨?_, ?_, ?_, ?_, ?_, ?_⟩
  all_goals omega

/-- A file that was written at the time `t` is reported with the time of its entry, which is
the broken-down `t` with an even second, if `mktime` and `localtime` are inverse there. -/
theorem file_time_survives {localtime : Int → Tm} {mktime : Tm → Int} {t : Int}
    (valid : (localtime t).Valid)
    (inverse : localtime (mktime (localtime t).evenSecond) = (localtime t).evenSecond)
    (info : FileInfo) :
    fillTm (dirSetDatetime (localtime t) info.dir) = (localtime t).evenSecond ∧
      localtime (fillstat mktime
        { info with dir := dirSetDatetime (localtime t) info.dir }).stMtime =
          (localtime t).evenSecond := by
  have same : fillTm (dirSetDatetime (localtime t) info.dir) = (localtime t).evenSecond :=
    fillTm_dirSetDatetime valid
  refine ⟨same, ?_⟩
  rw [fillstat, same]
  exact inverse

/-- `mktime` of a host in UTC; the years begin in March. -/
def mktimeUtc (tm : Tm) : Int :=
  let year := if tm.tmMon ≤ 1 then tm.tmYear + 1899 else tm.tmYear + 1900
  let yday := (153 * ((tm.tmMon + 10) % 12) + 2) / 5 + tm.tmMday - 1
  let days := 365 * year + year / 4 - year / 100 + year / 400 + yday - 719468
  ((days * 24 + tm.tmHour) * 60 + tm.tmMin) * 60 + tm.tmSec

/-- `localtime` of a host in UTC. -/
def localtimeUtc (t : Int) : Tm :=
  let days := t / 86400 + 719468
  let doe := days % 146097
  let yoe := (doe - doe / 1460 + doe / 36524 - doe / 146096) / 365
  let yday := doe - (365 * yoe + yoe / 4 - yoe / 100)
  let month := (5 * yday + 2) / 153
  let mon := (month + 2) % 12
  { tmYear := yoe + days / 146097 * 400 + (if mon ≤ 1 then 1 else 0) - 1900
    tmMon := mon
    tmMday := yday - (153 * month + 2) / 5 + 1
    tmHour := t % 86400 / 3600
    tmMin := t % 3600 / 60
    tmSec := t % 60 }

/-- A file written in the last second that an entry can hold. -/
theorem file_time_survives_last :
    localtimeUtc 4354819199 = ⟨207, 11, 31, 23, 59, 59⟩ ∧
      fillTm (dirSetDatetime (localtimeUtc 4354819199) (direntAt (fun _ => 0) 0)) =
        ⟨207, 11, 31, 23, 59, 58⟩ ∧
      localtimeUtc (fillstat mktimeUtc
        ⟨19, 0, dirSetDatetime (localtimeUtc 4354819199) (direntAt (fun _ => 0) 0)⟩).stMtime =
          ⟨207, 11, 31, 23, 59, 58⟩ := by
  have last : localtimeUtc 4354819199 = ⟨207, 11, 31, 23, 59, 59⟩ := by decide +kernel
  have even : (localtimeUtc 4354819199).evenSecond = ⟨207, 11, 31, 23, 59, 58⟩ := by
    decide +kernel
  have valid : (localtimeUtc 4354819199).Valid := by
    rw [last]
    constructor <;> decide
  have inverse : localtimeUtc (mktimeUtc (localtimeUtc 4354819199).evenSecond) =
      (localtimeUtc 4354819199).evenSecond := by
    decide +kernel
  rw [← even]
  exact ⟨last, file_time_survives valid inverse ⟨19, 0, direntAt (fun _ => 0) 0⟩⟩

end Pegasos.Hosted
