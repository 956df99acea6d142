import ProcessingCommon.Lib.CivilCalendar
import ProcessingCommon.Lib.PaddedDecimal
import ProcessingCommon.LibDspc.HexCodec

/-!
# Time points and their texts (`LibTime.cpp`)

`nowUtc`, `tpToStr` and `strToTp` with what they use of the C library. A format is the list of its
characters and conversions, with the conversions that the formats of `LibTime.cpp` have. The time
zone is a parameter, and so is `mktime`, which has to look for an instant.
-/

namespace ProcessingCommon
namespace LibTime

open CString LibDspc

/-! ## The clock -/

/-- `system_clock::time_point`: nanoseconds since the epoch. -/
abbrev TimePoint := Int64

def nanosPerSec : Int := 1000000000

/-- `system_clock::to_time_t`, the same as `duration_cast<seconds>(tp.time_since_epoch())`: the
fraction is dropped, also before the epoch. -/
def toTimeT (tp : TimePoint) : Int := tp.toInt.tdiv nanosPerSec

/-- `system_clock::from_time_t`. -/
def fromTimeT (t : Int) : TimePoint := Int64.ofInt (t * nanosPerSec)

/-! ## Local time -/

/-- `struct tm`, with the fields that the conversions below and `mktime` read. -/
structure Tm where
  tm_sec : Int := 0
  tm_min : Int := 0
  tm_hour : Int := 0
  tm_mday : Int := 0
  tm_mon : Int := 0
  tm_year : Int := 0
  tm_isdst : Int := 0
deriving DecidableEq

/-- A time zone: at each second since the epoch, the offset of its standard time from UTC, and what
daylight saving adds to that, which is `0` while it is not in force. Offsets have 32 bits. -/
structure Zone where
  stdOffset : Int → Int
  saving : Int → Int
  stdOffset_bounds : ∀ t, -2 ^ 31 ≤ stdOffset t ∧ stdOffset t < 2 ^ 31
  offset_bounds : ∀ t, -2 ^ 31 ≤ stdOffset t + saving t ∧ stdOffset t + saving t < 2 ^ 31

/-- The zone of UTC. -/
def utc : Zone where
  stdOffset := fun _ => 0
  saving := fun _ => 0
  stdOffset_bounds := fun _ => by decide
  offset_bounds := fun _ => by decide

variable (z : Zone) (t : Int)

/-- The local time, as the second whose UTC date and time it shows. -/
def Zone.localSec : Int := t + (z.stdOffset t + z.saving t)

/-- The standard time, in force or not. -/
def Zone.standardSec : Int := t + z.stdOffset t

/-- The date and the time of day of a second. -/
def gmtime : Tm :=
  let date := CivilDate.ofDays (t / 86400)
  { tm_sec := t % 60
    tm_min := t / 60 % 60
    tm_hour := t / 3600 % 24
    tm_mday := date.day
    tm_mon := date.month - 1
    tm_year := date.year - 1900 }

/-- The inverse of `gmtime`. -/
def timegm (tm : Tm) : Int :=
  CivilDate.toDays ⟨tm.tm_year + 1900, tm.tm_mon + 1, tm.tm_mday⟩ * 86400 +
    tm.tm_hour * 3600 + tm.tm_min * 60 + tm.tm_sec

/-- `localtime`. -/
def Zone.localtime : Tm :=
  { gmtime (z.localSec t) with tm_isdst := if z.saving t = 0 then 0 else 1 }

/-- Exactly one instant has this standard time. Where the standard offset never changes, that is
always so. -/
def Zone.Definite (s : Int) : Prop := ∃ t, z.standardSec t = s ∧ ∀ t', z.standardSec t' = s → t' = t

/-- `mktime`. A `tm_isdst` of `0` says that the time is a standard time. -/
structure Mktime where
  mktime : Tm → Int
  standard : ∀ tm, tm.tm_isdst = 0 → z.Definite (timegm tm) →
    z.standardSec (mktime tm) = timegm tm

/-! ## Formats -/

/-- A conversion, `'%'` with its letter. -/
inductive Conv
  | Y | y | m | d | H | M | S
deriving DecidableEq

inductive FmtItem
  | lit (c : Char)
  | conv (c : Conv)
deriving DecidableEq

/-- `"%d.%m.%y %H:%M:%S"` -/
def fmtDefault : List FmtItem :=
  [.conv .d, .lit '.', .conv .m, .lit '.', .conv .y, .lit ' ', .conv .H, .lit ':', .conv .M,
    .lit ':', .conv .S]

/-- `"%Y-%m-%dT%H:%M:%S."` -/
def fmtUtc : List FmtItem :=
  [.conv .Y, .lit '-', .conv .m, .lit '-', .conv .d, .lit 'T', .conv .H, .lit ':', .conv .M,
    .lit ':', .conv .S, .lit '.']

/-- A number of two digits. -/
def twoDigits (n : Int) : Bytes := setw 2 48 (decimalInt n)

def convText (tm : Tm) : Conv → Bytes
  | .Y => decimalInt (tm.tm_year + 1900)
  | .y => twoDigits (tm.tm_year % 100)
  | .m => twoDigits (tm.tm_mon + 1)
  | .d => twoDigits tm.tm_mday
  | .H => twoDigits tm.tm_hour
  | .M => twoDigits tm.tm_min
  | .S => twoDigits tm.tm_sec

def itemText (tm : Tm) : FmtItem → Bytes
  | .lit c => [c.toUInt8]
  | .conv c => convText tm c

/-- `strftime(s, max, fmt, tm)`; `none` where text and terminator have no room. -/
def strftime (max : Nat) (fmt : List FmtItem) (tm : Tm) : Option Bytes :=
  let text := fmt.flatMap (itemText tm)
  if text.length < max then some text else none

/-- Up to `len` digits with a value from `lo` to `hi`, and what follows them. -/
def getNum (len : Nat) (lo hi : Int) (s : Bytes) : Option (Int × Bytes) :=
  let digits := (s.take len).takeWhile isDigit
  let value : Int := digitsValue digits
  if digits ≠ [] ∧ lo ≤ value ∧ value ≤ hi then some (value, s.drop digits.length) else none

/-- Two digits of a year are one of 1969 to 2068. -/
def yearOfTwo (y : Int) : Int := if y < 69 then y + 100 else y

/-- `time_get::do_get` -/
def getConv (tm : Tm) (s : Bytes) : Conv → Option (Tm × Bytes)
  | .Y => (getNum 4 0 9999 s).map fun r => ({ tm with tm_year := r.1 - 1900 }, r.2)
  | .y => (getNum 2 0 99 s).map fun r => ({ tm with tm_year := yearOfTwo r.1 }, r.2)
  | .m => (getNum 2 1 12 s).map fun r => ({ tm with tm_mon := r.1 - 1 }, r.2)
  | .d => (getNum 2 1 31 s).map fun r => ({ tm with tm_mday := r.1 }, r.2)
  | .H => (getNum 2 0 23 s).map fun r => ({ tm with tm_hour := r.1 }, r.2)
  | .M => (getNum 2 0 59 s).map fun r => ({ tm with tm_min := r.1 }, r.2)
  | .S => (getNum 2 0 60 s).map fun r => ({ tm with tm_sec := r.1 }, r.2)

/-- A blank of the format stands for any number of them, and the case of a letter is ignored. -/
def getItem (tm : Tm) (s : Bytes) : FmtItem → Option (Tm × Bytes)
  | .lit c =>
    if isSpace c.toUInt8 then some (tm, s.dropWhile isSpace)
    else if s.head?.map toLower = some (toLower c.toUInt8) then some (tm, s.tail) else none
  | .conv c => getConv tm s c

/-- As the standard has it, the stream fails where the text ends before the format does. libstdc++
may take a text without seconds, which `tpToStr` never gives. -/
def getItems : List FmtItem → Tm → Bytes → Option Tm
  | [], tm, _ => some tm
  | i :: fmt, tm, s => (getItem tm s i).bind fun r => getItems fmt r.1 r.2

/-- `ss >> get_time(&tm, fmt)` on a stream of `str`; `none` where the stream fails. -/
def getTime (fmt : List FmtItem) (tm : Tm) (str : Bytes) : Option Tm :=
  let s := str.dropWhile isSpace
  if s = [] then none else getItems fmt tm s

/-! ## `LibTime` -/

def tpToStr (tp : TimePoint) (pFmt : Option (List FmtItem)) : Bytes :=
  let tm_t := z.localtime (toTimeT tp)
  (strftime 32 (pFmt.getD fmtDefault) tm_t).getD []

variable {z} in
def strToTp (lib : Mktime z) (str : Bytes) (pFmt : Option (List FmtItem)) : TimePoint :=
  -- `tm tm = {}`: all fields are zero, `tm_isdst` too
  match getTime (pFmt.getD fmtDefault) {} str with
  | none => 0
  | some tm => fromTimeT (lib.mktime tm)

/-- The nanoseconds that `nowUtc` prints behind the seconds. -/
def nanoSec (tp : TimePoint) : Int := tp.toInt - toTimeT tp * nanosPerSec

/-- `nowUtc` at the time `tp` of the system clock. -/
def nowUtc (tp : TimePoint) : Bytes :=
  let res := tpToStr z tp (some fmtUtc)
  res ++ (setw 7 48 (decimalInt (nanoSec tp)) ++ ['Z'.toUInt8])

end LibTime
end ProcessingCommon
