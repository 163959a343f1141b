import Ticksense.Python.Json

/-!
# Instants

A `datetime` enters the jobs only as an instant, in microseconds since the epoch.  Two ways lead to
one: reading an ISO text (`fromisoformat`) and reading epoch milliseconds (`fromtimestampMs`).  A
text without an offset is read as UTC, the zone the services run in.

* `fromisoformat` — date, optionally a separator and a time, optionally a fraction of 3 or 6 digits,
  optionally an offset: the grammar common to all versions of the runtime.
* `fromtimestampMs` — defined for the years 1 to 9999.
* `epochMs` — `int(ts.timestamp() * 1000)`.
-/

namespace Ticksense

/-! ## The calendar -/

def isLeap (year : ℕ) : Bool := year % 4 = 0 && (year % 100 ≠ 0 || year % 400 = 0)

def daysInMonth (year month : ℕ) : ℕ :=
  if month = 2 then (if isLeap year then 29 else 28)
  else if month = 4 ∨ month = 6 ∨ month = 9 ∨ month = 11 then 30 else 31

/-- The days before January 1st of the year, counted from January 1st of year 1. -/
def daysBeforeYear (year : ℕ) : ℕ :=
  let y := year - 1
  y * 365 + y / 4 - y / 100 + y / 400

def daysBeforeMonth (year month : ℕ) : ℕ :=
  ((List.range (month - 1)).map fun m => daysInMonth year (m + 1)).sum

/-- The day's number; January 1st of year 1 has number 1. -/
def toOrdinal (year month day : ℕ) : ℕ := daysBeforeYear year + daysBeforeMonth year month + day

/-- The number of January 1st 1970. -/
def epochOrdinal : ℕ := 719163

example : toOrdinal 1970 1 1 = epochOrdinal := by decide +kernel

/-! ## ISO texts -/

/-- A two-digit group after the given separator. -/
def takePair (sep : Char) : List Char → Option (ℕ × List Char)
  | c :: a :: b :: cs =>
      if c = sep && a.isDigit && b.isDigit then some (natOfDigits [a, b], cs) else none
  | _ => none

/-- A fraction of three or six digits, in microseconds. -/
def fractionMicros (cs : List Char) : Option ℕ :=
  if cs.all Char.isDigit then
    if cs.length = 3 then some (natOfDigits cs * 1000)
    else if cs.length = 6 then some (natOfDigits cs)
    else none
  else none

/-- `HH[:MM[:SS[.fff[fff]]]]`, in microseconds; the fields must be in range. -/
def clockMicros (cs : List Char) : Option ℕ :=
  match takePair ':' (':' :: cs) with
  | none => none
  | some (hour, cs) =>
      if 24 ≤ hour then none
      else if cs = [] then some (hour * 3600000000)
      else match takePair ':' cs with
        | none => none
        | some (minute, cs) =>
            if 60 ≤ minute then none
            else if cs = [] then some ((hour * 60 + minute) * 60000000)
            else match takePair ':' cs with
              | none => none
              | some (second, cs) =>
                  if 60 ≤ second then none
                  else
                    let micros := ((hour * 60 + minute) * 60 + second) * 1000000
                    match cs with
                    | [] => some micros
                    | '.' :: cs => (fractionMicros cs).map (micros + ·)
                    | _ => none

/-- A time with an optional offset; the microseconds to add to the day's begin. -/
def timeMicros (cs : List Char) : Option ℤ :=
  let isSign := fun c : Char => c = '+' || c = '-'
  let clock := cs.takeWhile fun c => !isSign c
  match clockMicros clock, cs.dropWhile fun c => !isSign c with
  | none, _ => none
  | some micros, [] => some micros
  | some micros, sign :: offset =>
      (clockMicros offset).map fun o => if sign = '-' then (micros : ℤ) + o else micros - o

/-- `datetime.fromisoformat(text)`. -/
def fromisoformat (text : String) : Except PyError ℤ :=
  match text.toList with
  | y₁ :: y₂ :: y₃ :: y₄ :: rest =>
      let digits := [y₁, y₂, y₃, y₄]
      let year := natOfDigits digits
      match takePair '-' rest with
      | none => .error .valueError
      | some (month, rest) =>
          match takePair '-' rest with
          | none => .error .valueError
          | some (day, rest) =>
              if digits.all Char.isDigit ∧ 1 ≤ year ∧ 1 ≤ month ∧ month ≤ 12 ∧ 1 ≤ day ∧
                  day ≤ daysInMonth year month then
                let dayMicros : ℤ :=
                  ((toOrdinal year month day : ℤ) - epochOrdinal) * 86400000000
                match rest with
                | [] => .ok dayMicros
                | _ :: time =>
                    match timeMicros time with
                    | some micros => .ok (dayMicros + micros)
                    | none => .error .valueError
              else .error .valueError
  | _ => .error .valueError

/-- `text.replace("Z", "+00:00")`. -/
def replaceZ (text : String) : String :=
  String.ofList (text.toList.flatMap fun c => if c = 'Z' then "+00:00".toList else [c])

example : fromisoformat (replaceZ "2024-02-29T12:00:00.500Z") = .ok 1709208000500000 := by
  decide +kernel

/-! ## Epoch milliseconds -/

/-- `datetime.fromtimestamp(ms / 1000, tz=UTC)`: the years 1 to 9999. -/
def fromtimestampMs (ms : ℤ) : Except PyError ℤ :=
  if -62135596800000 ≤ ms ∧ ms ≤ 253402300799999 then .ok (ms * 1000) else .error .valueError

/-- `int(ts.timestamp() * 1000)`: towards zero. -/
def epochMs (micros : ℤ) : ℤ := micros.tdiv 1000

/-- A `datetime`: the time its fields show, in microseconds since the epoch began in its own zone,
and the offset of the zone unless it is naive. -/
structure Datetime where
  wall : ℤ
  utcoffset : Option ℤ

/-- The instant of a `datetime`, a naive one read as UTC (`ts.replace(tzinfo=UTC)`). -/
def Datetime.instant (ts : Datetime) : ℤ := ts.wall - ts.utcoffset.getD 0

@[simp] lemma epochMs_mul (ms : ℤ) : epochMs (ms * 1000) = ms :=
  Int.mul_tdiv_cancel ms (by decide)

end Ticksense
