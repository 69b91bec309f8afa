import JobOperator.Text.Blank
import JobOperator.Text.Digits
import JobOperator.Time.Instant

/-!
# Timestamps

An instant is written in UTC, `YYYY-MM-DDThh:mm:ss` with a fraction of none,
three, six or nine digits, whichever is the shortest that is exact, and a `Z`. A
year outside 0 to 9999 takes a sign. A leap second is second 60.

Reading is lenient. The date and the time of day are joined by a `T` of either
case or a space; months, days, hours, minutes and seconds need not have two
digits; blanks may stand around the parts; the offset from UTC is a `Z`, the word
`UTC`, or a sign, hours and minutes with colons and blanks between them or not; a
fraction is cut after nine digits. Seconds and an offset have to be there.

* `Timestamp.render`: the text of an instant.
* `Timestamp.parse?`: the instant of a text.
-/

namespace JobOperator.Timestamp

open Text (trimStart isBlank)
open Digits (isDigit padded value)

/-! ## Writing -/

/-- The fraction of a second, as short as it can be in groups of three digits. -/
def renderFraction (nano : Nat) : String :=
  if nano = 0 then ""
  else if nano % 1000000 = 0 then "." ++ padded 3 (nano / 1000000)
  else if nano % 1000 = 0 then "." ++ padded 6 (nano / 1000)
  else "." ++ padded 9 nano

/-- A year, with four digits at least. -/
def renderYear (year : Int) : String :=
  if 0 ≤ year ∧ year ≤ 9999 then padded 4 year.toNat
  else (if year < 0 then "-" else "+") ++ padded 4 year.natAbs

/-- The text of an instant. -/
def render (t : Instant) : String :=
  let date := Date.ofDays (t.second / Instant.secondsPerDay)
  let clock := t.secondOfDay.toNat
  let second := clock % 60 + (if t.inLeapSecond then 1 else 0)
  renderYear date.year ++ "-" ++ padded 2 date.month ++ "-" ++ padded 2 date.day
    ++ "T" ++ padded 2 (clock / 3600) ++ ":" ++ padded 2 (clock / 60 % 60)
    ++ ":" ++ padded 2 second ++ renderFraction (t.nano % nanosPerSecond) ++ "Z"

/-! ## Reading -/

/-- A number of one digit at least and of `limit` digits at most. -/
def number? (limit : Nat) (cs : List Char) : Option (Nat × List Char) :=
  let digits := (cs.take limit).takeWhile isDigit
  if digits.isEmpty then none else some (value digits, cs.drop digits.length)

/-- A number of one or two digits behind blanks. -/
def part? (cs : List Char) : Option (Nat × List Char) := number? 2 (trimStart cs)

/-- A year: up to four digits, or any number of digits behind a sign. -/
def year? (cs : List Char) : Option (Int × List Char) :=
  match trimStart cs with
  | '-' :: cs => (number? cs.length cs).map fun (n, rest) => (-(n : Int), rest)
  | '+' :: cs => (number? cs.length cs).map fun (n, rest) => ((n : Int), rest)
  | cs => (number? 4 cs).map fun (n, rest) => ((n : Int), rest)

/-- A separator behind blanks. -/
def separator? (c : Char) (cs : List Char) : Option (List Char) :=
  match trimStart cs with
  | d :: rest => if d = c then some rest else none
  | [] => none

/-- What joins the date and the time of day. -/
def joint? : List Char → Option (List Char)
  | c :: rest => if c = 'T' || c = 't' || c = ' ' then some rest else none
  | [] => none

/-- A fraction of a second in nanoseconds, if there is a point. Digits behind the
ninth are dropped. -/
def fraction? : List Char → Option (Nat × List Char)
  | '.' :: cs => do
    let (n, rest) ← number? 9 cs
    let count := cs.length - rest.length
    return (n * Nat.pow 10 (9 - count), rest.dropWhile isDigit)
  | cs => some (0, cs)

/-- The minutes east of UTC that an offset spells. An offset stays below a day. -/
def offset? (cs : List Char) : Option (Int × List Char) :=
  match cs with
  | 'Z' :: rest | 'z' :: rest => some (0, rest)
  | u :: t :: c :: rest =>
    if u.toUpper = 'U' ∧ t.toUpper = 'T' ∧ c.toUpper = 'C' then some (0, rest)
    else if isDigit t ∧ isDigit c then
      match rest.dropWhile fun c => c = ':' || isBlank c with
      | m :: n :: rest =>
        let hours := value [t, c]
        let minutes := value [m, n]
        if isDigit m ∧ isDigit n ∧ minutes < 60 ∧ hours < 24 then
          let total : Int := hours * 60 + minutes
          if u = '+' then some (total, rest)
          else if u = '-' || u = '−' then some (-total, rest)
          else none
        else none
      | _ => none
    else none
  | _ => none

/-- The date and the time of day that a text begins with, and what follows them. -/
structure Local where
  date : Date
  hour : Nat
  minute : Nat
  /-- 60 in a leap second -/
  second : Nat
  /-- the fraction of the second -/
  nano : Nat

/-- Reads the part of a text before the offset. -/
def local? (cs : List Char) : Option (Local × List Char) := do
  let (year, cs) ← year? cs
  let cs ← separator? '-' cs
  let (month, cs) ← part? cs
  let cs ← separator? '-' cs
  let (day, cs) ← part? cs
  let cs ← joint? cs
  let (hour, cs) ← part? cs
  let cs ← separator? ':' cs
  let (minute, cs) ← part? cs
  let cs ← separator? ':' cs
  let (second, cs) ← part? cs
  let (nano, cs) ← fraction? cs
  return (⟨⟨year, month, day⟩, hour, minute, second, nano⟩, cs)

/-- The instant of a local time at an offset of so many minutes from UTC, if there
is such a time and the calendar reaches to it. -/
def instant? (l : Local) (offset : Int) : Option Instant :=
  let minutes := l.date.toDays * 1440 + l.hour * 60 + l.minute
  if h : l.date.valid = true ∧ l.hour < 24 ∧ l.minute < 60 ∧ l.second ≤ 60
      ∧ l.nano < nanosPerSecond
      ∧ Instant.firstSecond ≤ minutes * 60 ∧ minutes * 60 ≤ Instant.lastSecond
      ∧ Instant.firstSecond ≤ (minutes - offset) * 60
      ∧ (minutes - offset) * 60 ≤ Instant.lastSecond then
    some (
      if _ : l.second = 60 then
        { second := (minutes - offset) * 60 + 59
          nano := l.nano + nanosPerSecond
          nano_lt := by unfold nanosPerSecond at *; omega
          leap := by unfold nanosPerSecond at *; omega }
      else
        { second := (minutes - offset) * 60 + l.second
          nano := l.nano
          nano_lt := by unfold nanosPerSecond at *; omega
          leap := by unfold nanosPerSecond at *; omega })
  else none

/-- The instant that a text names. -/
def parse? (s : String) : Option Instant := do
  let (l, cs) ← local? s.toList
  let (offset, cs) ← offset? (trimStart cs)
  if cs.all isBlank then instant? l offset else none

example : render (.ofSecond 951782399) = "2000-02-28T23:59:59Z" := by decide +kernel
example : (parse? "2024-02-29 23:59:60.5 +01:30").map render = some "2024-02-29T22:29:60.500Z" := by
  decide +kernel
example : parse? "2024-02-29T23:59Z" = none ∧ parse? "2023-02-29T23:59:59Z" = none := by
  decide +kernel

end JobOperator.Timestamp
