/-!
# Dates

Days since the epoch as dates of the Gregorian calendar, and the two text forms the program
writes: `timestampText` (`YYYY-MM-DD HH:MM:SS`) and `internetText` (the date and time with its
offset from UTC, a fraction only where there is one).
-/

namespace Courier.Calendar

/-- A day of the Gregorian calendar. -/
structure Date where
  year : Int
  month : Nat
  day : Nat
  deriving DecidableEq, Repr

/-- The date of the day that many days after 1970-01-01. Days are counted from the first of March
of year 0, in eras of 400 years, so that the leap day ends its year. -/
def Date.ofDays (days : Int) : Date :=
  let shifted := days + 719468
  let era := shifted.fdiv 146097
  let dayOfEra := (shifted - era * 146097).toNat
  let yearOfEra := (dayOfEra - dayOfEra / 1460 + dayOfEra / 36524 - dayOfEra / 146096) / 365
  let dayOfYear := dayOfEra - (365 * yearOfEra + yearOfEra / 4 - yearOfEra / 100)
  let marchMonth := (5 * dayOfYear + 2) / 153
  let day := dayOfYear - (153 * marchMonth + 2) / 5 + 1
  let month := if marchMonth < 10 then marchMonth + 3 else marchMonth - 9
  let year := (yearOfEra : Int) + era * 400
  ⟨if month ≤ 2 then year + 1 else year, month, day⟩

example : Date.ofDays 0 = ⟨1970, 1, 1⟩ := by decide
example : Date.ofDays 11016 = ⟨2000, 2, 29⟩ := by decide
example : Date.ofDays (-1) = ⟨1969, 12, 31⟩ := by decide

/-- A number with zeros in front of it, up to a width. -/
def padded (width n : Nat) : String :=
  let digits := toString n
  String.ofList (List.replicate (width - digits.length) '0') ++ digits

/-- Hours, minutes and seconds of a second of the day. -/
def timeOfDay (second : Nat) : String :=
  padded 2 (second / 3600) ++ ":" ++ padded 2 (second / 60 % 60) ++ ":" ++ padded 2 (second % 60)

/-- A year with four digits, and with its sign if it lies outside the years 0 to 9999. -/
def yearText (year : Int) : String :=
  if 0 ≤ year ∧ year ≤ 9999 then padded 4 year.toNat
  else if year < 0 then "-" ++ padded 4 year.natAbs
  else "+" ++ padded 4 year.toNat

/-- The date part of a text form. -/
def Date.text (d : Date) : String :=
  yearText d.year ++ "-" ++ padded 2 d.month ++ "-" ++ padded 2 d.day

/-- Milliseconds since the epoch as UTC date and time, whole seconds only. -/
def timestampText (ms : Int) : String :=
  let seconds := ms.fdiv 1000
  (Date.ofDays (seconds.fdiv 86400)).text ++ " " ++ timeOfDay (seconds.fmod 86400).toNat

/-- The first and the last millisecond that have a date in the text form with offset. -/
def internetRange : Int × Int :=
  (-8334601228800000, 8210266876799999)

/-- Milliseconds since the epoch as UTC date and time with offset; nothing outside the years the
form can name. -/
def internetText? (ms : Int) : Option String :=
  if internetRange.1 ≤ ms ∧ ms ≤ internetRange.2 then
    let seconds := ms.fdiv 1000
    let fraction := (ms.fmod 1000).toNat
    some <| (Date.ofDays (seconds.fdiv 86400)).text ++ "T" ++
      timeOfDay (seconds.fmod 86400).toNat ++
      (if fraction = 0 then "" else "." ++ padded 3 fraction) ++ "+00:00"
  else none

end Courier.Calendar
