import RowPlan.Toml.Scan

/-!
Dates and times of TOML: a date, a time of day, or both, then perhaps with an offset. Only their form
and ranges matter here, so scanning one yields nothing but the rest.
-/

namespace RowPlan.Toml

/-- A number of two digits within bounds. -/
def twoDigits (low high : Nat) : Scanner Nat := fun cs => do
  let (ds, rest) ← fixedDigits 10 2 cs
  let n := ofDigits 10 ds
  if low ≤ n ∧ n ≤ high then return (n, rest) else none

def daysInMonth (year month : Nat) : Nat :=
  if month = 2 then
    if year % 4 = 0 ∧ (year % 100 ≠ 0 ∨ year % 400 = 0) then 29 else 28
  else if month = 4 ∨ month = 6 ∨ month = 9 ∨ month = 11 then 30
  else 31

/-- A date: `year-month-day`, the day being one of the month. -/
def date? (cs : List Char) : Option (List Char) := do
  let (ds, cs) ← fixedDigits 10 4 cs
  let (month, cs) ← twoDigits 1 12 (← skip? ['-'] cs)
  let (_, cs) ← twoDigits 1 (daysInMonth (ofDigits 10 ds) month) (← skip? ['-'] cs)
  return cs

/-- The digits of a fraction of a second, if there are any. -/
def skipFraction : List Char → List Char
  | '.' :: c :: cs => if c.isDigit then cs.dropWhile Char.isDigit else '.' :: c :: cs
  | cs => cs

/-- A time of day: `hour:minute:second`, a leap second included, with a fraction perhaps. -/
def time? (cs : List Char) : Option (List Char) := do
  let (_, cs) ← twoDigits 0 23 cs
  let (_, cs) ← twoDigits 0 59 (← skip? [':'] cs)
  let (_, cs) ← twoDigits 0 60 (← skip? [':'] cs)
  return skipFraction cs

/-- An offset: `Z`, or a sign and `hour:minute`. -/
def offset? : List Char → Option (List Char)
  | c :: cs =>
    if c = 'Z' ∨ c = 'z' then some cs
    else if c = '+' ∨ c = '-' then do
      let (_, cs) ← twoDigits 0 23 cs
      let (_, cs) ← twoDigits 0 59 (← skip? [':'] cs)
      return cs
    else none
  | [] => none

/-- The time after a date and the character that separates them. -/
def timeAfterDate? : List Char → Option (List Char)
  | c :: cs =>
    if c = 'T' ∨ c = 't' ∨ c = ' ' then (time? cs).map fun cs => (offset? cs).getD cs else none
  | [] => none

/-- A date, a date with a time, or a time. A date stands alone if no time follows it. -/
def moment : Scanner Unit := fun cs =>
  match date? cs with
  | some rest => some ((), (timeAfterDate? rest).getD rest)
  | none => (time? cs).map fun rest => ((), rest)

end RowPlan.Toml
