import MappedNetlist.Text.Reader

/-!
# TOML dates and times

A moment is a date, a time of day, or a date with a time and possibly an offset from universal
time. Only its form and the ranges of its parts are checked; a leap second counts as second 60.
-/

namespace MappedNetlist.Toml

open Reader

/-- A number of exactly `count` digits. -/
def fixedDigits (count : Nat) : Reader Nat := do
  return Nat.ofDigitChars 10 (← exactly Char.isDigit count) 0

/-- A number of two digits in a range. -/
def twoDigits (low high : Nat) : Reader Nat := do
  let n ← fixedDigits 2
  if low ≤ n ∧ n ≤ high then return n else failure

def isLeapYear (year : Nat) : Bool :=
  year % 4 = 0 && (year % 100 ≠ 0 || year % 400 = 0)

def daysInMonth (year month : Nat) : Nat :=
  if month = 2 then (if isLeapYear year then 29 else 28)
  else if month = 4 ∨ month = 6 ∨ month = 9 ∨ month = 11 then 30
  else 31

def date : Reader Unit := do
  let year ← fixedDigits 4
  char '-'
  let month ← twoDigits 1 12
  char '-'
  let _ ← twoDigits 1 (daysInMonth year month)

def time : Reader Unit := do
  let _ ← twoDigits 0 23
  char ':'
  let _ ← twoDigits 0 59
  char ':'
  let _ ← twoDigits 0 60
  let _ ← optional (do char '.'; let _ ← run1 Char.isDigit)

def offset : Reader Unit :=
  (do let _ ← satisfy fun c => c = 'Z' || c = 'z') <|> (do
    let _ ← satisfy fun c => c = '+' || c = '-'
    let _ ← twoDigits 0 23
    char ':'
    let _ ← twoDigits 0 59)

def moment : Reader Unit :=
  (do
    date
    let _ ← optional (do
      let _ ← satisfy fun c => c = 'T' || c = 't' || c = ' '
      time
      let _ ← optional offset)) <|>
  time

end MappedNetlist.Toml
