import ApiDoc.Toml.Number

/-!
# Moments

A moment is a date, a time of day, or both; one with both may also say how far its clock is from
universal time. `Moment.ofChars?` reads a moment and `Moment.render` writes it.
-/

namespace ApiDoc.Toml

/-- A day of the calendar. -/
structure Date where
  year : Nat
  month : Nat
  day : Nat
deriving DecidableEq, Repr

/-- A time of day. -/
structure Time where
  hour : Nat
  minute : Nat
  second : Nat
  /-- The digits of the fraction of the second, with no zero at the end. -/
  fraction : List Char
deriving DecidableEq, Repr

/-- How far a clock is from universal time. -/
inductive Offset where
  /-- The clock shows universal time. -/
  | universal
  | ahead (hours minutes : Nat)
  | behind (hours minutes : Nat)
deriving DecidableEq, Repr

/-- A date, a time, or both. -/
inductive Moment where
  | date (d : Date)
  | time (t : Time)
  | both (d : Date) (t : Time) (offset : Option Offset)
deriving DecidableEq, Repr

/-! ### Reading -/

/-- The number of two digits, if it is at most `high`. -/
def twoDigits? (high : Nat) (a b : Char) : Option Nat :=
  if a.isDigit && b.isDigit && valueIn 10 [a, b] ≤ high then some (valueIn 10 [a, b]) else none

namespace Date

/-- The number of days of a month. -/
def daysOf (year month : Nat) : Nat :=
  if month = 2 then
    if year % 4 = 0 && (year % 100 ≠ 0 || year % 400 = 0) then 29 else 28
  else if [4, 6, 9, 11].contains month then 30
  else 31

/-- The date that a text spells. -/
def ofChars? : List Char → Option Date
  | [y₁, y₂, y₃, y₄, '-', m₁, m₂, '-', d₁, d₂] => do
    guard ([y₁, y₂, y₃, y₄].all Char.isDigit)
    let year := valueIn 10 [y₁, y₂, y₃, y₄]
    let month ← twoDigits? 12 m₁ m₂
    let day ← twoDigits? 31 d₁ d₂
    guard (1 ≤ month && 1 ≤ day && day ≤ daysOf year month)
    return { year, month, day }
  | _ => none

end Date

namespace Time

/-- How many digits of the fraction of a second count. -/
def precision : Nat := 9

/-- The fraction that digits spell: those that count, without the zeros at the end. -/
def fractionOf (digits : List Char) : List Char :=
  ((digits.take precision).reverse.dropWhile (· = '0')).reverse

/-- The time of day at the start of a text, and what follows it. -/
def takeFrom? : List Char → Option (Time × List Char)
  | h₁ :: h₂ :: ':' :: m₁ :: m₂ :: ':' :: s₁ :: s₂ :: rest => do
    let hour ← twoDigits? 23 h₁ h₂
    let minute ← twoDigits? 59 m₁ m₂
    let second ← twoDigits? 60 s₁ s₂
    match rest with
    | '.' :: rest =>
      let digits := rest.takeWhile Char.isDigit
      guard !digits.isEmpty
      return ({ hour, minute, second, fraction := fractionOf digits }, rest.dropWhile Char.isDigit)
    | _ => return ({ hour, minute, second, fraction := [] }, rest)
  | _ => none

end Time

/-- The offset that a text spells. -/
def Offset.ofChars? : List Char → Option Offset
  | [c] => if c = 'Z' || c = 'z' then some .universal else none
  | [sign, h₁, h₂, ':', m₁, m₂] => do
    let hours ← twoDigits? 23 h₁ h₂
    let minutes ← twoDigits? 59 m₁ m₂
    if sign = '+' then return .ahead hours minutes
    else if sign = '-' then return .behind hours minutes
    else failure
  | _ => none

namespace Moment

/-- Does a character part a date from a time? -/
def isDivider (c : Char) : Bool := c = 'T' || c = 't' || c = ' '

/-- The time that a text spells, with or without an offset. -/
def timeOfChars? (cs : List Char) : Option (Time × Option Offset) := do
  let (t, rest) ← Time.takeFrom? cs
  if rest.isEmpty then return (t, none)
  let offset ← Offset.ofChars? rest
  return (t, some offset)

/-- The moment that a text spells. -/
def ofChars? (cs : List Char) : Option Moment :=
  match Date.ofChars? (cs.take 10), cs.drop 10 with
  | some d, [] => some (.date d)
  | some d, c :: rest =>
    if isDivider c then
      (timeOfChars? rest).map fun (t, offset) => .both d t offset
    else none
  | none, _ =>
    match timeOfChars? cs with
    | some (t, none) => some (.time t)
    | _ => none

end Moment

/-! ### Writing -/

/-- The decimal digits of a number, with zeros in front up to a width. -/
def paddedDigits (width n : Nat) : List Char := (Nat.toDigits 10 n).leftpad width '0'

/-- A date as it is written. -/
def Date.render (d : Date) : List Char :=
  paddedDigits 4 d.year ++ '-' :: paddedDigits 2 d.month ++ '-' :: paddedDigits 2 d.day

/-- A time as it is written. -/
def Time.render (t : Time) : List Char :=
  paddedDigits 2 t.hour ++ ':' :: paddedDigits 2 t.minute ++ ':' :: paddedDigits 2 t.second
    ++ if t.fraction.isEmpty then [] else '.' :: t.fraction

/-- An offset as it is written. A clock behind by nothing is written as one that is ahead. -/
def Offset.render : Offset → List Char
  | universal => ['Z']
  | ahead hours minutes => '+' :: paddedDigits 2 hours ++ ':' :: paddedDigits 2 minutes
  | behind hours minutes =>
    (if hours = 0 && minutes = 0 then '+' else '-') :: paddedDigits 2 hours
      ++ ':' :: paddedDigits 2 minutes

/-- A moment as it is written. -/
def Moment.render : Moment → List Char
  | date d => d.render
  | time t => t.render
  | both d t offset => d.render ++ 'T' :: t.render ++ (offset.map Offset.render).getD []

end ApiDoc.Toml
