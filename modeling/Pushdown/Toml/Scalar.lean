import Pushdown.Text.Pattern

/-!
The written forms of numbers, dates and times in TOML. No number is ever computed with, so a number is told from other
text by its form alone. Dates and times, however, have to exist.
-/

namespace Pushdown.Toml

open Pattern

def digit : Pattern := .char Char.isDigit

/-- A character between two others, both included. -/
def range (low high : Char) : Pattern := .char fun c => low ≤ c ∧ c ≤ high

/-- Digits of a class, with single underscores between them. -/
def spaced (first rest : Pattern) : Pattern := .seq first (.star (.seq (optional (one '_')) rest))

/-- A decimal number without superfluous zeros. -/
def decimal : Pattern := .alt (one '0') (spaced (range '1' '9') digit)

def sign : Pattern := optional (.char fun c => c = '+' || c = '-')

/-- A number in base sixteen, eight or two, after its mark. The mark alone is enough. -/
def based : Pattern :=
  let hex : Pattern := .alt digit (.alt (range 'a' 'f') (range 'A' 'F'))
  anyOf [
    .seq (text ['0', 'x']) (optional (spaced hex hex)),
    .seq (text ['0', 'o']) (optional (spaced (range '0' '7') (range '0' '7'))),
    .seq (text ['0', 'b']) (optional (spaced (range '0' '1') (range '0' '1')))]

/-- A character that may stand beside an underscore: a digit of base sixteen, but not the mark of an exponent. -/
def isJoint (c : Char) : Bool :=
  c.isDigit || ['a', 'b', 'c', 'd', 'f', 'A', 'B', 'C', 'D', 'F'].contains c

/--
A whole number in groups. What is between the underscores is only looked at where it meets them: a group is closed by
joints on the sides that have an underscore, and free of what would make the number another plain value.
-/
def grouped : Pattern :=
  let joint : Pattern := .char isJoint
  let free : Pattern := .star (.char fun c => !([' ', '.', 'e', 'E', '_'].contains c))
  let inner : Pattern := .seq joint (optional (.seq free joint))
  .seq sign (.seq (range '1' '9') (.seq (.star digit) (.seq (one '_')
    (.seq (.star (.seq inner (one '_'))) (.seq joint free)))))

/-- A number in base ten with optional fraction and exponent, or a name of a special number. -/
def number : Pattern :=
  .seq sign <| anyOf [
    .seq decimal (.seq
      (optional (.seq (one '.') (spaced digit digit)))
      (optional (.seq (.char fun c => c = 'e' || c = 'E') (.seq sign (spaced digit digit))))),
    text ['i', 'n', 'f'],
    text ['n', 'a', 'n']]

/-- Two digits for a number from 0 to 59. -/
def sixty : Pattern := .seq (range '0' '5') digit

/-- Two digits for an hour of the day. -/
def hour : Pattern := .alt (.seq (range '0' '1') digit) (.seq (one '2') (range '0' '3'))

/-- A year, a month and a day. -/
def date : Pattern :=
  let month : Pattern := .alt (.seq (one '0') (range '1' '9')) (.seq (one '1') (range '0' '2'))
  let day : Pattern := anyOf [
    .seq (one '0') (range '1' '9'), .seq (range '1' '2') digit, .seq (one '3') (range '0' '1')]
  .seq (.seq digit (.seq digit (.seq digit digit))) (.seq (one '-') (.seq month (.seq (one '-') day)))

/-- An hour and a minute, with optional second and fraction. -/
def time : Pattern :=
  let second : Pattern := .alt sixty (text ['6', '0'])
  .seq hour (.seq (one ':') (.seq sixty
    (optional (.seq (one ':') (.seq second (optional (.seq (one '.') (plus digit))))))))

/-- The distance from universal time. -/
def zone : Pattern :=
  .alt (.char fun c => c = 'Z' || c = 'z')
    (.seq (.char fun c => c = '+' || c = '-') (.seq hour (.seq (one ':') sixty)))

/-- A date with an optional time and zone. -/
def moment : Pattern :=
  .seq date (optional (.seq (.char fun c => c = 'T' || c = 't' || c = ' ') (.seq time (optional zone))))

/-- The value of a decimal digit. -/
def digitValue (c : Char) : Nat := c.toNat - 48

/-- The number of days of a month. -/
def monthLength (year month : Nat) : Nat :=
  if month = 2 then
    if year % 4 = 0 ∧ (year % 100 ≠ 0 ∨ year % 400 = 0) then 29 else 28
  else if month = 4 ∨ month = 6 ∨ month = 9 ∨ month = 11 then 30
  else 31

/-- Whether the month of a date has the day. -/
def dayExists : List Char → Bool
  | y₁ :: y₂ :: y₃ :: y₄ :: _ :: m₁ :: m₂ :: _ :: d₁ :: d₂ :: _ =>
    let number (digits : List Char) : Nat := digits.foldl (fun n c => 10 * n + digitValue c) 0
    number [d₁, d₂] ≤ monthLength (number [y₁, y₂, y₃, y₄]) (number [m₁, m₂])
  | _ => false

/-- Whether the text is a number, a date that exists, or a time. -/
def isScalar (written : List Char) : Bool :=
  number.accepts written || based.accepts written || grouped.accepts written || time.accepts written ||
    (moment.accepts written && dayExists written)

end Pushdown.Toml
