import ViewHierarchy.Yaml.Fault

/-! Dates and times in YAML documents. -/
namespace ViewHierarchy.Yaml

structure Clock where
  hour : Nat
  minute : Nat
  second : Nat
  /-- Hours and minutes away from universal time. -/
  offset : Option (Nat × Nat)

structure Timestamp where
  year : Nat
  month : Nat
  day : Nat
  clock : Option Clock

namespace Timestamp

def ofDigits (digits : List Char) : Nat :=
  digits.foldl (fun n d => 10 * n + (d.toNat - 48)) 0

/-- A run of digits whose length lies between the bounds, and what follows it. -/
def digits? (least most : Nat) (s : List Char) : Option (Nat × List Char) :=
  let run := s.takeWhile Char.isDigit
  if least ≤ run.length ∧ run.length ≤ most then some (ofDigits run, s.drop run.length) else none

def expect? (c : Char) : List Char → Option (List Char)
  | [] => none
  | c' :: rest => if c' = c then some rest else none

def skipBlanks (s : List Char) : List Char := s.dropWhile fun c => c == ' ' || c == '\t'

/-- What separates a date from a time: a letter or white space. -/
def afterSeparator? : List Char → Option (List Char)
  | 'T' :: rest => some rest
  | 't' :: rest => some rest
  | ' ' :: rest => some (skipBlanks rest)
  | '\t' :: rest => some (skipBlanks rest)
  | _ => none

/-- A sign with hours and perhaps minutes, to the end of the text. -/
def offset? (s : List Char) : Option (Nat × Nat) := do
  let (hours, s) ← digits? 1 2 s
  match s with
  | [] => some (hours, 0)
  | ':' :: s => do
    let (minutes, s) ← digits? 2 2 s
    if s.isEmpty then some (hours, minutes) else none
  | _ => none

/-- The zone that ends a text; without one there is no offset. -/
def zone? (s : List Char) : Option (Option (Nat × Nat)) :=
  if s.isEmpty then some none
  else
    match skipBlanks s with
    | ['Z'] => some none
    | '+' :: rest => (offset? rest).map some
    | '-' :: rest => (offset? rest).map some
    | _ => none

def clock? (s : List Char) : Option Clock := do
  let (hour, s) ← digits? 1 2 s
  let (minute, s) ← digits? 2 2 (← expect? ':' s)
  let (second, s) ← digits? 2 2 (← expect? ':' s)
  let s := match s with
    | '.' :: rest => rest.dropWhile Char.isDigit
    | s => s
  let offset ← zone? s
  return ⟨hour, minute, second, offset⟩

/-- A date, or a date and a time; a line break at the end does not count. -/
def parse? (s : List Char) : Option Timestamp := do
  let s := if s.getLast? = some '\n' then s.dropLast else s
  let (year, s) ← digits? 4 4 s
  let (month, s) ← digits? 1 2 (← expect? '-' s)
  let (day, s) ← digits? 1 2 (← expect? '-' s)
  if s.isEmpty then return ⟨year, month, day, none⟩
  let clock ← clock? (← afterSeparator? s)
  return ⟨year, month, day, some clock⟩

def isLeapYear (y : Nat) : Bool := y % 4 == 0 && (y % 100 != 0 || y % 400 == 0)

def daysIn (year month : Nat) : Nat :=
  if month = 2 then if isLeapYear year then 29 else 28
  else if month = 4 ∨ month = 6 ∨ month = 9 ∨ month = 11 then 30
  else 31

def Clock.isValid (c : Clock) : Bool :=
  decide (c.hour < 24) && decide (c.minute < 60) && decide (c.second < 60) &&
    c.offset.all fun (hours, minutes) => decide (hours * 60 + minutes < 1440)

/-- Whether the date is in the calendar and the time on the clock. -/
def isValid (t : Timestamp) : Bool :=
  decide (1 ≤ t.year) && decide (1 ≤ t.month ∧ t.month ≤ 12) &&
    decide (1 ≤ t.day ∧ t.day ≤ daysIn t.year t.month) && t.clock.all Clock.isValid

def check (s : List Char) : Except Fault Unit :=
  match parse? s with
  | none => .error .date
  | some t => if t.isValid then .ok () else .error .value

end Timestamp

end ViewHierarchy.Yaml
