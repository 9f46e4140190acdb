import ViewHierarchy.Text.Blank
import ViewHierarchy.Text.Digit
import ViewHierarchy.Text.LowerCase
import ViewHierarchy.Yaml.Fault

/-! Numbers as YAML documents write them: integers in bases two to sixteen and sixty, and the texts
that are floating-point numbers. -/
namespace ViewHierarchy.Yaml.Number
open Text

/-- White space around a number; the separators of ASCII are not among it. -/
def isPadding (c : Char) : Bool := Text.isBlank c && !decide (28 ≤ c.toNat ∧ c.toNat ≤ 31)

def strip (s : List Char) : List Char :=
  ((s.dropWhile isPadding).reverse.dropWhile isPadding).reverse

/-- The value of a digit: decimal digits of any script, and the letters after them. -/
def digit? (c : Char) : Option Nat :=
  if 'a' ≤ c ∧ c ≤ 'z' then some (c.toNat - 87)
  else if 'A' ≤ c ∧ c ≤ 'Z' then some (c.toNat - 55)
  else digitValue? c

/-- The most digits of a number whose base is no power of two. -/
def maxDigits : Nat := 4300

def natural? (base : Nat) (s : List Char) : Option Nat := do
  let digits ← s.mapM digit?
  if digits.isEmpty || digits.any (decide <| base ≤ ·) then none
  else if base = 10 ∧ digits.length > maxDigits then none
  else some (digits.foldl (fun n d => base * n + d) 0)

def dropBaseMark (base : Nat) (s : List Char) : List Char :=
  match base, s with
  | 2, '0' :: c :: rest => if c == 'b' || c == 'B' then rest else s
  | 8, '0' :: c :: rest => if c == 'o' || c == 'O' then rest else s
  | 16, '0' :: c :: rest => if c == 'x' || c == 'X' then rest else s
  | _, _ => s

def takeSign : List Char → Int × List Char
  | '-' :: rest => (-1, rest)
  | '+' :: rest => (1, rest)
  | s => (1, s)

/-- An integer with an optional sign and mark of its base, white space around it aside. -/
def integer? (base : Nat) (s : List Char) : Option Int :=
  let (sign, digits) := takeSign (strip s)
  (natural? base (dropBaseMark base digits)).map fun n => sign * n

def colonParts (piece : List Char) : List Char → List (List Char)
  | [] => [piece.reverse]
  | ':' :: rest => piece.reverse :: colonParts [] rest
  | c :: rest => colonParts (c :: piece) rest

/-- An integer that an unsigned text stands for; a leading zero announces base eight. -/
def unsigned? (s : List Char) : Option Int :=
  match s with
  | ['0'] => some 0
  | '0' :: 'b' :: rest => integer? 2 rest
  | '0' :: 'x' :: rest => integer? 16 rest
  | '0' :: _ => integer? 8 s
  | _ =>
    if s.contains ':' then
      ((colonParts [] s).mapM (integer? 10)).map fun parts => parts.foldl (fun n d => 60 * n + d) 0
    else integer? 10 s

/-- The integer of a scalar; underscores between its digits do not count. -/
def readInteger (s : List Char) : Except Fault Int :=
  match s.filter (· != '_') with
  | [] => .error .emptyNumber
  | c :: rest =>
    let (sign, digits) := takeSign (c :: rest)
    if digits.isEmpty then .error .emptyNumber
    else
      match unsigned? digits with
      | some n => .ok (sign * n)
      | none => .error .value

def isDigit (c : Char) : Bool := (digitValue? c).isSome

/-- What may follow the digits of a floating-point number: nothing, or an exponent. -/
def isExponent (s : List Char) : Bool :=
  match s with
  | [] => true
  | 'e' :: rest =>
    let digits := (takeSign rest).2
    !digits.isEmpty && digits.all isDigit
  | _ => false

def isDecimal (s : List Char) : Bool :=
  let s := (takeSign (strip s)).2
  if s == "inf".toList || s == "infinity".toList || s == "nan".toList then true
  else
    let whole := s.takeWhile isDigit
    match s.dropWhile isDigit with
    | '.' :: rest =>
      let fraction := rest.takeWhile isDigit
      !(whole.isEmpty && fraction.isEmpty) && isExponent (rest.dropWhile isDigit)
    | rest => !whole.isEmpty && isExponent rest

def checkFloat (s : List Char) : Except Fault Unit :=
  match lower (s.filter (· != '_')) with
  | [] => .error .emptyNumber
  | c :: rest =>
    let s := (takeSign (c :: rest)).2
    if s == ".inf".toList || s == ".nan".toList then .ok ()
    else if (colonParts [] s).all isDecimal then .ok ()
    else .error .value

end ViewHierarchy.Yaml.Number
