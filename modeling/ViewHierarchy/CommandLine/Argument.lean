import ViewHierarchy.CommandLine.Switch
import ViewHierarchy.Text.Digit

/-! Arguments: what each text on the command line is taken for. -/
namespace ViewHierarchy.CommandLine

inductive Argument where
  | operand (text : String)
  /-- Two dashes; nothing after them is a switch. -/
  | separator
  | switch (s : Switch)
  | assigned (s : Switch) (value : List Char)
  /-- A flag by its letter, and more letters behind it. -/
  | bundle (f : Flag) (letters : List Char)
  | unknown (text : String)
deriving DecidableEq

namespace Argument

def splitAtEquals (s : List Char) : List Char × Option (List Char) :=
  match s.dropWhile (· ≠ '=') with
  | [] => (s, none)
  | _ :: value => (s.takeWhile (· ≠ '='), some value)

def isDigit (c : Char) : Bool := (Text.digitValue? c).isSome

def chomp (s : List Char) : List Char := if s.getLast? = some '\n' then s.dropLast else s

/-- Digits, or a fraction whose whole part may be missing. -/
def isNumeral (s : List Char) : Bool :=
  match (chomp s).dropWhile isDigit with
  | [] => !(chomp s).isEmpty
  | '.' :: fraction => !fraction.isEmpty && fraction.all isDigit
  | _ => false

/-- A text behind a dash that names no switch: negative numbers and phrases are operands. -/
def ofUnnamed (s : List Char) : Argument :=
  if isNumeral (s.drop 1) || s.contains ' ' then .operand (String.ofList s)
  else .unknown (String.ofList s)

/-- A switch by its name or by the start of one, with the value assigned to it. -/
def ofLong (s : List Char) : Except Misuse Argument :=
  let (name, value) := splitAtEquals s
  match Switch.abbreviated name, value with
  | [], _ => .ok (ofUnnamed s)
  | [(_, found)], none => .ok (.switch found)
  | [(_, found)], some value => .ok (.assigned found value)
  | candidates, _ => .error (.ambiguous (String.ofList s) (candidates.map Prod.fst))

def ofShort (s : List Char) : Argument :=
  match s with
  | '-' :: letter :: letters =>
    match Flag.ofLetter? letter with
    | some f => .bundle f letters
    | none => ofUnnamed s
  | _ => .operand (String.ofList s)

def named? (s : List Char) : Option Argument :=
  match Switch.named? s, splitAtEquals s with
  | some found, _ => some (.switch found)
  | none, (name, some value) => (Switch.named? name).map (.assigned · value)
  | none, (_, none) => none

def ofText (s : List Char) : Except Misuse Argument :=
  match named? s, s with
  | some argument, _ => .ok argument
  | none, '-' :: '-' :: _ => ofLong s
  | none, _ => .ok (ofShort s)

def ofTexts : List String → Except Misuse (List Argument)
  | [] => .ok []
  | text :: rest =>
    if text = "--" then .ok (.separator :: rest.map .operand)
    else do
      let argument ← ofText text.toList
      return argument :: (← ofTexts rest)

end Argument

end ViewHierarchy.CommandLine
