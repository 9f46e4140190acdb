import ViewHierarchy.Yaml.Timestamp

/-! The tags of YAML values, and those that plain scalars take from their text. -/
namespace ViewHierarchy.Yaml

/-- The tags of the core types. -/
inductive Tag where
  | null
  | bool
  | int
  | float
  | binary
  | timestamp
  | str
  | seq
  | map
  | omap
  | pairs
  | set
  | merge
  | value
  | other
deriving DecidableEq

namespace Tag

def lead : String := "tag:yaml.org,2002:"

def known : List (String × Tag) :=
  [ ("null", .null), ("bool", .bool), ("int", .int), ("float", .float), ("binary", .binary),
    ("timestamp", .timestamp), ("str", .str), ("seq", .seq), ("map", .map), ("omap", .omap),
    ("pairs", .pairs), ("set", .set), ("merge", .merge), ("value", .value) ]

def ofName (name : String) : Tag :=
  match known.find? fun (suffix, _) => lead ++ suffix == name with
  | some (_, tag) => tag
  | none => .other

def isCollection : Tag → Bool
  | seq | map | omap | pairs | set => true
  | _ => false

end Tag

namespace Plain

def boolWords : List String :=
  [ "yes", "Yes", "YES", "no", "No", "NO", "true", "True", "TRUE", "false", "False", "FALSE",
    "on", "On", "ON", "off", "Off", "OFF" ]

def nullWords : List String := ["~", "null", "Null", "NULL"]

def isDigitOrLine (c : Char) : Bool := c.isDigit || c == '_'

def unsigned : List Char → List Char
  | '-' :: rest => rest
  | '+' :: rest => rest
  | s => s

/-- What follows the parts of a number in base sixty, each a colon with one digit, or two below
sixty. -/
def afterSixties? : List Char → Option (List Char)
  | ':' :: a :: b :: rest =>
    if a.isDigit && b.isDigit then
      if decide (a ≤ '5') then some ((afterSixties? rest).getD rest) else none
    else if a.isDigit then some ((afterSixties? (b :: rest)).getD (b :: rest))
    else none
  | [':', a] => if a.isDigit then some [] else none
  | _ => none

def isExponent : List Char → Bool
  | [] => true
  | e :: sign :: digits =>
    (e == 'e' || e == 'E') && (sign == '-' || sign == '+') && !digits.isEmpty &&
      digits.all Char.isDigit
  | _ => false

def isInt (s : List Char) : Bool :=
  match unsigned s with
  | ['0'] => true
  | '0' :: 'b' :: rest => !rest.isEmpty && rest.all fun c => c == '0' || c == '1' || c == '_'
  | '0' :: 'x' :: rest =>
    !rest.isEmpty && rest.all fun c =>
      isDigitOrLine c || decide ('a' ≤ c ∧ c ≤ 'f') || decide ('A' ≤ c ∧ c ≤ 'F')
  | '0' :: rest => rest.all fun c => decide ('0' ≤ c ∧ c ≤ '7') || c == '_'
  | c :: rest =>
    let after := rest.dropWhile isDigitOrLine
    c.isDigit && (after.isEmpty || afterSixties? after == some [])
  | [] => false

def isFloat (s : List Char) : Bool :=
  match s with
  | '.' :: rest =>
    let after := rest.dropWhile isDigitOrLine
    ["inf", "Inf", "INF", "nan", "NaN", "NAN"].contains (String.ofList rest) ||
      (rest.head?.any Char.isDigit && isExponent after)
  | _ =>
    match unsigned s with
    | '.' :: rest => ["inf", "Inf", "INF"].contains (String.ofList rest)
    | c :: rest =>
      c.isDigit &&
        match rest.dropWhile isDigitOrLine with
        | '.' :: fraction => isExponent (fraction.dropWhile isDigitOrLine)
        | after =>
          match afterSixties? after with
          | some ('.' :: fraction) => fraction.all isDigitOrLine
          | _ => false
    | [] => false

/-- A date alone is written with all its digits. -/
def isTimestamp (s : List Char) : Bool :=
  match Timestamp.parse? s with
  | some t => t.clock.isSome || s.length == 10
  | none => false

/-- The tag that a plain scalar takes from its text. A line break at its end does not count, except
in front of which nothing stands. -/
def tag (text : String) : Tag :=
  let s := text.toList
  if s.isEmpty then .null
  else if s.head? == some '\n' then .str
  else
    let s := if s.getLast? = some '\n' then s.dropLast else s
    let word := String.ofList s
    if boolWords.contains word then .bool
    else if isFloat s then .float
    else if isInt s then .int
    else if word == "<<" then .merge
    else if nullWords.contains word then .null
    else if isTimestamp s then .timestamp
    else if word == "=" then .value
    else if word == "!" || word == "&" || word == "*" then .other
    else .str

end Plain

end ViewHierarchy.Yaml
