import ViewHierarchy.Text.Utf8
import ViewHierarchy.Yaml.Cursor
import ViewHierarchy.Yaml.Token

/-! Names in YAML documents: anchors and aliases, tags, and directives. -/
namespace ViewHierarchy.Yaml
open Cursor

def isNameCharacter (c : Char) : Bool := c.isAlphanum || c == '-' || c == '_'

def isUriCharacter (c : Char) : Bool := c.isAlphanum || "-;/?:@&=+$,_.!~*'()[]%".toList.contains c

def hexValue? (c : Char) : Option Nat :=
  if c.isDigit then some (c.toNat - 48)
  else if 'a' ≤ c ∧ c ≤ 'f' then some (c.toNat - 87)
  else if 'A' ≤ c ∧ c ≤ 'F' then some (c.toNat - 55)
  else none

/-- The value of exactly `n` hexadecimal digits ahead. -/
def hexNumber? (n : Nat) (s : List Char) : Option Nat := do
  let digits ← (s.take n).mapM hexValue?
  if digits.length = n then some (digits.foldl (fun v d => 16 * v + d) 0) else none

def name (c : Cursor) : Except Fault (String × Cursor) :=
  match c.span isNameCharacter with
  | ([], _) => .error .token
  | (n, c) => .ok (String.ofList n, c)

def anchorName (c : Cursor) : Except Fault (String × Cursor) := do
  let (n, c) ← name c.next
  let ends := match c.peek with
    | none => true
    | some ch => endsToken (some ch) || ['?', ':', ',', ']', '}', '%', '@', '\x60'].contains ch
  if ends then .ok (n, c) else .error .token

/-- Escaped bytes of a tag; together they are UTF-8. -/
def uriEscapes : Nat → List UInt8 → Cursor → Except Fault (List Char × Cursor)
  | 0, _, _ => .error .token
  | fuel + 1, bytes, c =>
    match c.rest with
    | '%' :: digits =>
      match hexNumber? 2 digits with
      | some n => uriEscapes fuel (bytes ++ [n.toUInt8]) (c.advance 3)
      | none => .error .token
    | _ =>
      match Text.Utf8.decode? bytes with
      | some text => .ok (text, c)
      | none => .error .token

def uriFrom : Nat → List Char → Cursor → Except Fault (List Char × Cursor)
  | 0, text, c => .ok (text, c)
  | fuel + 1, text, c =>
    match c.peek with
    | some ch =>
      if ch == '%' then do
        let (piece, c) ← uriEscapes (c.rest.length + 1) [] c
        uriFrom fuel (text ++ piece) c
      else if isUriCharacter ch then
        let (piece, c) := c.span fun ch => isUriCharacter ch && ch != '%'
        uriFrom fuel (text ++ piece) c
      else .ok (text, c)
    | none => .ok (text, c)

/-- The body of a tag, at least one character as written. -/
def uri (c : Cursor) : Except Fault (String × Cursor) := do
  let (text, after) ← uriFrom (c.rest.length + 1) [] c
  if after.index = c.index then .error .token else .ok (String.ofList text, after)

/-- A tag handle: an exclamation mark on its own before a space, else a name between two, or two
that touch. -/
def tagHandle (c : Cursor) : Except Fault (String × Cursor) :=
  if c.peek = some '!' then
    if c.peekAt 1 = some ' ' then .ok ("!", c.next)
    else
      let (n, after) := c.next.span isNameCharacter
      if after.peek = some '!' then .ok (String.ofList ('!' :: n ++ ['!']), after.next)
      else .error .token
  else .error .token

/-- A tag, with its handle if it has one. -/
def tag (c : Cursor) : Except Fault (Token × Cursor) := do
  let (t, c) ← match c.peekAt 1 with
    | some '<' => do
      let (suffix, c) ← uri (c.advance 2)
      if c.peek = some '>' then .ok (Token.tag none suffix, c.next) else .error .token
    | ch =>
      if endsToken ch then .ok (Token.tag none "!", c.next)
      else do
        let word := c.next.rest.takeWhile fun ch => !(endsWord (some ch))
        let (handle, c) ← if word.contains '!' then tagHandle c else .ok ("!", c.next)
        let (suffix, c) ← uri c
        .ok (Token.tag (some handle) suffix, c)
  if endsWord c.peek then .ok (t, c) else .error .token

/-- The most digits that a version number may have. -/
def maxVersionDigits : Nat := 4300

def versionNumber (c : Cursor) : Except Fault (Nat × Cursor) :=
  match c.span Char.isDigit with
  | ([], _) => .error .token
  | (digits, c) =>
    if digits.length > maxVersionDigits then .error .value
    else .ok (digits.foldl (fun v d => 10 * v + (d.toNat - 48)) 0, c)

def versionDirective (c : Cursor) : Except Fault (Directive × Cursor) := do
  let (major, c) ← versionNumber c.skipSpaces
  if c.peek = some '.' then do
    let (minor, c) ← versionNumber c.next
    if endsWord c.peek then .ok (.version major minor, c) else .error .token
  else .error .token

def tagDirective (c : Cursor) : Except Fault (Directive × Cursor) := do
  let (handle, c) ← tagHandle c.skipSpaces
  if c.peek = some ' ' then do
    let (lead, c) ← uri c.skipSpaces
    if endsWord c.peek then .ok (.tagHandle handle lead, c) else .error .token
  else .error .token

def directive (c : Cursor) : Except Fault (Token × Cursor) := do
  let (n, c) ← name c.next
  if endsWord c.peek then do
    let (d, c) ←
      if n = "YAML" then versionDirective c
      else if n = "TAG" then tagDirective c
      else .ok (Directive.other, c.skip fun ch => !isBreak ch)
    return (.directive d, ← c.finishLine)
  else .error .token

end ViewHierarchy.Yaml
