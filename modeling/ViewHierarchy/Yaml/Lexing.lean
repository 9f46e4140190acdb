import ViewHierarchy.Yaml.Scalar

/-! The tokens of a YAML document. Indentation opens and closes collections, and a colon turns what
stands before it on its line into a key; so a token is released only when it can no longer become
one. -/
namespace ViewHierarchy.Yaml
open Cursor

/-- A place where a key may have started. Outside brackets, at the indentation of the collection,
nothing but a key may stand there. -/
structure KeyStart where
  number : Nat
  required : Bool
  index : Nat
  line : Nat
  column : Nat

structure Lexer where
  cursor : Cursor
  /-- Brackets opened less brackets closed. -/
  flow : Int
  indent : Int
  outer : List Int
  keyAllowed : Bool
  keys : List (Int × KeyStart)
  /-- The number of tokens released. -/
  taken : Nat
  queue : List Token
  finished : Bool

namespace Lexer

def start (text : List Char) : Lexer := ⟨Cursor.start text, 0, -1, [], true, [], 0, [], false⟩

def push (t : Token) (s : Lexer) : Lexer := { s with queue := s.queue ++ [t] }

/-- Puts a token before the queued one of the given number. -/
def pushAt (number : Nat) (t : Token) (s : Lexer) : Lexer :=
  let n := number - s.taken
  { s with queue := s.queue.take n ++ t :: s.queue.drop n }

/-- The most characters between the start of a key and its colon. -/
def maxKeyLength : Nat := 1024

def isStale (s : Lexer) (key : KeyStart) : Bool :=
  key.line != s.cursor.line || decide (s.cursor.index - key.index > maxKeyLength)

/-- Gives up the key starts that are too far back. -/
def dropStale (s : Lexer) : Except Fault Lexer :=
  if s.keys.any fun (_, key) => s.isStale key && key.required then .error .token
  else .ok { s with keys := s.keys.filter fun (_, key) => !s.isStale key }

/-- Gives up the key start of the current bracket level. -/
def dropKey (s : Lexer) : Except Fault Lexer :=
  match s.keys.lookup s.flow with
  | none => .ok s
  | some key =>
    if key.required then .error .token
    else .ok { s with keys := s.keys.filter fun (level, _) => level != s.flow }

def saveKey (s : Lexer) : Except Fault Lexer :=
  if s.keyAllowed then do
    let s ← s.dropKey
    let key : KeyStart :=
      ⟨s.taken + s.queue.length, s.flow == 0 && s.indent == s.cursor.column, s.cursor.index,
        s.cursor.line, s.cursor.column⟩
    return { s with keys := (s.flow, key) :: s.keys }
  else .ok s

/-- Closes the collections indented further than a column. -/
def unwindFrom (column : Int) : List Int → Lexer → Lexer
  | [], s => s
  | indent :: outer, s =>
    if s.indent > column then
      unwindFrom column outer { s.push .blockEnd with indent, outer }
    else s

def unwind (column : Int) (s : Lexer) : Lexer :=
  if s.flow == 0 then unwindFrom column s.outer s else s

def isDeeper (column : Nat) (s : Lexer) : Bool := decide (s.indent < column)

def indentTo (column : Nat) (s : Lexer) : Lexer :=
  { s with indent := column, outer := s.indent :: s.outer }

/-- Opens a collection at the current column if that lies further in. -/
def openBlock (t : Token) (s : Lexer) : Lexer :=
  if s.isDeeper s.cursor.column then (s.indentTo s.cursor.column).push t else s

def moved (c : Cursor) (s : Lexer) : Lexer := { s with cursor := c }

def allowKey (allowed : Bool) (s : Lexer) : Lexer := { s with keyAllowed := allowed }

/-- Skips white space, comments and line breaks before a token. -/
def skipToToken : Nat → Lexer → Lexer
  | 0, s => s
  | fuel + 1, s =>
    let c := s.cursor.skipSpaces.skipComment
    match c.lineBreak? with
    | some (_, c) =>
      skipToToken fuel { s with cursor := c, keyAllowed := s.flow == 0 || s.keyAllowed }
    | none => s.moved c

def skipByteOrderMark (s : Lexer) : Lexer :=
  if s.cursor.index = 0 ∧ s.cursor.peek = some byteOrderMark then s.moved s.cursor.next else s

def fetchStreamEnd (s : Lexer) : Except Fault Lexer := do
  let s ← (s.unwind (-1)).dropKey
  return { s.push .streamEnd with keyAllowed := false, keys := [], finished := true }

def fetchDirective (s : Lexer) : Except Fault Lexer := do
  let s ← (s.unwind (-1)).dropKey
  let (t, c) ← directive s.cursor
  return ((s.allowKey false).moved c).push t

def fetchDocumentMark (t : Token) (s : Lexer) : Except Fault Lexer := do
  let s ← (s.unwind (-1)).dropKey
  return ((s.allowKey false).moved (s.cursor.advance 3)).push t

def fetchFlowStart (t : Token) (s : Lexer) : Except Fault Lexer := do
  let s ← s.saveKey
  return { (s.moved s.cursor.next).push t with flow := s.flow + 1, keyAllowed := true }

def fetchFlowEnd (t : Token) (s : Lexer) : Except Fault Lexer := do
  let s ← s.dropKey
  return { (s.moved s.cursor.next).push t with flow := s.flow - 1, keyAllowed := false }

def fetchFlowEntry (s : Lexer) : Except Fault Lexer := do
  let s ← (s.allowKey true).dropKey
  return (s.moved s.cursor.next).push .flowEntry

def fetchBlockEntry (s : Lexer) : Except Fault Lexer :=
  if s.flow == 0 && !s.keyAllowed then .error .token
  else do
    let s := if s.flow == 0 then s.openBlock .blockSequenceStart else s
    let s ← (s.allowKey true).dropKey
    return (s.moved s.cursor.next).push .blockEntry

def fetchKey (s : Lexer) : Except Fault Lexer :=
  if s.flow == 0 && !s.keyAllowed then .error .token
  else do
    let s := if s.flow == 0 then s.openBlock .blockMappingStart else s
    let s ← (s.allowKey (s.flow == 0)).dropKey
    return (s.moved s.cursor.next).push .key

/-- A colon: it makes a key of what was noted as a possible one. -/
def fetchValue (s : Lexer) : Except Fault Lexer :=
  match s.keys.lookup s.flow with
  | some key =>
    let s := { s with keys := s.keys.filter fun (level, _) => level != s.flow }
    let s : Lexer := s.pushAt key.number .key
    let opens := s.flow == 0 && s.isDeeper key.column
    let s :=
      if opens then (s.indentTo key.column).pushAt key.number .blockMappingStart else s
    .ok (((s.allowKey false).moved s.cursor.next).push .value)
  | none =>
    if s.flow == 0 && !s.keyAllowed then .error .token
    else do
      let s := if s.flow == 0 then s.openBlock .blockMappingStart else s
      let s ← (s.allowKey (s.flow == 0)).dropKey
      return (s.moved s.cursor.next).push .value

def fetchAnchor (make : String → Token) (s : Lexer) : Except Fault Lexer := do
  let s ← s.saveKey
  let (n, c) ← anchorName s.cursor
  return ((s.allowKey false).moved c).push (make n)

def fetchTag (s : Lexer) : Except Fault Lexer := do
  let s ← s.saveKey
  let (t, c) ← tag s.cursor
  return ((s.allowKey false).moved c).push t

def fetchBlockScalar (folded : Bool) (s : Lexer) : Except Fault Lexer := do
  let s ← (s.allowKey true).dropKey
  let (t, c) ← blockScalar folded s.indent s.cursor
  return (s.moved c).push t

def fetchQuoted (double : Bool) (s : Lexer) : Except Fault Lexer := do
  let s ← s.saveKey
  let (t, c) ← quotedScalar double s.cursor
  return ((s.allowKey false).moved c).push t

def fetchPlain (s : Lexer) : Except Fault Lexer := do
  let s ← s.saveKey
  let ((t, broken), c) := plainScalar (s.flow != 0) s.indent s.cursor
  return ((s.allowKey broken).moved c).push t

/-- Whether a plain scalar may start here. -/
def startsPlain (s : Lexer) (ch : Char) : Bool :=
  !(isBlank ch || isBreak ch || "-?:,[]\x7b\x7d#&*!|>'\"%@\x60".toList.contains ch) ||
    (!endsToken (s.cursor.peekAt 1) && (ch == '-' || (s.flow == 0 && (ch == '?' || ch == ':'))))

def fetchAt (ch : Char) (s : Lexer) : Except Fault Lexer :=
  let separated := endsToken (s.cursor.peekAt 1)
  let mark := s.cursor.column == 0 && s.cursor.atDocumentMark
  if ch == '%' && s.cursor.column == 0 then s.fetchDirective
  else if ch == '-' && mark then s.fetchDocumentMark .documentStart
  else if ch == '.' && mark then s.fetchDocumentMark .documentEnd
  else if ch == '[' then s.fetchFlowStart .flowSequenceStart
  else if ch == '{' then s.fetchFlowStart .flowMappingStart
  else if ch == ']' then s.fetchFlowEnd .flowSequenceEnd
  else if ch == '}' then s.fetchFlowEnd .flowMappingEnd
  else if ch == ',' then s.fetchFlowEntry
  else if ch == '-' && separated then s.fetchBlockEntry
  else if ch == '?' && (s.flow != 0 || separated) then s.fetchKey
  else if ch == ':' && (s.flow != 0 || separated) then s.fetchValue
  else if ch == '*' then s.fetchAnchor .alias
  else if ch == '&' then s.fetchAnchor .anchor
  else if ch == '!' then s.fetchTag
  else if ch == '|' && s.flow == 0 then s.fetchBlockScalar false
  else if ch == '>' && s.flow == 0 then s.fetchBlockScalar true
  else if ch == '\'' then s.fetchQuoted false
  else if ch == '"' then s.fetchQuoted true
  else if s.startsPlain ch then s.fetchPlain
  else .error .token

def fetch (s : Lexer) : Except Fault Lexer := do
  let s := s.skipByteOrderMark
  let s ← (s.skipToToken (s.cursor.rest.length + 1)).dropStale
  let s := s.unwind s.cursor.column
  match s.cursor.peek with
  | none => s.fetchStreamEnd
  | some ch => s.fetchAt ch

/-- The next queued token that can no longer become part of a key. -/
def release? (s : Lexer) : Except Fault (Option (Token × Lexer)) :=
  match s.queue with
  | [] => .ok none
  | t :: queue =>
    if s.finished then .ok (some (t, { s with queue, taken := s.taken + 1 }))
    else do
      let s ← s.dropStale
      if s.keys.any fun (_, key) => key.number == s.taken then return none
      else return some (t, { s with queue, taken := s.taken + 1 })

/-- Reads on, given the tokens released so far, last first. -/
def run : Nat → List Token → Lexer → Reading Token
  | 0, out, _ => ⟨out.reverse, some .token⟩
  | fuel + 1, out, s =>
    match s.release? with
    | .error f => ⟨out.reverse, some f⟩
    | .ok (some (t, s)) => run fuel (t :: out) s
    | .ok none =>
      if s.finished then ⟨out.reverse, none⟩
      else
        match s.fetch with
        | .error f => ⟨out.reverse, some f⟩
        | .ok s => run fuel out s

end Lexer

/-- The tokens of a text. Every character starts at most one token and opens and closes at most one
collection, which bounds the number of steps. -/
def tokens (text : List Char) : Reading Token :=
  (Lexer.start text).run (8 * text.length + 8) []

end ViewHierarchy.Yaml
