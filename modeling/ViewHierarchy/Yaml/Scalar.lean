import ViewHierarchy.Yaml.Name

/-! Scalars of YAML documents: block scalars, quoted ones, and plain ones. -/
namespace ViewHierarchy.Yaml
open Cursor

/-! Block scalars -/

/-- What to do with the line breaks at the end of a block scalar. -/
inductive Chomping where
  | clip
  | strip
  | keep
deriving DecidableEq

def chomping? : Option Char → Option Chomping
  | some '+' => some .keep
  | some '-' => some .strip
  | _ => none

/-- An indentation indicator is a digit other than zero. -/
def increment? (c : Cursor) : Except Fault (Option Nat × Cursor) :=
  match c.peek with
  | some ch =>
    if ch == '0' then .error .token
    else if ch.isDigit then .ok (some (ch.toNat - 48), c.next)
    else .ok (none, c)
  | none => .ok (none, c)

def blockHeader (c : Cursor) : Except Fault ((Chomping × Option Nat) × Cursor) := do
  let (header, c) ← match chomping? c.peek with
    | some chomping => do
      let (increment, c) ← increment? c.next
      .ok ((chomping, increment), c)
    | none => do
      let (increment, c) ← increment? c
      match increment, chomping? c.peek with
      | some n, some chomping => .ok ((chomping, some n), c.next)
      | _, _ => .ok ((.clip, increment), c)
  if endsWord c.peek then .ok (header, c) else .error .token

def skipIndent (indent : Nat) (c : Cursor) : Cursor :=
  c.advance (min (c.rest.takeWhile (· == ' ')).length (indent - c.column))

/-- The line breaks of the empty lines ahead, and the place where the next line's text starts. -/
def blockBreaks (indent : Nat) : Nat → List Char → Cursor → List Char × Cursor
  | 0, breaks, c => (breaks, c)
  | fuel + 1, breaks, c =>
    let c := skipIndent indent c
    match c.lineBreak? with
    | some (b, c) => blockBreaks indent fuel (breaks ++ [b]) c
    | none => (breaks, c)

/-- The line breaks and the widest indentation before the first line with text. -/
def blockLead : Nat → List Char → Nat → Cursor → List Char × Nat × Cursor
  | 0, breaks, widest, c => (breaks, widest, c)
  | fuel + 1, breaks, widest, c =>
    match c.lineBreak? with
    | some (b, c) => blockLead fuel (breaks ++ [b]) widest c
    | none =>
      if c.peek = some ' ' then blockLead fuel breaks (max widest c.next.column) c.next
      else (breaks, widest, c)

/-- The lines of a block scalar: their text, the last line break, and the breaks after it. -/
def blockLines (folded : Bool) (indent : Nat) :
    Nat → List Char → List Char → List Char → Cursor → (List Char × List Char × List Char) × Cursor
  | 0, text, final, breaks, c => ((text, final, breaks), c)
  | fuel + 1, text, final, breaks, c =>
    if c.column = indent ∧ c.peek ≠ none then
      let unindented := !(c.peek.any isBlank)
      let (line, c) := c.span fun ch => !isBreak ch
      let (final, c) := match c.lineBreak? with
        | some (b, c) => ([b], c)
        | none => ([], c)
      let text := text ++ breaks ++ line
      let (breaks, c) := blockBreaks indent (c.rest.length + 1) [] c
      if c.column = indent ∧ c.peek ≠ none then
        let joint :=
          if folded && final == ['\n'] && unindented && !(c.peek.any isBlank) then
            if breaks.isEmpty then [' '] else []
          else final
        blockLines folded indent fuel (text ++ joint) final breaks c
      else ((text, final, breaks), c)
    else ((text, final, breaks), c)

def blockScalar (folded : Bool) (outer : Int) (c : Cursor) : Except Fault (Token × Cursor) := do
  let ((chomping, increment), c) ← blockHeader c.next
  let c ← c.finishLine
  let least := max (outer + 1).toNat 1
  let fuel := c.rest.length + 1
  let (breaks, indent, c) := match increment with
    | none =>
      let (breaks, widest, c) := blockLead fuel [] 0 c
      (breaks, max least widest, c)
    | some n =>
      let (breaks, c) := blockBreaks (least + n - 1) fuel [] c
      (breaks, least + n - 1, c)
  let ((text, final, breaks), c) := blockLines folded indent fuel [] [] breaks c
  let tail := match chomping with
    | .strip => []
    | .clip => final
    | .keep => final ++ breaks
  return (.scalar false (String.ofList (text ++ tail)), c)

/-! Quoted scalars -/

/-- The line breaks between the lines of a scalar; a mark between documents may not come in. -/
def flowBreaks : Nat → List Char → Cursor → Except Fault (List Char × Cursor)
  | 0, breaks, c => .ok (breaks, c)
  | fuel + 1, breaks, c =>
    if c.atDocumentMark then .error .token
    else
      let c := c.skip isBlank
      match c.lineBreak? with
      | some (b, c) => flowBreaks fuel (breaks ++ [b]) c
      | none => .ok (breaks, c)

/-- What line breaks stand for: a single line feed is a space, and the first of several is
dropped. -/
def foldBreaks (first : Char) (more : List Char) : List Char :=
  (if first != '\n' then [first] else if more.isEmpty then [' '] else []) ++ more

def flowSpaces (c : Cursor) : Except Fault (List Char × Cursor) :=
  let (blanks, c) := c.span isBlank
  match c.lineBreak? with
  | some (b, c) => do
    let (breaks, c) ← flowBreaks (c.rest.length + 1) [] c
    .ok (foldBreaks b breaks, c)
  | none => if c.peek = none then .error .token else .ok (blanks, c)

def escaped? : Char → Option Char
  | '0' => some '\x00'
  | 'a' => some '\x07'
  | 'b' => some '\x08'
  | 't' => some '\t'
  | '\t' => some '\t'
  | 'n' => some '\n'
  | 'v' => some '\x0b'
  | 'f' => some '\x0c'
  | 'r' => some '\r'
  | 'e' => some '\x1b'
  | ' ' => some ' '
  | '"' => some '"'
  | '\\' => some '\\'
  | '/' => some '/'
  | 'N' => some '\x85'
  | '_' => some '\xa0'
  | 'L' => some '\u2028'
  | 'P' => some '\u2029'
  | _ => none

def codeLength? : Char → Option Nat
  | 'x' => some 2
  | 'u' => some 4
  | 'U' => some 8
  | _ => none

/-- The character of a code; half of a surrogate pair counts as the replacement character. -/
def ofCode (n : Nat) : Except Fault Char :=
  if n ≥ 0x80000000 then .error .overflow
  else if n > 0x10FFFF then .error .value
  else if n.isValidChar then .ok (Char.ofNat n)
  else .ok '\uFFFD'

def escape (c : Cursor) : Except Fault (List Char × Cursor) :=
  match c.peek with
  | none => .error .token
  | some ch =>
    match escaped? ch, codeLength? ch with
    | some e, _ => .ok ([e], c.next)
    | none, some n =>
      match hexNumber? n c.next.rest with
      | some code => do .ok ([← ofCode code], c.next.advance n)
      | none => .error .token
    | none, none =>
      if isBreak ch then flowBreaks (c.rest.length + 1) [] c.next else .error .token

def quotedFrom (double : Bool) : Nat → List Char → Cursor → Except Fault (List Char × Cursor)
  | 0, _, _ => .error .token
  | fuel + 1, text, c =>
    match c.peek with
    | none => .error .token
    | some ch =>
      if isBlank ch || isBreak ch then do
        let (piece, c) ← flowSpaces c
        quotedFrom double fuel (text ++ piece) c
      else if double && ch == '"' then .ok (text, c.next)
      else if double && ch == '\\' then do
        let (piece, c) ← escape c.next
        quotedFrom double fuel (text ++ piece) c
      else if !double && ch == '\'' then
        if c.peekAt 1 = some '\'' then quotedFrom double fuel (text ++ ['\'']) (c.advance 2)
        else .ok (text, c.next)
      else quotedFrom double fuel (text ++ [ch]) c.next

def quotedScalar (double : Bool) (c : Cursor) : Except Fault (Token × Cursor) := do
  let (text, c) ← quotedFrom double (c.rest.length + 1) [] c.next
  return (.scalar false (String.ofList text), c)

/-! Plain scalars -/

/-- The part of a plain scalar that holds no white space. Inside brackets it also ends before
commas, question marks and brackets. -/
def plainPiece (flow : Bool) : List Char → List Char
  | [] => []
  | ch :: rest =>
    let keyEnds := endsToken rest.head? ||
      (flow && rest.head?.any [',', '[', ']', '{', '}'].contains)
    if isBlank ch || isBreak ch then []
    else if ch == ':' && keyEnds then []
    else if flow && [',', '?', '[', ']', '{', '}'].contains ch then []
    else ch :: plainPiece flow rest

/-- The breaks of the empty lines inside a plain scalar; none if a mark between documents
follows. -/
def plainBreaks : Nat → List Char → Cursor → Option (List Char) × Cursor
  | 0, breaks, c => (some breaks, c)
  | fuel + 1, breaks, c =>
    let c := c.skipSpaces
    match c.lineBreak? with
    | some (b, c) =>
      if c.atDocumentMark then (none, c) else plainBreaks fuel (breaks ++ [b]) c
    | none => (some breaks, c)

/-- The white space after a piece of a plain scalar, folded, and whether it holds a line break.
Nothing is left of it when the scalar ends here. -/
def plainSpaces (c : Cursor) : (List Char × Bool) × Cursor :=
  let (spaces, c) := c.span (· == ' ')
  match c.lineBreak? with
  | none => ((spaces, false), c)
  | some (b, c) =>
    if c.atDocumentMark then (([], true), c)
    else
      match plainBreaks (c.rest.length + 1) [] c with
      | (some breaks, c) => ((foldBreaks b breaks, true), c)
      | (none, c) => (([], true), c)

def plainFrom (flow : Bool) (indent : Int) :
    Nat → List Char → List Char → Bool → Cursor → (List Char × Bool) × Cursor
  | 0, text, _, broken, c => ((text, broken), c)
  | fuel + 1, text, spaces, broken, c =>
    let piece := if c.peek = some '#' then [] else plainPiece flow c.rest
    if piece.isEmpty then ((text, broken), c)
    else
      let text := text ++ spaces ++ piece
      let ((spaces, broken), c) := plainSpaces (c.advance piece.length)
      if spaces.isEmpty || c.peek = some '#' || (!flow && decide (c.column < indent)) then
        ((text, broken), c)
      else plainFrom flow indent fuel text spaces broken c

def plainScalar (flow : Bool) (outer : Int) (c : Cursor) : (Token × Bool) × Cursor :=
  let ((text, broken), c) := plainFrom flow (outer + 1) (c.rest.length + 1) [] [] false c
  ((.scalar true (String.ofList text), broken), c)

end ViewHierarchy.Yaml
