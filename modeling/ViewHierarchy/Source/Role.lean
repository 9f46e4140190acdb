/-! Source text with the role of every character: code, part of a string, or part of a comment.
A literal is found by its opening characters alone, so the roles of a text depend on nothing
before it. -/
namespace ViewHierarchy.Source

inductive Role where
  | code
  | string
  | comment
deriving DecidableEq

abbrev Marked := Char × Role

/-- Length of a one-line string after its opening quote. A backslash guards the next character;
an unfinished string ends before the line break. -/
def lineStringTail : List Char → Nat
  | [] => 0
  | '\\' :: _ :: rest => lineStringTail rest + 2
  | '"' :: _ => 1
  | '\n' :: _ => 0
  | _ :: rest => lineStringTail rest + 1

/-- Length of a multi-line string after its three opening quotes. -/
def textStringTail : List Char → Nat
  | [] => 0
  | '\\' :: _ :: rest => textStringTail rest + 2
  | '"' :: '"' :: '"' :: _ => 3
  | _ :: rest => textStringTail rest + 1

/-- Length of a block comment after its two opening characters; comments do not nest. -/
def blockCommentTail : List Char → Nat
  | [] => 0
  | '*' :: '/' :: _ => 2
  | _ :: rest => blockCommentTail rest + 1

/-- Length of a line comment after its two opening characters, without the line break. -/
def lineCommentTail (s : List Char) : Nat := (s.takeWhile (· != '\n')).length

/-- Role and length of the literal that starts the text. -/
def literal? : List Char → Option (Role × Nat)
  | '"' :: '"' :: '"' :: rest => some (.string, textStringTail rest + 3)
  | '"' :: rest => some (.string, lineStringTail rest + 1)
  | '/' :: '/' :: rest => some (.comment, lineCommentTail rest + 2)
  | '/' :: '*' :: rest => some (.comment, blockCommentTail rest + 2)
  | _ => none

/-- Marks a text whose first `left` characters belong to a literal of the given role. -/
def markFrom (role : Role) : Nat → List Char → List Marked
  | _, [] => []
  | left + 1, c :: rest => (c, role) :: markFrom role left rest
  | 0, c :: rest =>
    match literal? (c :: rest) with
    | none => (c, .code) :: markFrom role 0 rest
    | some (role', n) => (c, role') :: markFrom role' (n - 1) rest

def mark (s : List Char) : List Marked := markFrom .code 0 s

theorem map_fst_markFrom (role : Role) (left : Nat) (s : List Char) :
    (markFrom role left s).map Prod.fst = s := by
  induction s generalizing role left with
  | nil => cases left <;> rfl
  | cons c rest ih =>
    cases left with
    | zero =>
      rw [markFrom]
      split <;> simp only [List.map_cons, ih]
    | succ left => simp only [markFrom, List.map_cons, ih]

theorem map_fst_mark (s : List Char) : (mark s).map Prod.fst = s := map_fst_markFrom .code 0 s

@[simp] theorem length_mark (s : List Char) : (mark s).length = s.length := by
  rw [← List.length_map Prod.fst, map_fst_mark]

/-- The offset just past the literal at the given offset, or that offset itself. -/
def skipLiteral (s : List Char) (pos : Nat) : Nat :=
  match literal? (s.drop pos) with
  | none => pos
  | some (_, n) => pos + n

end ViewHierarchy.Source
