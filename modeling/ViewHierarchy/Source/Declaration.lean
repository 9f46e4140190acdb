import ViewHierarchy.Source.Delimiter
import ViewHierarchy.Source.Mask
import ViewHierarchy.Source.Trivia
import ViewHierarchy.Declarations
import ViewHierarchy.Diagnostics

/-! Declarations of views: every `struct` that conforms to View and has a body of its own. They are
found on the masked text, so that nothing inside strings or comments counts. -/
namespace ViewHierarchy.Source
open Text (afterBlanks? isWord trim trimLeft)

/-- What follows a word, given the character before the text. -/
def afterWord? (word : List Char) (before : Char) (s : List Char) : Option (List Char) :=
  if !isWord before && word.isPrefixOf s then some (s.drop word.length) else none

/-- What follows a colon and the white space around it. -/
def afterColon? (s : List Char) : Option (List Char) :=
  match trimLeft s with
  | ':' :: rest => some (trimLeft rest)
  | _ => none

/-- What follows the colon behind the nearest angle bracket that has one, before any brace. -/
def afterGenerics? : List Char → Option (List Char)
  | [] => none
  | c :: rest =>
    if c = '{' then none
    else if c = '>' then (afterColon? rest).or (afterGenerics? rest)
    else afterGenerics? rest

/-- The head of a struct: its name, what it conforms to, and the text after its opening brace. -/
structure Header where
  name : List Char
  conformances : List Char
  after : List Char

/-- What follows the colon after a struct's name and its generic parameters. -/
def afterHeadColon? (s : List Char) : Option (List Char) :=
  match trimLeft s with
  | '<' :: rest => afterGenerics? rest
  | _ => afterColon? s

/-- The head of a struct whose name is known, read from its conformances on. -/
def headerNamed? (name s : List Char) : Option Header :=
  match name, s.dropWhile (· != '{') with
  | _ :: _, '{' :: after => some ⟨name, trim (s.takeWhile (· != '{')), after⟩
  | _, _ => none

/-- Reads a struct head whose keyword starts the text. -/
def header? (before : Char) (s : List Char) : Option Header := do
  let s ← afterWord? ['s', 't', 'r', 'u', 'c', 't'] before s
  let s ← afterBlanks? s
  let t ← afterHeadColon? (s.dropWhile isWord)
  headerNamed? (s.takeWhile isWord) t

theorem afterColon?_length_le {s rest : List Char} (h : afterColon? s = some rest) :
    rest.length ≤ s.length := by
  have h₁ := Text.trimLeft_length_le s
  rw [afterColon?] at h
  split at h
  · next t ht =>
    cases h
    have h₂ := Text.trimLeft_length_le t
    rw [ht, List.length_cons] at h₁
    omega
  · cases h

theorem afterGenerics?_length_le {s rest : List Char} (h : afterGenerics? s = some rest) :
    rest.length ≤ s.length := by
  induction s with
  | nil => cases h
  | cons c t ih =>
    rw [afterGenerics?] at h
    split at h
    · cases h
    · split at h
      · rcases Option.or_eq_some_iff.1 h with h | ⟨-, h⟩
        · exact Nat.le_succ_of_le (afterColon?_length_le h)
        · exact Nat.le_succ_of_le (ih h)
      · exact Nat.le_succ_of_le (ih h)

theorem afterHeadColon?_length_le {s rest : List Char} (h : afterHeadColon? s = some rest) :
    rest.length ≤ s.length := by
  have h₁ := Text.trimLeft_length_le s
  rw [afterHeadColon?] at h
  split at h
  · next t ht =>
    have h₂ := afterGenerics?_length_le h
    rw [ht, List.length_cons] at h₁
    omega
  · exact afterColon?_length_le h

theorem headerNamed?_length_lt {name s : List Char} {header : Header}
    (h : headerNamed? name s = some header) : header.after.length < s.length := by
  have h₁ := Text.dropWhile_length_le (· != '{') s
  rw [headerNamed?.eq_def] at h
  split at h
  · next after ha =>
    cases h
    rw [ha] at h₁
    exact h₁
  · cases h

theorem header?_length_lt {before : Char} {s : List Char} {header : Header}
    (h : header? before s = some header) : header.after.length < s.length := by
  obtain ⟨s₁, h₁, h⟩ := Option.bind_eq_some_iff.1 h
  obtain ⟨s₂, h₂, h⟩ := Option.bind_eq_some_iff.1 h
  obtain ⟨s₃, h₃, h⟩ := Option.bind_eq_some_iff.1 h
  have e₁ : s₁.length ≤ s.length := by
    rw [afterWord?, Option.ite_none_right_eq_some] at h₁
    cases h₁.2
    simp only [List.length_drop, Nat.sub_le]
  have e₂ := Text.afterBlanks?_length_le h₂
  have e₃ := afterHeadColon?_length_le h₃
  have e₄ := Text.dropWhile_length_le isWord s₂
  have e₅ := headerNamed?_length_lt h
  omega

/-- The struct heads of a masked text; the search goes on after the brace of each. -/
def headers (before : Char) (s : List Char) : List Header :=
  match s with
  | [] => []
  | c :: rest =>
    match h : header? before (c :: rest) with
    | some header =>
      have := header?_length_lt h
      header :: headers '{' header.after
    | none => headers c rest
termination_by s.length
decreasing_by
  · exact this
  · exact Nat.lt_succ_self rest.length

/-- The pieces of a list of conformances, dotted names in one. -/
def conformanceNames (piece : List Char) : List Char → List (List Char)
  | [] => [piece.reverse]
  | c :: rest =>
    if isWord c || c == '.' then conformanceNames (c :: piece) rest
    else piece.reverse :: conformanceNames [] rest

def Header.isView (header : Header) : Bool :=
  (conformanceNames [] header.conformances).any fun name =>
    name == "View".toList || name == "SwiftUI.View".toList

/-- The text after the opening brace of a body declaration that starts the text. -/
def bodyBlock? (before : Char) (s : List Char) : Option (List Char) := do
  let s ← afterWord? ['v', 'a', 'r'] before s
  let s ← afterBlanks? s
  let s ← afterWord? ['b', 'o', 'd', 'y'] ' ' s
  let s ← afterColon? s
  let s ← afterWord? ['s', 'o', 'm', 'e'] ' ' s
  let s ← afterBlanks? s
  let s := if "SwiftUI.".toList.isPrefixOf s then s.drop 8 else s
  let s ← afterWord? ['V', 'i', 'e', 'w'] ' ' s
  match trimLeft s with
  | '{' :: after => some after
  | _ => none

/-- The text after the opening brace of the first body that stands at brace level zero. The level
is the number of braces opened less the number closed; each body searched past adds its own. -/
def ownBody? (level : Int) (before : Char) : List Char → Option (List Char)
  | [] => none
  | c :: rest =>
    match bodyBlock? before (c :: rest) with
    | some after => if level = 0 then some after else ownBody? level c rest
    | none => ownBody? (if c = '{' then level + 1 else if c = '}' then level - 1 else level) c rest

/-- What a struct head that conforms to View leads to. A body is the number of characters before
it and its length. -/
inductive Finding where
  | unclosed (name : String)
  | withoutBody (name : String)
  | bodyUnclosed (name : String)
  | body (name : String) (start length : Nat)

/-- Examines a struct head of a masked text of the given length. -/
def Header.finding (total : Nat) (header : Header) : Finding :=
  let name := String.ofList header.name
  match enclosed? ('{' :: header.after) with
  | none => .unclosed name
  | some (inner, _) =>
    match ownBody? 0 '{' inner with
    | none => .withoutBody name
    | some inside =>
      let start := total - header.after.length + (inner.length - inside.length)
      match enclosed? ('{' :: header.after.drop (inner.length - inside.length)) with
      | none => .bodyUnclosed name
      | some (body, _) => .body name start body.length

/-- What the struct heads of a source that conform to View lead to, in order. -/
def findings (source : List Char) : List Finding :=
  let masked := mask source
  ((headers ' ' masked).filter Header.isView).map (Header.finding masked.length)

def declarations (source : List Char) : Declarations :=
  (findings source).foldl (fun ds finding =>
    match finding with
    | .body name start length =>
      ds.insert name (String.ofList ((source.drop start).take length))
    | _ => ds) .empty

/-- What is reported while the findings are gathered, given the names declared so far. -/
def findingDiagnostics (declared : List String) : List Finding → List Diagnostic
  | [] => []
  | .unclosed name :: rest => .declarationUnclosed name :: findingDiagnostics declared rest
  | .withoutBody name :: rest => .bodyMissing name :: findingDiagnostics declared rest
  | .bodyUnclosed name :: rest => .bodyUnclosed name :: findingDiagnostics declared rest
  | .body name _ _ :: rest =>
    if name ∈ declared then .redeclared name :: findingDiagnostics declared rest
    else findingDiagnostics (name :: declared) rest

def declarationDiagnostics (source : List Char) : List Diagnostic :=
  findingDiagnostics [] (findings source) ++
    [.declarationsFound (declarations source).names.length]

end ViewHierarchy.Source
