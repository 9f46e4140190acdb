import ViewHierarchy.Source.Role
import ViewHierarchy.Text.Blank
import ViewHierarchy.Text.Word

/-! What stands between the tokens of a source text, and where its words end. -/
namespace ViewHierarchy.Source
open Text (isBlank isWord)

/-- White space and comments. -/
def Marked.isTrivia : Marked → Bool
  | (c, .code) => isBlank c
  | (_, .string) => false
  | (_, .comment) => true

/-- Trivia and the punctuation between sibling expressions. -/
def Marked.isSeparator (m : Marked) : Bool :=
  m.isTrivia || m == (',', .code) || m == (';', .code)

def triviaLength (s : List Char) : Nat := ((mark s).takeWhile Marked.isTrivia).length

def separatorLength (s : List Char) : Nat := ((mark s).takeWhile Marked.isSeparator).length

def dropTrivia (s : List Char) : List Char := s.drop (triviaLength s)

def dropSeparators (s : List Char) : List Char := s.drop (separatorLength s)

theorem dropTrivia_length_le (s : List Char) : (dropTrivia s).length ≤ s.length := by
  simp only [dropTrivia, List.length_drop, Nat.sub_le]

theorem dropSeparators_length_le (s : List Char) : (dropSeparators s).length ≤ s.length := by
  simp only [dropSeparators, List.length_drop, Nat.sub_le]

/-- Whether the text starts with the given word and the word ends there. -/
def startsWithWord (word s : List Char) : Bool :=
  word.isPrefixOf s && !(s.drop word.length).head?.any isWord

/-- Whether the given word stands at an offset, bounded on both sides. -/
def isWordAt (s : List Char) (pos : Nat) (word : List Char) : Bool :=
  decide (pos ≤ s.length) && startsWithWord word (s.drop pos) &&
    !(decide (0 < pos) && (s[pos - 1]?).any isWord)

end ViewHierarchy.Source
