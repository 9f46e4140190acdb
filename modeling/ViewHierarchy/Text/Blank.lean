/-! White space: its characters, trimming, and the words it separates. -/
namespace ViewHierarchy.Text

/-- The characters that separate words. -/
def isBlank (c : Char) : Bool :=
  let n := c.toNat
  decide (9 ≤ n ∧ n ≤ 13) || decide (28 ≤ n ∧ n ≤ 32) || n == 0x85 || n == 0xA0 || n == 0x1680 ||
    decide (0x2000 ≤ n ∧ n ≤ 0x200A) || n == 0x2028 || n == 0x2029 || n == 0x202F || n == 0x205F ||
    n == 0x3000

def trimLeft (s : List Char) : List Char := s.dropWhile isBlank

def trimRight (s : List Char) : List Char := (s.reverse.dropWhile isBlank).reverse

def trim (s : List Char) : List Char := trimRight (trimLeft s)

theorem dropWhile_length_le (p : Char → Bool) (s : List Char) :
    (s.dropWhile p).length ≤ s.length :=
  (List.dropWhile_sublist p).length_le

theorem trimLeft_length_le (s : List Char) : (trimLeft s).length ≤ s.length :=
  dropWhile_length_le isBlank s

/-- What follows at least one blank and all those after it. -/
def afterBlanks? : List Char → Option (List Char)
  | c :: rest => if isBlank c then some (trimLeft rest) else none
  | [] => none

theorem afterBlanks?_length_le {s rest : List Char} (h : afterBlanks? s = some rest) :
    rest.length ≤ s.length := by
  cases s with
  | nil => cases h
  | cons c t =>
    rw [afterBlanks?, Option.ite_none_right_eq_some] at h
    cases h.2
    exact Nat.le_succ_of_le (trimLeft_length_le t)

theorem trimRight_length_le (s : List Char) : (trimRight s).length ≤ s.length := by
  rw [trimRight, List.length_reverse]
  exact Nat.le_trans (dropWhile_length_le isBlank s.reverse) (Nat.le_of_eq List.length_reverse)

theorem trim_length_le (s : List Char) : (trim s).length ≤ s.length :=
  Nat.le_trans (trimRight_length_le _) (trimLeft_length_le s)

/-- The maximal blank-free pieces of a text; `word` holds the piece being read, reversed. -/
def wordsFrom (word : List Char) : List Char → List (List Char)
  | [] => if word.isEmpty then [] else [word.reverse]
  | c :: rest =>
    if isBlank c then
      if word.isEmpty then wordsFrom [] rest else word.reverse :: wordsFrom [] rest
    else wordsFrom (c :: word) rest

def words (s : List Char) : List (List Char) := wordsFrom [] s

def joinWith (sep : List Char) : List (List Char) → List Char
  | [] => []
  | [w] => w
  | w :: w' :: rest => w ++ sep ++ joinWith sep (w' :: rest)

/-- The words of a text with single spaces between them. -/
def collapse (s : List Char) : List Char := joinWith [' '] (words s)

end ViewHierarchy.Text
