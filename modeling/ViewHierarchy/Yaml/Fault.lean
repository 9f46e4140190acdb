/-! What can be wrong with a YAML document. -/
namespace ViewHierarchy.Yaml

inductive Fault where
  | encoding
  /-- A character that no document may hold. -/
  | character
  | token
  /-- Tokens in no order that the grammar allows. -/
  | grammar
  /-- An unknown alias, an anchor used twice, or a second document. -/
  | reference
  /-- A node that cannot be the value that its tag announces. -/
  | construction
  /-- A number, date or character code out of range. -/
  | value
  /-- A word that is no boolean. -/
  | word
  | emptyNumber
  | date
  /-- A date that is not a single text. -/
  | dateKind
  /-- A character code beyond the machine's integers. -/
  | overflow
deriving DecidableEq

/-- What can be read of a sequence, up to its end or to the first fault. -/
structure Reading (α : Type) where
  items : List α
  fault : Option Fault

end ViewHierarchy.Yaml
