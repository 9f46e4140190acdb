import ViewHierarchy.Source.Delimiter
import ViewHierarchy.Text.Word
import ViewHierarchy.View.Settings

/-! Properties: the arguments of an element as one-line texts. -/
namespace ViewHierarchy
open Text

/-- How many of `n` characters a cut at `k` keeps; a negative `k` counts from the end. -/
def cutLength (k : Int) (n : Nat) : Nat := if k < 0 then (n + k).toNat else k.toNat

/-- The words of a value on one line, shortened with an ellipsis beyond the limit. -/
def normalizeValue (limit : Int) (value : List Char) : List Char :=
  let line := collapse value
  if (line.length : Int) > limit then line.take (cutLength (limit - 3) line.length) ++ ['…']
  else line

/-- The label before the first colon of an argument and the value after it. -/
def labelled? (argument : List Char) : Option (List Char × List Char) :=
  let label := argument.takeWhile isWord
  match label, trimLeft (argument.dropWhile isWord) with
  | _ :: _, ':' :: value => if (trimLeft value).isEmpty then none else some (label, trimLeft value)
  | _, _ => none

def property (limit : Int) (argument : List Char) : List Char :=
  match labelled? argument with
  | some (label, value) => label ++ ':' :: ' ' :: normalizeValue limit value
  | none => normalizeValue limit argument

/-- The properties of an argument list, one for each argument. -/
def properties (limit : Int) (arguments : List Char) : List (List Char) :=
  (Source.splitTopLevel [','] arguments).map (property limit)

end ViewHierarchy
