import ViewHierarchy.Export.Format
import ViewHierarchy.Text.Quoted

/-! Switches of the command line, and the ways to misuse them. -/
namespace ViewHierarchy.CommandLine

/-- A switch that stands alone. -/
inductive Flag where
  | help
  | dump
  | verbose
deriving DecidableEq

/-- A switch that takes a value. -/
inductive Field where
  | root
  | format
  | config
deriving DecidableEq

inductive Switch where
  | flag (f : Flag)
  | field (f : Field)
deriving DecidableEq

namespace Switch

/-- Every name of a switch, in the order in which they are listed. -/
def names : List (String × Switch) :=
  [ ("-h", .flag .help), ("--help", .flag .help), ("--root", .field .root),
    ("--dump", .flag .dump), ("--format", .field .format), ("--config", .field .config),
    ("-v", .flag .verbose), ("--verbose", .flag .verbose) ]

def named? (s : List Char) : Option Switch :=
  (names.find? fun (name, _) => name.toList == s).map Prod.snd

/-- The switches that a name may abbreviate. -/
def abbreviated (s : List Char) : List (String × Switch) :=
  names.filter fun (name, _) => s.isPrefixOf name.toList

def title (s : Switch) : String :=
  "/".intercalate ((names.filter fun (_, t) => t = s).map Prod.fst)

end Switch

def Flag.ofLetter? : Char → Option Flag
  | 'h' => some .help
  | 'v' => some .verbose
  | _ => none

inductive Misuse where
  | ambiguous (text : String) (candidates : List String)
  | valueMissing (f : Field)
  | valueUnwanted (f : Flag) (value : String)
  | formatUnknown (value : String)
  | unrecognized (texts : List String)
deriving DecidableEq

namespace Misuse

def about (s : Switch) (complaint : String) : String := "argument " ++ s.title ++ ": " ++ complaint

def message : Misuse → String
  | ambiguous text candidates =>
    "ambiguous option: " ++ text ++ " could match " ++ ", ".intercalate candidates
  | valueMissing f => about (.field f) "expected one argument"
  | valueUnwanted f value =>
    about (.flag f) ("ignored explicit argument " ++ Text.quotedString value)
  | formatUnknown value =>
    about (.field .format) ("invalid choice: " ++ Text.quotedString value ++ " (choose from " ++
      ", ".intercalate (Format.all.map fun f => Text.quotedString f.name) ++ ")")
  | unrecognized texts => "unrecognized arguments: " ++ " ".intercalate texts

end Misuse

end ViewHierarchy.CommandLine
