import ViewHierarchy.CommandLine.Argument

/-! Options: what a command line asks for. -/
namespace ViewHierarchy.CommandLine

structure Options where
  file : Option String
  root : Option String
  dump : Bool
  format : Format
  config : Option String
  verbose : Bool
deriving DecidableEq

inductive Stop where
  | help
  | misuse (m : Misuse)
deriving DecidableEq

namespace Options

def default : Options := ⟨none, none, false, .outline, none, false⟩

def setFlag (o : Options) : Flag → Except Stop Options
  | .help => .error .help
  | .dump => .ok { o with dump := true }
  | .verbose => .ok { o with verbose := true }

def setField (o : Options) (value : String) : Field → Except Stop Options
  | .root => .ok { o with root := some value }
  | .config => .ok { o with config := some value }
  | .format =>
    match Format.named? value with
    | some format => .ok { o with format }
    | none => .error (.misuse (.formatUnknown value))

/-- The flags of a bundle, and the letters from the first one that names none, behind a dash. -/
def unbundle (f : Flag) : List Char → Except Stop (List Flag × List String)
  | [] => .ok ([f], [])
  | letter :: letters =>
    if letter = '=' then unwanted letters
    else if letter = '-' then unwanted (letter :: letters)
    else
      match Flag.ofLetter? letter with
      | none => .ok ([f], [String.ofList ('-' :: letter :: letters)])
      | some g => do
        let (flags, left) ← unbundle g letters
        return (f :: flags, left)
where
  unwanted (value : List Char) : Except Stop (List Flag × List String) :=
    .error (.misuse (.valueUnwanted f (String.ofList value)))

/-- Follows the arguments in their order. The first operand is the file, and takes a separator
beside it along; what is left over is returned. -/
def follow (o : Options) : List Argument → Except Stop (Options × List String)
  | [] => .ok (o, [])
  | .operand text :: rest =>
    match o.file, rest with
    | none, .separator :: rest => follow { o with file := some text } rest
    | none, rest => follow { o with file := some text } rest
    | some _, rest => leave [text] (follow o rest)
  | .separator :: rest =>
    match o.file with
    | none => follow o rest
    | some _ => leave ["--"] (follow o rest)
  | .switch (.flag f) :: rest =>
    match o.setFlag f with
    | .error stop => .error stop
    | .ok o => follow o rest
  | .switch (.field f) :: .operand value :: rest =>
    match o.setField value f with
    | .error stop => .error stop
    | .ok o => follow o rest
  | .switch (.field f) :: _ => .error (.misuse (.valueMissing f))
  | .assigned (.flag f) value :: _ =>
    .error (.misuse (.valueUnwanted f (String.ofList value)))
  | .assigned (.field f) value :: rest =>
    match o.setField (String.ofList value) f with
    | .error stop => .error stop
    | .ok o => follow o rest
  | .bundle f letters :: rest =>
    match unbundle f letters with
    | .error stop => .error stop
    | .ok (flags, left) =>
      match flags.foldlM setFlag o with
      | .error stop => .error stop
      | .ok o => leave left (follow o rest)
  | .unknown text :: rest => leave [text] (follow o rest)
where
  leave (texts : List String) (result : Except Stop (Options × List String)) :
      Except Stop (Options × List String) :=
    result.map fun (o, left) => (o, texts ++ left)

/-- Reads a command line; nothing may be left over. -/
def read (texts : List String) : Except Stop Options :=
  match Argument.ofTexts texts with
  | .error m => .error (.misuse m)
  | .ok arguments =>
    match default.follow arguments with
    | .error stop => .error stop
    | .ok (o, []) => .ok o
    | .ok (_, left) => .error (.misuse (.unrecognized left))

end Options

end ViewHierarchy.CommandLine
