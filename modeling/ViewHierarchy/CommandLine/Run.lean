import ViewHierarchy.CommandLine.Dump
import ViewHierarchy.CommandLine.Options
import ViewHierarchy.CommandLine.Usage
import ViewHierarchy.View.SettingsFile
import ViewHierarchy.Window.State

/-! Runs: what a command line does with the files it names. -/
namespace ViewHierarchy.CommandLine

inductive Failure where
  | file (e : FileError)
  | document (f : Yaml.Fault)

inductive Outcome where
  /-- A run that ends by itself, with the diagnostics that came before its complaint. -/
  | finished (status : Nat) (output : String) (diagnostics : List Diagnostic) (complaint : String)
  | opened (st : Settings) (window : Window) (effects : Effects) (diagnostics : List Diagnostic)

abbrev Files := String → Except FileError (List UInt8)

namespace Options

/-- A text that is given and not empty. -/
def given? (text : Option String) : Option String := text.filter (· ≠ "")

def paths (o : Options) : List String := (given? o.config).toList ++ (given? o.file).toList

def readsInput (o : Options) : Bool := o.dump && (given? o.file).isNone

def settings (o : Options) (files : Files) : Except Failure (Settings × List Diagnostic) :=
  match given? o.config with
  | none => .ok (Settings.default, [])
  | some path =>
    match files path with
    | .error e => .error (.file e)
    | .ok bytes =>
      match Settings.read bytes with
      | .error f => .error (.document f)
      | .ok st => .ok (st, Settings.readDiagnostics path bytes)

/-- Details are reported on request only. -/
def reported (o : Options) (ds : List Diagnostic) : List Diagnostic :=
  if o.verbose then ds else ds.filter fun d => d.severity ≠ .debug

def source (o : Options) (files : Files) (input : List UInt8) : Except Failure (List Char) :=
  match given? o.file with
  | none => .ok (sourceText input)
  | some path =>
    match files path with
    | .error e => .error (.file e)
    | .ok bytes => .ok (sourceText bytes)

def runDump (o : Options) (st : Settings) (before : List Diagnostic) (source : List Char) :
    Outcome :=
  let diagnostics := o.reported (before ++ dumpDiagnostics st o.root source)
  match dumpSource st o.format o.root source with
  | .error refusal => .finished 1 "" diagnostics (refusal.message ++ "\n")
  | .ok text => .finished 0 text diagnostics ""

def openWindow (o : Options) (st : Settings) (before : List Diagnostic) (files : Files)
    (editor : Editor) : Outcome :=
  let (window, effects) := match given? o.file with
    | none => (Window.new editor, Effects.none)
    | some path => (Window.new editor).load st path (files path)
  .opened st window effects (o.reported (before ++ effects.diagnostics))

end Options

/-- What a command line does, given the editor for the window and the contents of files and of the
standard input. -/
def runWith (editor : Editor) (arguments : List String) (files : Files) (input : List UInt8) :
    Except Failure Outcome :=
  match Options.read arguments with
  | .error .help => .ok (.finished 0 help [] "")
  | .error (.misuse m) =>
    .ok (.finished 2 "" [] (usage ++ program ++ ": error: " ++ m.message ++ "\n"))
  | .ok o =>
    match o.settings files with
    | .error failure => .error failure
    | .ok (st, before) =>
      if o.dump then (o.source files input).map (o.runDump st before)
      else .ok (o.openWindow st before files editor)

def run : List String → Files → List UInt8 → Except Failure Outcome := runWith .exact

end ViewHierarchy.CommandLine
