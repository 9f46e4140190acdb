import ViewHierarchy.CommandLine.Run

/-! The program: reads the files that a command line names, runs it, and prints the outcome. -/
namespace ViewHierarchy.CommandLine

/-- The bytes of a stream up to its end. -/
partial def drain (stream : IO.FS.Stream) (bytes : ByteArray) : IO ByteArray := do
  let chunk ← stream.read 65536
  if chunk.isEmpty then return bytes else drain stream (bytes ++ chunk)

/-- The system's code for a folder in the place of a file. -/
def folderCode : UInt32 := 21

def readFile (path : String) : IO (Except FileError (List UInt8)) := do
  try
    let bytes ← IO.FS.readBinFile path
    return .ok bytes.toList
  catch
    | .noFileOrDirectory .. => return .error (.missing path)
    | .inappropriateType _ code _ =>
      return .error (if code == folderCode then .isFolder path else .notFolder path)
    | e => throw e

def report (ds : List Diagnostic) : IO Unit :=
  ds.forM fun d => do IO.eprintln (toString (← IO.monoMsNow) ++ " " ++ d.line)

/-- Shows the window on the terminal. -/
def printWindow (st : Settings) (w : Window) (e : Effects) : IO Unit := do
  e.dialogs.forM fun
    | .critical title text | .information title text => IO.eprintln (title ++ ": " ++ text)
    | _ => pure ()
  w.error.forM IO.println
  (w.rows st).forM fun row => IO.println ("".pushn ' ' (2 * row.depth) ++ row.label)

end ViewHierarchy.CommandLine

open ViewHierarchy CommandLine

def main (arguments : List String) : IO UInt32 := do
  let (paths, readsInput) := match Options.read arguments with
    | .ok o => (o.paths, o.readsInput)
    | .error _ => ([], false)
  let contents ← paths.mapM fun path => return (path, ← readFile path)
  let input ← if readsInput then drain (← IO.getStdin) .empty else pure .empty
  let files : Files := fun path => (contents.lookup path).getD (.error (.missing path))
  match run arguments files input.toList with
  | .error (.file e) =>
    IO.eprintln e.message
    return 1
  | .error (.document _) =>
    IO.eprintln "The settings cannot be read."
    return 1
  | .ok (.finished status output diagnostics complaint) =>
    report diagnostics
    IO.eprint complaint
    IO.print output
    return status.toUInt32
  | .ok (.opened st window effects diagnostics) =>
    report diagnostics
    printWindow st window effects
    return 0
