/-
The program: exports the catalog as its arguments say.
-/
import Siteswap.Program.Export

open Siteswap.Program

/-- Prints and writes what the export gives. -/
def main (arguments : List String) : IO UInt32 := do
  match Settings.ofArguments arguments with
  | .error r =>
    IO.eprintln r.message
    return r.code
  | .ok c =>
    -- no path that can be used has more directories than it may have bytes
    let r := run (.still (.whole 0)) maxPath c
    match r.file with
    | .error e =>
      IO.print r.printed
      throw (IO.userError e.message)
    | .ok file =>
      let directory := String.ofList (directoryPart file.path.toList)
      if directory ≠ "" then IO.FS.createDirAll directory
      IO.FS.writeFile file.path file.text
      IO.print r.printed
      return 0
