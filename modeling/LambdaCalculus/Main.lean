import LambdaCalculus.Command.Execute

/-!
# The command line program

Reads the files that the options name, executes the command line on them and
writes what comes of it.
-/

namespace LambdaCalculus

/-- Fuel that no run on a real machine uses up. -/
def machineFuel : Nat := 0x4000000000000000

/-- The string with the given bytes, if they are valid UTF-8. -/
def Text.toString? (text : Text) : Option String :=
  String.fromUTF8? ⟨text.toArray⟩

/-- The error behind a failed system call.  A call that names the file has
failed to open it; one that does not has failed to read from it. -/
def fileErrorOf : IO.Error -> FileError
  | .noFileOrDirectory _ _ _ => .missing
  | .inappropriateType (some _) _ _ => .notDirectory
  | .inappropriateType none _ _ => .notRegular
  | .invalidArgument _ _ _ => .nameTooLong
  | .permissionDenied _ _ _ => .refused "Permission denied"
  | error => .refused (error.toString : String)

/-- The bytes of a real file. -/
def readRealFile (path : Text) : IO (Except FileError Text) :=
  match path.toString? with
  | none => pure (.error .missing)
  | some name =>
      try
        let content ← IO.FS.readBinFile name
        pure (.ok content.data.toList)
      catch error =>
        pure (.error (fileErrorOf error))

/-- The canonical path of a real file; a path that leads nowhere stays as it
is. -/
def realPath (path : Text) : IO Text :=
  match path.toString? with
  | none => pure path
  | some name =>
      try
        let resolved ← IO.FS.realPath name
        pure resolved.toString
      catch _ =>
        pure path

/-- The real files with the given paths. -/
def realFiles (paths : List Text) : IO Files := do
  let contents ← paths.mapM readRealFile
  let names ← paths.mapM realPath
  pure
    { read := fun path =>
        ((paths.zip contents).lookup path).getD (.error .missing)
      canonical := fun path => ((paths.zip names).lookup path).getD path }

/-- Executes a command line on the real files that it names. -/
def executeReal (arguments : List String) : IO UInt32 := do
  let arguments := arguments.map Text.ofString
  let options := (Options.parse arguments).options
  let files ← realFiles [options.termPath, options.argumentPath]
  match execute machineFuel files arguments with
  | none => pure 1
  | some exit => do
      (← IO.getStdout).write ⟨exit.stdout.toArray⟩
      (← IO.getStderr).write ⟨exit.stderr.toArray⟩
      pure exit.code.toUInt32

end LambdaCalculus

/-- The entry point of the program. -/
def main (arguments : List String) : IO UInt32 :=
  LambdaCalculus.executeReal arguments
