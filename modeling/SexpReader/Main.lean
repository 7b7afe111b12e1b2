import SexpReader.CommandLine

/-!
# The program

Reads the files that the command line names, or the standard input, and writes the response. There
is no fuzzer that could drive it.
-/

namespace SexpReader

/-- The content of a file, or why it cannot be read. A folder can be opened, and the error of
reading from it names no file. -/
def readSource (path : Text) : IO (Except FileError Bytes) := do
  try
    return .ok (← IO.FS.readBinFile path.toString).toList
  catch
    | .noFileOrDirectory .. => return .error (.notFound path)
    | .inappropriateType none .. => return .error (.isFolder path)
    | .inappropriateType .. => return .error (.notFolder path)
    | e => throw e

/-- The homes of the users. The current user has the empty name. -/
def readHomes : IO (List (Text × Text)) := do
  let accounts ← try IO.FS.readFile "/etc/passwd" catch _ => pure ""
  let homes := FileSystem.homesOfAccounts (Text.ofString accounts)
  match ← IO.getEnv "HOME" with
  | some home => return ([], Text.ofString home) :: homes
  | none => return homes

/-- The sources that the options name. -/
def readSources (o : Options) : IO (Except Interruption (List Source)) := do
  let homes ← readHomes
  match o.expandedPaths (FileSystem.mk ⟨[], []⟩ ⟨[], []⟩ homes).home? with
  | .error e => return .error e
  | .ok [] =>
    let buffer ← (← IO.getStdin).readBinToEnd
    return .ok (Options.sourcesOf [] [] (some buffer.toList))
  | .ok paths =>
    let contents ← paths.mapM fun p => readSource p.print
    return .ok (Options.sourcesOf paths contents none)

/-- Runs the program and gives its exit code. -/
def runProgram (args : List String) : IO UInt32 := do
  let command := Command.ofArguments (args.map Text.ofString)
  let sources ← match command with
    | .parse o => readSources o
    | _ => pure (.ok [])
  let response := command.respond (fun _ => sources) none
  IO.print response.output.toString
  IO.eprint response.complaints.toString
  match response.ending with
  | .ok code => return code.toUInt32
  | .error e =>
    IO.eprintln e.message.toString
    return 1

end SexpReader

def main (args : List String) : IO UInt32 := SexpReader.runProgram args
