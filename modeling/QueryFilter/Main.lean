import QueryFilter.CommandLine.Report

/-!
# The program

The outer layer of the command line: it reads the file that the arguments name, prints what the run
reports, and exits with its code.
-/

namespace QueryFilter

/-- The file fault behind a failure to read a file. -/
def FileFault.ofError : IO.Error → FileFault
  | .noFileOrDirectory _ _ _ => .missing
  | .permissionDenied _ code details => .system details code.toNat
  | .inappropriateType _ code details => .system details code.toNat
  | .invalidArgument _ code details => .system details code.toNat
  | .otherError code details => .system details code.toNat
  | e => .system (toString e) 0

/-- What reading a file gives. -/
def readContents (path : String) : IO (Except FileFault ByteArray) := do
  match ← (IO.FS.readBinFile path).toBaseIO with
  | .ok bytes => return .ok bytes
  | .error e => return .error (.ofError e)

/-- The report of a run.  A file is read only if the arguments name one. -/
def runArguments (arguments : List String) : IO Report := do
  let path := (Invocation.ofArguments arguments).toOption.bind Invocation.config
  let contents ← path.mapM readContents
  return .ofArguments arguments fun _ => contents.getD (.error .missing)

end QueryFilter

def main (arguments : List String) : IO UInt32 := do
  let report ← QueryFilter.runArguments arguments
  IO.print report.output
  IO.eprint report.error
  return report.code.toUInt32
