import PascalBlock.CommandLine

/-!
# The program

Reads the file that the arguments name, writes the output, and exits with its code.
-/

namespace PascalBlock

/-- The bytes of a file, if it can be read. -/
def readFile? (path : String) : IO (Option ByteArray) := do
  try
    return some (← IO.FS.readBinFile path)
  catch _ =>
    return none

end PascalBlock

open PascalBlock in
def main (args : List String) : IO UInt32 := do
  let start ← IO.monoMsNow
  let content ← match CommandLine.Request.ofArguments args with
    | .run _ path => readFile? path
    | _ => pure none
  let stop ← IO.monoMsNow
  let elapsed := toString (stop - start) ++ "ms"
  let response := CommandLine.respond args (fun _ => content) elapsed
  IO.print response.output
  return response.exitCode.toUInt32
