import EquityScreen.CommandLine
import EquityScreen.Quantity.Binary64

namespace EquityScreen

def entryAt (path : String) : IO FileEntry := do
  try
    return .file (← IO.FS.readBinFile path)
  catch fault =>
    match fault with
    | .inappropriateType .. => return .directory
    | _ => return .absent

partial def readAll (stream : IO.FS.Stream) (text : String) : IO String := do
  let line ← stream.getLine
  if line.isEmpty then return text else readAll stream (text ++ line)

end EquityScreen

open EquityScreen in
def main (arguments : List String) : IO UInt32 := do
  let stdin ← IO.getStdin
  let environment : CommandLine.Environment IO :=
    { arguments
      settingsPath := ← IO.getEnv "SCREENER_CONFIG"
      input := readAll stdin ""
      entry := entryAt }
  let outcome ← CommandLine.run Float environment
  IO.print outcome.output
  IO.eprint outcome.errors
  return outcome.status.toUInt32
