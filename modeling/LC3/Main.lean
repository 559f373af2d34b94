import LC3.CommandLine.Session

/-!
# The program

The command line on the process's own files, input and output.
-/

namespace LC3

def fileErrorText : IO.Error → String
  | .noFileOrDirectory .. => "No such file or directory (os error 2)"
  | e => toString e

def processConsole : Console IO where
  readFile name := do
    try
      return .ok (← IO.FS.readFile name)
    catch e => return .error (fileErrorText e)
  readInput n := do
    let bytes ← (← IO.getStdin).read (USize.ofNat n)
    return bytes.toList
  writeOutput bytes := do
    let out ← IO.getStdout
    out.write (ByteArray.mk bytes.toArray)
    out.flush

end LC3

def main (arguments : List String) : IO UInt32 := do
  let literals ← IO.getEnv LC3.Settings.literalsVariable
  let limit ← IO.getEnv LC3.Settings.stepLimitVariable
  let variableValue := fun name =>
    if name == LC3.Settings.literalsVariable then literals
    else if name == LC3.Settings.stepLimitVariable then limit
    else none
  let ending ← LC3.Session.start LC3.processConsole arguments variableValue
  if let some message := ending.message? then
    IO.eprintln ("Error: " ++ message)
  if ending = .usage then
    IO.eprintln LC3.Session.helpText
  return ending.status
