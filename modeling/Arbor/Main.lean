import Arbor.Command
import Arbor.Files

/-!
# Command line

The program on the machine that it runs on.
-/

namespace Arbor

def IoFault.ofError : IO.Error → IoFault
  | .noFileOrDirectory _ _ _ => .notFound
  | .alreadyExists _ _ _ => .alreadyExists
  | .inappropriateType _ code _ => if code = 20 then .notDirectory else .isDirectory
  | .invalidArgument _ 36 _ => .nameTooLong
  | error => .described error.toString

def attempt {α : Type} (paths : List String) (action : IO α) : IO (Except IoFault α) := do
  if ¬ ∀ path ∈ paths, Files.IsPath path then return .error .nulInPath
  try return .ok (← action) catch error => return .error (.ofError error)

/-- The number of the running process, with which the description of its state begins. -/
def processId : IO Nat := do
  let state ← IO.FS.readFile "/proc/self/stat"
  let digits := state.toList.takeWhile Char.isDigit
  return Nat.ofDigitChars 10 digits 0

def machineHost (process : Nat) (given : IO.Ref Nat) : Host IO where
  read path := attempt [path] do return (← IO.FS.readBinFile path).toList
  write path bytes := attempt [path] (IO.FS.writeBinFile path (ByteArray.mk bytes.toArray))
  makeDirs path := attempt [path] (IO.FS.createDirAll path)
  rename source target := attempt [source, target] (IO.FS.rename source target)
  fresh := return uniqueText process (← given.modifyGet fun count => (count, count + 1))
  clock := IO.monoNanosNow
  out text := do
    let stream ← IO.getStdout
    stream.putStr text
    stream.flush
  err text := do (← IO.getStderr).putStr text

end Arbor

/-- The program. The log filter is set by an environment variable. -/
def main (words : List String) : IO UInt32 := do
  let host := Arbor.machineHost (← Arbor.processId) (← IO.mkRef 0)
  Arbor.Command.program host (← IO.getEnv "RUST_LOG") words
