import Eligibility.Command.Run

namespace Eligibility.Main

def known : List String :=
  [Config.attemptsVariable, Config.carryVariable, "GUIDELINE_BACKEND", Access.timeoutVariable,
    Backend.anthropic.keyVariable, Backend.anthropic.modelVariable, Backend.openai.keyVariable,
    Backend.openai.modelVariable]

def words (text : String) : List String :=
  (text.map fun c => if c.isAlphanum || c == '_' then c else ' ').splitOn " "

def environment (names : List String) : IO Environment := do
  let mut env : Environment := []
  for name in names do
    if let some value ← IO.getEnv name then
      env := env.provide name value
  return env

def decode (bytes : ByteArray) : Except FileFault String :=
  match String.fromUTF8? bytes with
  | some text => .ok text
  | none => .error .notText

def readFile (path : String) : IO (Except FileFault String) := do
  try
    return decode (← IO.FS.readBinFile path)
  catch
    | .noFileOrDirectory .. => return .error .missing
    | .inappropriateType _ code _ =>
      return .error (if code = 20 || code = 0 - 20 then .notDirectory else .directory)
    | e => return .error (.other (toString e))

def readInput : IO (Except FileFault String) := do
  let stdin ← IO.getStdin
  if ← stdin.isTty then return .error .terminal
  let mut bytes := ByteArray.empty
  repeat
    let more ← stdin.read 65536
    if more.isEmpty then break
    bytes := bytes ++ more
  return decode bytes

end Eligibility.Main

open Eligibility in
def main (args : List String) : IO UInt32 := do
  let assignments ← Main.readFile ".env"
  let names := match assignments with
    | .ok text => Main.known ++ Main.words text
    | .error _ => Main.known
  let command := match Request.ofArguments args with
    | some (.run c _) => some c
    | _ => none
  let mut files := [(".env", assignments)]
  for path in (command.map Command.files).getD [] do
    files := files ++ [(path, ← Main.readFile path)]
  let input ←
    if command.any Command.readsInput then Main.readInput else pure (.ok "")
  let surroundings : Surroundings :=
    ⟨← Main.environment names, fun path => (files.lookup path).getD (.error .missing), input⟩
  let report := surroundings.report args
  IO.print report.stdout
  IO.eprint report.stderr
  return report.exit.toUInt32
