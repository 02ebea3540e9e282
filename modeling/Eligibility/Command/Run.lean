import Eligibility.Command.Arguments
import Eligibility.Drafting.Loop
import Eligibility.Json.Render
import Eligibility.Rule.Parse
import Eligibility.Settings.Backend
import Eligibility.Settings.Document

namespace Eligibility

/-- What a run may look at: variables, files by path, and standard input. -/
structure Surroundings where
  env : Environment
  file : String → Except FileFault String
  input : Except FileFault String

inductive CommandFault where
  | node (f : ReadFault)
  | config (f : ConfigFault)
  | file (f : FileFault)
  | client (t : Trouble)

namespace CommandFault

def trouble : CommandFault → Trouble
  | .node f => ⟨["Invalid node JSON: " ++ f.message, f.message]⟩
  | .config (.file path f) =>
    let message := (ConfigFault.file path f).message
    ⟨["Configuration error: " ++ message, message, f.message]⟩
  | .config f => ⟨["Configuration error: " ++ f.message, f.message]⟩
  | .file f => ⟨["IO error: " ++ f.message, f.message]⟩
  | .client t => t

end CommandFault

inductive Product where
  | source (s : String)
  | kinds (ks : List Kind)
  /-- A run that is ready to ask a hosted model about a text. -/
  | ready (host : Host) (config : Config) (text : String)

structure Report where
  exit : Nat
  stdout : String
  stderr : String
deriving DecidableEq

namespace Command

def inputFrom (s : Surroundings) (file : Option String) : Except CommandFault String :=
  (match file with
    | some path => s.file path
    | none => s.input).mapError .file

def configFrom (s : Surroundings) (config : Option String) : Except CommandFault Config :=
  (match config with
    | some path => Config.ofFile path (s.file path)
    | none => Config.ofEnvironment s.env).mapError .config

def guideline (title : Option String) (body : String) : String :=
  match title with
  | some title => Run.titled title body
  | none => String.ofList (Text.trim body.toList)

/-- The config is read before the text, and the text before the model is looked up. -/
def run (s : Surroundings) : Command → Except CommandFault Product
  | .compile file => do
    let text ← inputFrom s file
    match Node.parse text with
    | .ok n => return .source n.source
    | .error f => .error (.node f)
  | .orchestrate file title config => do
    let config ← configFrom s config
    let body ← inputFrom s file
    match Host.ofEnvironment s.env with
    | .ok host => return .ready host config (guideline title body)
    | .error t => .error (.client t)
  | .kinds => .ok (.kinds Kind.all)

def files : Command → List String
  | .compile file => file.toList
  | .orchestrate file _ config => config.toList ++ file.toList
  | .kinds => []

def readsInput : Command → Bool
  | .compile file => file.isNone
  | .orchestrate file _ _ => file.isNone
  | .kinds => false

end Command

namespace Report

def line (s : String) : Report := ⟨0, s ++ "\n", ""⟩

def kindLine (k : Kind) : String :=
  k.name ++ String.ofList (List.replicate (26 - k.name.length) ' ') ++ " " ++
    (if k.isRule then "rule" else "operand") ++ "\n"

def kindJson (k : Kind) : Json :=
  .object [("constraint", .bool k.isRule), ("kind", .string k.name)]

def ofSource (f : Format) (s : String) : Report :=
  match f with
  | .json => line (Json.object [("source", .string s)]).render
  | .text => line s

def ofKinds (f : Format) (ks : List Kind) : Report :=
  match f with
  | .json => line (Json.array (ks.map kindJson)).render
  | .text => ⟨0, String.join (ks.map kindLine), ""⟩

def ofTrouble (f : Format) (t : Trouble) : Report :=
  match f with
  | .json => ⟨1, (Json.object [("error", .string t.text)]).render ++ "\n", ""⟩
  | .text => ⟨1, "", "error: " ++ t.text ++ "\n"⟩

def unreachable (host : Host) : Trouble :=
  .of ("no connection to " ++ host.backend.name ++ " (" ++ host.model ++ ")")

def ofProduct (f : Format) : Except CommandFault Product → Report
  | .ok (.source s) => ofSource f s
  | .ok (.kinds ks) => ofKinds f ks
  | .ok (.ready host _ _) => ofTrouble f (unreachable host)
  | .error fault => ofTrouble f fault.trouble

def usageText : String :=
  "Usage: guideline_cli [-o json|text] compile [-f FILE]\n" ++
  "       guideline_cli [-o json|text] orchestrate [-f FILE] [--title TITLE] [-c CONFIG]\n" ++
  "       guideline_cli [-o json|text] kinds\n"

def ofRequest (s : Surroundings) : Option Request → Report
  | some (.run c f) => ofProduct f (c.run s)
  | some .version => line "guideline_cli 0.1.0"
  | some .help => ⟨0, usageText, ""⟩
  | none => ⟨2, "", usageText⟩

end Report

/-- The report on arguments. A file of variables in the working directory adds to the environment. -/
def Surroundings.report (s : Surroundings) (args : List String) : Report :=
  let env := match s.file ".env" with
    | .ok text => s.env.load text
    | .error _ => s.env
  Report.ofRequest { s with env := env } (Request.ofArguments args)

end Eligibility
