namespace Eligibility

inductive Format where
  | json
  | text
deriving DecidableEq

inductive Command where
  /-- Compiles a node. -/
  | compile (file : Option String)
  /-- Drafts and validates a guideline. -/
  | orchestrate (file title config : Option String)
  /-- Lists the kinds. -/
  | kinds
deriving DecidableEq

inductive Request where
  | run (c : Command) (f : Format)
  | version
  | help
deriving DecidableEq

namespace Request

inductive Flag where
  | format
  | file
  | title
  | config
deriving DecidableEq

namespace Flag

def long : Flag → String
  | .format => "format"
  | .file => "file"
  | .title => "title"
  | .config => "config"

def short? : Flag → Option Char
  | .format => some 'o'
  | .file => some 'f'
  | .title => none
  | .config => some 'c'

def formats : List (String × Format) := [("json", .json), ("text", .text)]

def accepts : Flag → String → Bool
  | .format, s => (formats.lookup s).isSome
  | .title, _ => true
  | _, s => !s.isEmpty

end Flag

structure Level where
  flags : List Flag
  hasVersion : Bool

inductive Halt where
  | usage
  | version
  | help
deriving DecidableEq

inductive Word where
  /-- The mark after which no option follows. -/
  | ends
  | long (name : List Char) (value : Option (List Char))
  | short (letter : Char) (rest : List Char)
  | plain
deriving DecidableEq

def Word.ofText (s : String) : Word :=
  match s.toList with
  | ['-', '-'] => .ends
  | '-' :: '-' :: cs =>
    let name := cs.takeWhile (· != '=')
    match cs.drop name.length with
    | _ :: value => .long name (some value)
    | [] => .long name none
  | '-' :: c :: cs => .short c cs
  | _ => .plain

def Word.flag (level : Level) : Word → Except Halt (Flag × Option (List Char))
  | .long name value =>
    if name = "help".toList then .error (if value.isSome then .usage else .help)
    else if name = "version".toList && level.hasVersion then
      .error (if value.isSome then .usage else .version)
    else match level.flags.find? fun f => f.long.toList = name with
      | some f => .ok (f, value)
      | none => .error .usage
  | .short letter rest =>
    if letter = 'h' then .error .help
    else if letter = 'V' && level.hasVersion then .error .version
    else match level.flags.find? fun f => f.short? = some letter with
      | some f =>
        .ok (f, match rest with
          | [] => none
          | '=' :: value => some value
          | value => some value)
      | none => .error .usage
  | _ => .error .usage

abbrev Given := List (Flag × String)

def Given.add (g : Given) (f : Flag) (value : String) : Except Halt Given :=
  if (g.lookup f).isSome || !f.accepts value then .error .usage else .ok (g ++ [(f, value)])

def isValue (s : String) : Bool := decide (Word.ofText s = .plain)

def options (level : Level) (g : Given) : List String → Except Halt (Given × List String)
  | [] => .ok (g, [])
  | w :: ws =>
    match Word.ofText w with
    | .plain => .ok (g, w :: ws)
    | .ends => if ws.isEmpty then .ok (g, []) else .error .usage
    | word =>
      match word.flag level with
      | .error h => .error h
      | .ok (f, some value) =>
        match g.add f (String.ofList value) with
        | .error h => .error h
        | .ok g => options level g ws
      | .ok (f, none) =>
        match ws with
        | [] => .error .usage
        | value :: ws =>
          if isValue value then
            match g.add f value with
            | .error h => .error h
            | .ok g => options level g ws
          else .error .usage

def program : Level := ⟨[.format], true⟩

def flagsOf : String → Option (List Flag)
  | "compile" => some [.file]
  | "orchestrate" => some [.file, .title, .config]
  | "kinds" => some []
  | _ => none

def command (name : String) (g : Given) : Command :=
  if name = "compile" then .compile (g.lookup .file)
  else if name = "orchestrate" then
    .orchestrate (g.lookup .file) (g.lookup .title) (g.lookup .config)
  else .kinds

def format (before after : Given) : Format :=
  match (after.lookup .format).or (before.lookup .format) with
  | some s => (Flag.formats.lookup s).getD .text
  | none => .text

def ofCommand (before : Given) (name : String) (args : List String) : Except Halt Request :=
  match flagsOf name with
  | some flags =>
    match options ⟨.format :: flags, false⟩ [] args with
    | .error h => .error h
    | .ok (after, []) => .ok (.run (command name after) (format before after))
    | .ok (_, _ :: _) => .error .usage
  | none =>
    if name = "help" then
      match args with
      | [] => .error .help
      | [topic] =>
        .error (if topic = "help" || (flagsOf topic).isSome then .help else .usage)
      | _ => .error .usage
    else .error .usage

def read (args : List String) : Except Halt Request :=
  match options program [] args with
  | .error h => .error h
  | .ok (_, []) => .error .usage
  | .ok (before, name :: args) => ofCommand before name args

/-- The request that arguments make; none if they are not used rightly. -/
def ofArguments (args : List String) : Option Request :=
  match read args with
  | .ok r => some r
  | .error .version => some .version
  | .error .help => some .help
  | .error .usage => none

end Request

end Eligibility
