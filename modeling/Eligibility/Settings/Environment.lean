import Eligibility.Text.Blank

namespace Eligibility

abbrev Environment := List (String × String)

namespace Environment

def provide (env : Environment) (name value : String) : Environment :=
  match env.lookup name with
  | some _ => env
  | none => env ++ [(name, value)]

/-- Where a line stands between quotes, escapes and blanks. -/
inductive Reach where
  | complete
  | blank
  | comment
  | escaped
  | double
  | doubleEscaped
  | single
  | singleEscaped
deriving DecidableEq

def Reach.open (c : Char) : Reach :=
  if c == '\\' then .escaped
  else if c == '"' then .double
  else if c == '\'' then .single
  else .complete

/-- A comment starts at a `#` right after a single blank. -/
def Reach.next : Reach → Char → Reach
  | .comment, _ => .comment
  | .blank, c => if c == '#' then .comment else .open c
  | .complete, c => if Text.isBlank c && c != '\n' && c != '\r' then .blank else .open c
  | .escaped, _ => .complete
  | .double, c => if c == '\\' then .doubleEscaped else if c == '"' then .complete else .double
  | .doubleEscaped, _ => .double
  | .single, c => if c == '\\' then .singleEscaped else if c == '\'' then .complete else .single
  | .singleEscaped, _ => .single

def follow (r : Reach) : List Char → List Char × Reach
  | [] => ([], r)
  | c :: cs =>
    match r.next c with
    | .comment => ([], .comment)
    | r =>
      let (kept, last) := follow r cs
      (c :: kept, last)

def lines : List Char → List (List Char)
  | [] => []
  | c :: cs =>
    if c = '\n' then [c] :: lines cs
    else match lines cs with
      | [] => [[c]]
      | l :: ls => (c :: l) :: ls

def dropLineEnd (cs : List Char) : List Char :=
  match cs.reverse with
  | '\n' :: '\r' :: r => r.reverse
  | '\n' :: r => r.reverse
  | _ => cs

/-- Joins lines while a quote is open. A text that ends inside of one ends in a fault. -/
def join (held : List Char) (r : Reach) : List (List Char) → List (Option (List Char))
  | [] => if r = .complete then [] else [none]
  | l :: ls =>
    if (Text.trimLeft (held ++ l)).head? = some '#' then some [] :: join [] .complete ls
    else match follow r l with
      | (_, .complete) => some (dropLineEnd (held ++ l)) :: join [] .complete ls
      | (kept, .comment) => some (held ++ kept) :: join [] .complete ls
      | (_, r) => join (held ++ l) r ls

/-- Where a value stands; `quoted` means between double quotes. -/
inductive ValueReach where
  | plain (quoted : Bool)
  | single
  | escape (quoted : Bool)
  | name (quoted : Bool) (reversed : List Char)
  | braced (quoted : Bool) (reversed : List Char)
  | ending

def valueOf (env : Environment) (reversed : List Char) : List Char :=
  ((env.lookup (String.ofList reversed.reverse)).getD "").toList

def isEscapable (c : Char) : Bool :=
  c == '\\' || c == '\'' || c == '"' || c == '$' || c == ' '

/-- The value that a text writes. The names of variables without braces are letters and digits of
ASCII. -/
def value? (env : Environment) : ValueReach → List Char → Option (List Char)
  | .plain quoted, [] => if quoted then none else some []
  | .single, [] => none
  | .escape quoted, [] => if quoted then none else some []
  | .name quoted name, [] => if quoted then none else some (valueOf env name)
  | .braced _ _, [] => none
  | .ending, [] => some []
  | .ending, c :: cs =>
    if c == ' ' || c == '\t' then value? env .ending cs else if c == '#' then some [] else none
  | .escape quoted, c :: cs =>
    if isEscapable c then (value? env (.plain quoted) cs).map (c :: ·)
    else if c == 'n' then (value? env (.plain quoted) cs).map ('\n' :: ·)
    else none
  | .single, c :: cs =>
    if c == '\'' then value? env (.plain false) cs else (value? env .single cs).map (c :: ·)
  | .name quoted name, c :: cs =>
    if c.isAlphanum then value? env (.name quoted (c :: name)) cs
    else if c == '\x7b' && name.isEmpty then value? env (.braced quoted []) cs
    else if c == '$' then (value? env (.name quoted []) cs).map (valueOf env name ++ ·)
    else (value? env (.plain quoted) cs).map (valueOf env name ++ c :: ·)
  | .braced quoted name, c :: cs =>
    if c == '\x7d' then (value? env (.plain quoted) cs).map (valueOf env name ++ ·)
    else value? env (.braced quoted (c :: name)) cs
  | .plain quoted, c :: cs =>
    if c == '$' then value? env (.name quoted []) cs
    else if c == '\\' then value? env (.escape quoted) cs
    else if c == '"' then value? env (.plain !quoted) cs
    else if quoted then (value? env (.plain true) cs).map (c :: ·)
    else if c == '\'' then value? env .single cs
    else if c == ' ' || c == '\t' then value? env .ending cs
    else (value? env (.plain false) cs).map (c :: ·)

def name? (cs : List Char) : Option (List Char × List Char) :=
  match cs with
  | [] => none
  | c :: _ =>
    if c.isAlpha || c == '_' then
      let name := cs.takeWhile fun c => c.isAlphanum || c == '_' || c == '.'
      some (name, cs.drop name.length)
    else none

def afterEquals? : List Char → Option (List Char)
  | '=' :: cs => some cs
  | _ => none

def assignment? (cs : List Char) : Option (List Char × List Char) := do
  let (name, rest) ← name? cs
  match afterEquals? (Text.trimLeft rest) with
  | some text => return (name, Text.trimLeft text)
  | none =>
    if name = "export".toList then do
      let (name, rest) ← name? (Text.trimLeft rest)
      let text ← afterEquals? (Text.trimLeft rest)
      return (name, Text.trimLeft text)
    else none

def isIdle (cs : List Char) : Bool := cs.isEmpty || cs.head? == some '#'

def take (env : Environment) (line : List Char) : Option Environment :=
  let cs := Text.trim line
  if isIdle cs then some env
  else do
    let (name, text) ← assignment? cs
    let value ← if isIdle text then some [] else value? env (.plain false) text
    return env.provide (String.ofList name) (String.ofList value)

def takeAll (env : Environment) : List (Option (List Char)) → Environment
  | [] => env
  | none :: _ => env
  | some l :: ls =>
    match env.take l with
    | some env => takeAll env ls
    | none => env

/-- A file holds lines `NAME=value`, with comments after `#`; a quoted value may go on over several
lines. Its variables are added to those that the environment does not set itself. -/
def load (env : Environment) (text : String) : Environment :=
  let cs := match text.toList with
    | '\ufeff' :: cs => cs
    | cs => cs
  env.takeAll (join [] .complete (lines cs))

end Environment

end Eligibility
