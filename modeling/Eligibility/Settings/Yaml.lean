namespace Eligibility

inductive Yaml where
  | plain (s : String)
  | quoted (s : String)
  | sequence (items : List Yaml)
  | mapping (members : List (Yaml × Yaml))

namespace Yaml

/-- The rest of a text, and the column at which it starts. -/
structure Cursor where
  rest : List Char
  column : Nat

def Cursor.advance (c : Cursor) (n : Nat) : Cursor := ⟨c.rest.drop n, c.column + n⟩

def normalize : List Char → List Char
  | '\r' :: '\n' :: cs => '\n' :: normalize cs
  | '\r' :: cs => '\n' :: normalize cs
  | c :: cs => c :: normalize cs
  | [] => []

def isBlank (c : Char) : Bool := c == ' ' || c == '\t'

def opensBlank : List Char → Bool
  | [] => true
  | c :: _ => isBlank c || c == '\n'

/-- Passes over blanks, comments and line ends, and tells whether a line has ended. A tab may not
indent a line. -/
def skipFrom (flow tabs comment newLine : Bool) (column : Nat) :
    List Char → Option (Cursor × Bool)
  | [] => some (⟨[], column⟩, newLine)
  | '\n' :: cs => skipFrom flow flow false true 0 cs
  | c :: cs =>
    if comment then skipFrom flow tabs true newLine (column + 1) cs
    else if c == ' ' then skipFrom flow tabs false newLine (column + 1) cs
    else if c == '\t' then
      if tabs then skipFrom flow tabs false newLine (column + 1) cs else none
    else if c == '#' then skipFrom flow tabs true newLine (column + 1) cs
    else some (⟨c :: cs, column⟩, newLine)

def skip (tabs : Bool) (c : Cursor) : Option (Cursor × Bool) :=
  skipFrom false tabs false false c.column c.rest

def skipFlow (c : Cursor) : Option Cursor :=
  (skipFrom true true false false c.column c.rest).map (·.1)

def hasMark (mark : List Char) (c : Cursor) : Bool :=
  c.column == 0 && mark.isPrefixOf c.rest && opensBlank (c.rest.drop 3)

def startMark : List Char := ['-', '-', '-']

def endMark : List Char := ['.', '.', '.']

def Cursor.atEnd (c : Cursor) : Bool :=
  c.rest.isEmpty || hasMark startMark c || hasMark endMark c

def Cursor.atDash (c : Cursor) : Bool :=
  match c.rest with
  | '-' :: cs => opensBlank cs
  | _ => false

def Cursor.afterColon? (c : Cursor) : Option Cursor :=
  let blanks := c.rest.takeWhile isBlank
  match c.rest.drop blanks.length with
  | ':' :: cs => if opensBlank cs then some (c.advance (blanks.length + 1)) else none
  | _ => none

/-- The blank that line ends between two words of a scalar come to. -/
def fold : Nat → List Char
  | 0 => []
  | 1 => [' ']
  | n + 2 => List.replicate (n + 1) '\n'

def isFlowMark (c : Char) : Bool := c == ',' || c == '[' || c == ']' || c == '\x7b' || c == '\x7d'

def plainLine (flow afterBlank : Bool) : List Char → Option (List Char)
  | [] => some []
  | '\n' :: _ => some []
  | c :: cs =>
    if c == ':' && opensBlank cs then some []
    else if flow && c == ':' && cs.head?.any (fun d => isFlowMark d || d == '?') then none
    else if flow && isFlowMark c then some []
    else if c == '#' && afterBlank then some []
    else (plainLine flow (isBlank c) cs).map (c :: ·)

def dropBlanksRight (cs : List Char) : List Char := (cs.reverse.dropWhile isBlank).reverse

def nextLine (ended column : Nat) : List Char → Nat × Cursor
  | '\n' :: cs => nextLine (ended + 1) 0 cs
  | ' ' :: cs => nextLine ended (column + 1) cs
  | '\t' :: cs => nextLine ended (column + 1) cs
  | cs => (ended, ⟨cs, column⟩)

/-- A plain scalar; its further lines are indented at least to column `least`. -/
def readPlain (flow : Bool) (least : Nat) : Nat → Cursor → Option (List Char × Cursor)
  | 0, _ => none
  | fuel + 1, c => do
    let raw ← plainLine flow true c.rest
    let text := dropBlanksRight raw
    let after := c.advance raw.length
    match after.rest with
    | '\n' :: _ =>
      let (ended, next) := nextLine 0 after.column after.rest
      if next.rest.isEmpty || next.rest.head? == some '#' || next.atEnd
          || (!flow && next.column < least) then
        return (text, after)
      else
        let (more, last) ← readPlain flow least fuel next
        if more.isEmpty then return (text, after) else return (text ++ fold ended ++ more, last)
    | _ => return (text, after)

def startsPlain (flow : Bool) : List Char → Bool
  | [] => false
  | c :: cs =>
    if c == '-' then !opensBlank cs
    else if c == '?' || c == ':' then !flow && !opensBlank cs
    else !(",[]\x7b\x7d#&*!|>'\"%@`".toList.contains c) && !isBlank c && c != '\n'

def readSingle : Nat → Cursor → Option (List Char × Cursor)
  | 0, _ => none
  | fuel + 1, c =>
    match c.rest with
    | [] => none
    | '\'' :: '\'' :: _ => do
      let (more, last) ← readSingle fuel (c.advance 2)
      return ('\'' :: more, last)
    | '\'' :: _ => some ([], c.advance 1)
    | d :: _ =>
      let (ended, next) := nextLine 0 c.column c.rest
      if ended = 0 then do
        let (more, last) ← readSingle fuel (c.advance 1)
        return (d :: more, last)
      else do
        let (more, last) ← readSingle fuel next
        return (fold ended ++ more, last)

def hexDigit? (c : Char) : Option Nat :=
  if c.isDigit then some (c.toNat - '0'.toNat)
  else if 'a' ≤ c ∧ c ≤ 'f' then some (c.toNat - 'a'.toNat + 10)
  else if 'A' ≤ c ∧ c ≤ 'F' then some (c.toNat - 'A'.toNat + 10)
  else none

def hexChar (n : Nat) (cs : List Char) : Option Char := do
  let ds ← (cs.take n).mapM hexDigit?
  let code := ds.foldl (fun m d => 16 * m + d) 0
  if ds.length = n ∧ code.isValidChar then return Char.ofNat code else none

/-- What a backslash and the characters after it stand for, and how many characters that takes. -/
def escape? : List Char → Option (Char × Nat)
  | '0' :: _ => some (Char.ofNat 0, 1)
  | 'a' :: _ => some (Char.ofNat 7, 1)
  | 'b' :: _ => some (Char.ofNat 8, 1)
  | 't' :: _ => some ('\t', 1)
  | '\t' :: _ => some ('\t', 1)
  | 'n' :: _ => some ('\n', 1)
  | 'v' :: _ => some (Char.ofNat 11, 1)
  | 'f' :: _ => some (Char.ofNat 12, 1)
  | 'r' :: _ => some ('\r', 1)
  | 'e' :: _ => some (Char.ofNat 27, 1)
  | ' ' :: _ => some (' ', 1)
  | '"' :: _ => some ('"', 1)
  | '/' :: _ => some ('/', 1)
  | '\\' :: _ => some ('\\', 1)
  | 'N' :: _ => some (Char.ofNat 0x85, 1)
  | '_' :: _ => some (Char.ofNat 0xA0, 1)
  | 'L' :: _ => some (Char.ofNat 0x2028, 1)
  | 'P' :: _ => some (Char.ofNat 0x2029, 1)
  | 'x' :: cs => (hexChar 2 cs).map fun c => (c, 3)
  | 'u' :: cs => (hexChar 4 cs).map fun c => (c, 5)
  | 'U' :: cs => (hexChar 8 cs).map fun c => (c, 9)
  | _ => none

def readDouble : Nat → Cursor → Option (List Char × Cursor)
  | 0, _ => none
  | fuel + 1, c =>
    match c.rest with
    | [] => none
    | '"' :: _ => some ([], c.advance 1)
    | '\\' :: '\n' :: cs => readDouble fuel (nextLine 0 0 cs).2
    | '\\' :: cs => do
      let (d, n) ← escape? cs
      let (more, last) ← readDouble fuel (c.advance (n + 1))
      return (d :: more, last)
    | d :: _ =>
      let (ended, next) := nextLine 0 c.column c.rest
      if ended = 0 then do
        let (more, last) ← readDouble fuel (c.advance 1)
        return (d :: more, last)
      else do
        let (more, last) ← readDouble fuel next
        return (fold ended ++ more, last)

mutual
def atom (flow : Bool) (least : Nat) : Nat → Cursor → Option (Yaml × Cursor)
  | 0, _ => none
  | fuel + 1, c =>
    match c.rest with
    | '[' :: _ => do
      let (items, last) ← flowItems fuel (← skipFlow (c.advance 1))
      return (.sequence items, last)
    | '\x7b' :: _ => do
      let (members, last) ← flowMembers fuel (← skipFlow (c.advance 1))
      return (.mapping members, last)
    | '\'' :: _ => do
      let (s, last) ← readSingle fuel (c.advance 1)
      return (.quoted (String.ofList s), last)
    | '"' :: _ => do
      let (s, last) ← readDouble fuel (c.advance 1)
      return (.quoted (String.ofList s), last)
    | cs =>
      if startsPlain flow cs then do
        let (s, last) ← readPlain flow least fuel c
        return (.plain (String.ofList s), last)
      else none
def flowItems : Nat → Cursor → Option (List Yaml × Cursor)
  | 0, _ => none
  | fuel + 1, c =>
    match c.rest with
    | ']' :: _ => some ([], c.advance 1)
    | _ => do
      let (item, after) ← flowPair fuel c
      match after.rest with
      | ',' :: _ => do
        let (items, last) ← flowItems fuel (← skipFlow (after.advance 1))
        return (item :: items, last)
      | ']' :: _ => return ([item], after.advance 1)
      | _ => none
def flowPair : Nat → Cursor → Option (Yaml × Cursor)
  | 0, _ => none
  | fuel + 1, c => do
    let (key, after) ← atom true 0 fuel c
    let after ← skipFlow after
    match after.rest with
    | ':' :: _ => do
      let (value, last) ← flowValue fuel (← skipFlow (after.advance 1))
      return (.mapping [(key, value)], last)
    | _ => return (key, after)
def flowValue : Nat → Cursor → Option (Yaml × Cursor)
  | 0, _ => none
  | fuel + 1, c =>
    match c.rest with
    | ',' :: _ => some (.plain "", c)
    | ']' :: _ => some (.plain "", c)
    | '\x7d' :: _ => some (.plain "", c)
    | _ => do
      let (value, after) ← atom true 0 fuel c
      return (value, ← skipFlow after)
def flowMembers : Nat → Cursor → Option (List (Yaml × Yaml) × Cursor)
  | 0, _ => none
  | fuel + 1, c =>
    match c.rest with
    | '\x7d' :: _ => some ([], c.advance 1)
    | _ => do
      let (key, after) ← atom true 0 fuel c
      let after ← skipFlow after
      let (value, after) ← match after.rest with
        | ':' :: _ => do flowValue fuel (← skipFlow (after.advance 1))
        | _ => some (.plain "", after)
      match after.rest with
      | ',' :: _ => do
        let (members, last) ← flowMembers fuel (← skipFlow (after.advance 1))
        return ((key, value) :: members, last)
      | '\x7d' :: _ => return ([(key, value)], after.advance 1)
      | _ => none
end

def endsLine (c last : Cursor) : Bool :=
  (c.rest.take (c.rest.length - last.rest.length)).contains '\n'

def finishLine (v : Yaml) (c : Cursor) : Option (Yaml × Cursor) := do
  let (next, newLine) ← skip true c
  if newLine || next.atEnd then return (v, next) else none

def key? (least fuel : Nat) (c : Cursor) : Option (Yaml × Cursor) := do
  let (k, after) ← atom false least fuel c
  let next ← after.afterColon?
  if endsLine c after then none else return (k, next)

mutual
/-- A block that starts at the cursor and whose further lines are indented at least to column
`least`. The cursor is left at the next line after it. -/
def block (least : Nat) : Nat → Cursor → Option (Yaml × Cursor)
  | 0, _ => none
  | fuel + 1, c =>
    if c.atDash then do
      let (items, last) ← entries c.column false fuel c
      return (.sequence items, last)
    else do
      let (v, after) ← atom false least fuel c
      match after.afterColon? with
      | some next =>
        if endsLine c after then none
        else do
          let (members, last) ← members c.column v fuel next
          return (.mapping members, last)
      | none => finishLine v after
termination_by structural n => n
/-- The entries of a sequence at a column. Inside a mapping a sequence may stand at the column of its
key. -/
def entries (column : Nat) (shared : Bool) : Nat → Cursor → Option (List Yaml × Cursor)
  | 0, _ => none
  | fuel + 1, c => do
    let (start, newLine) ← skip false (c.advance 1)
    let (item, next) ←
      if start.atEnd || (newLine && start.column ≤ column) then some (Yaml.plain "", start)
      else block (column + 1) fuel start
    if next.atEnd || next.column < column then return ([item], next)
    else if next.column = column then
      if next.atDash then do
        let (items, last) ← entries column shared fuel next
        return (item :: items, last)
      else if shared then return ([item], next) else none
    else none
termination_by structural n => n
def members (column : Nat) (key : Yaml) : Nat → Cursor → Option (List (Yaml × Yaml) × Cursor)
  | 0, _ => none
  | fuel + 1, c => do
    let (value, next) ← value column fuel c
    if next.atEnd || next.column < column then return ([(key, value)], next)
    else if next.column = column && !next.atDash then do
      let (k, after) ← key? (column + 1) fuel next
      let (more, last) ← members column k fuel after
      return ((key, value) :: more, last)
    else none
termination_by structural n => n
def value (column : Nat) : Nat → Cursor → Option (Yaml × Cursor)
  | 0, _ => none
  | fuel + 1, c => do
    let (start, newLine) ← skip true c
    if start.atEnd then return (.plain "", start)
    else if newLine then
      if column < start.column then block (column + 1) fuel start
      else if start.column = column && start.atDash then do
        let (items, last) ← entries column true fuel start
        return (.sequence items, last)
      else return (.plain "", start)
    else if start.atDash then none
    else do
      let (v, after) ← atom false (column + 1) fuel start
      if after.afterColon?.isSome then none else finishLine v after
termination_by structural n => n
end

def afterMark (fuel : Nat) (c : Cursor) : Option (Yaml × Cursor) := do
  let (start, newLine) ← skip true (c.advance 3)
  if start.atEnd then return (.plain "", start)
  else if newLine then block 0 fuel start
  else do
    let (v, after) ← atom false 0 fuel start
    if after.afterColon?.isSome then none else finishLine v after

def skipEnds : Nat → Cursor → Option Cursor
  | 0, _ => none
  | fuel + 1, c => do
    let (next, _) ← skip true c
    if hasMark endMark next then skipEnds fuel (next.advance 3) else return next

def opening (text : String) : List Char :=
  match normalize text.toList with
  | '\ufeff' :: cs => cs
  | cs => cs

/-- The single document of a text; inside, none when the text holds nothing. -/
def parse (text : String) : Option (Option Yaml) := do
  let cs := opening text
  let fuel := 4 * cs.length + 8
  let (start, _) ← skip false ⟨cs, 0⟩
  let start ← skipEnds fuel start
  if start.rest.isEmpty then return none
  let (v, last) ← if hasMark startMark start then afterMark fuel start else block 0 fuel start
  let last ← skipEnds fuel last
  if last.rest.isEmpty then return some v else none

end Yaml

end Eligibility
