import Eligibility.Settings.Config
import Eligibility.Text.Search

namespace Eligibility

/-- Files by name, the parts of a name separated by slashes. -/
structure Directory where
  files : List (String × String)

namespace Directory

/-- The parts of a path; empty parts and single dots do not count. -/
def parts (path : String) : List (List Char) :=
  (Text.pieces '/' path.toList).filter fun p => p != [] && p != ['.']

def file? (d : Directory) (parts : List (List Char)) : Option String :=
  (d.files.find? fun (name, _) => decide (Directory.parts name = parts)).map (·.2)

def isFolder (d : Directory) (parts : List (List Char)) : Bool :=
  parts.isEmpty ||
    d.files.any fun (name, _) =>
      parts.isPrefixOf (Directory.parts name) && parts.length < (Directory.parts name).length

def asksFolder (path : String) : Bool :=
  match (Text.pieces '/' path.toList).getLast? with
  | some p => p = [] || p = ['.']
  | none => false

def find (d : Directory) (here : List (List Char)) : List (List Char) → Except FileFault String
  | [] =>
    match d.file? here with
    | some text => .ok text
    | none => .error (if d.isFolder here then .directory else .missing)
  | p :: ps =>
    if (d.file? here).isSome then .error .notDirectory
    else if !d.isFolder here then .error .missing
    else if p = ['.', '.'] then
      match here with
      | [] => .error (if ps.all (· = ['.', '.']) then .directory else .missing)
      | _ => find d here.dropLast ps
    else find d (here ++ [p]) ps

def read (d : Directory) (path : String) : Except FileFault String :=
  if path.isEmpty then .error .missing
  else if path.toList.head? = some '/' then
    .error (if (parts path).isEmpty then .directory else .missing)
  else
    match d.find [] (parts path) with
    | .ok text => if asksFolder path then .error .notDirectory else .ok text
    | .error f => .error f

end Directory

end Eligibility
