import Eligibility.Rule.Basic

namespace Eligibility

/-- A place inside a tree, such as `root.preds[1].inner`. -/
structure NodePath where
  text : String
deriving DecidableEq

namespace NodePath

def root : NodePath := ⟨"root"⟩

def child (p : NodePath) (segment : String) : NodePath := ⟨p.text ++ "." ++ segment⟩

def isRoot (p : NodePath) : Bool := p.text == "root"

def lastSegment (p : NodePath) : List Char := Text.lastPiece '.' p.text.toList

end NodePath

namespace Rule

def indexed (key : String) (i : Nat) : String := key ++ "[" ++ toString i ++ "]"

def labelled (key : String) (i : Nat) : List Rule → List (String × Rule)
  | [] => []
  | r :: rs => (indexed key i, r) :: labelled key (i + 1) rs

/-- The rules directly inside a rule, each with its label. A condition is no rule of its own. -/
def children : Rule → List (String × Rule)
  | .task _ _ _ none => []
  | .task _ _ _ (some inner) => [("inner", inner)]
  | .comparison _ => []
  | .ratio _ => []
  | .oneOf options => labelled "options" 0 options
  | .allOf preds => labelled "preds" 0 preds
  | .branch _ yes none => [("then", yes)]
  | .branch _ yes (some no) => [("then", yes), ("else", no)]

mutual
def size : Rule → Nat
  | .task _ _ _ inner => sizeOptional inner + 1
  | .comparison _ => 1
  | .ratio _ => 1
  | .oneOf options => sizeAll options + 1
  | .allOf preds => sizeAll preds + 1
  | .branch _ yes no => size yes + sizeOptional no + 1
def sizeOptional : Option Rule → Nat
  | none => 0
  | some r => size r
def sizeAll : List Rule → Nat
  | [] => 0
  | r :: rs => size r + sizeAll rs
end

def visit : Nat → List (NodePath × Rule) → List (NodePath × Rule)
  | 0, _ => []
  | _ + 1, [] => []
  | fuel + 1, (path, r) :: waiting =>
    (path, r) ::
      visit fuel (r.children.map (fun (label, c) => (path.child label, c)) ++ waiting)

/-- Every rule of the tree with its path, parents before children and children in order. -/
def walk (r : Rule) : List (NodePath × Rule) := visit r.size [(.root, r)]

end Rule

end Eligibility
