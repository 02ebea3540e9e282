namespace Eligibility.Text

def cut? (word : List Char) : List Char → Option (List Char × List Char)
  | [] => if word = [] then some ([], []) else none
  | c :: cs =>
    if word.isPrefixOf (c :: cs) then some ([], (c :: cs).drop word.length)
    else (cut? word cs).map fun (before, after) => (c :: before, after)

def upTo (word cs : List Char) : List Char :=
  match cut? word cs with
  | some (before, _) => before
  | none => cs

/-- The pieces between the occurrences of a character; one piece more than there are occurrences. -/
def pieces (sep : Char) : List Char → List (List Char)
  | [] => [[]]
  | c :: cs =>
    if c = sep then [] :: pieces sep cs
    else match pieces sep cs with
      | [] => [[c]]
      | p :: ps => (c :: p) :: ps

def lastPiece (sep : Char) (cs : List Char) : List Char :=
  (pieces sep cs).getLastD []

end Eligibility.Text
