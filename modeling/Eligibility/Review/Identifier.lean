namespace Eligibility

def isIdentifierStart (c : Char) : Bool := c.isAlpha || c == '_' || c == '$'

def isIdentifierRest (c : Char) : Bool := c.isAlphanum || c == '_' || c == '$'

/-- A letter, underscore or dollar sign, then any number of these and digits; ASCII only. -/
def isIdentifier (s : String) : Bool :=
  match s.toList with
  | [] => false
  | c :: cs => isIdentifierStart c && cs.all isIdentifierRest

end Eligibility
