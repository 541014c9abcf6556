/-!
Values described on one line: a name with its fields in braces, a name with an argument in
parentheses, a list in brackets.
-/
namespace AlpnOverlay.Text

def field (name value : String) : String := name ++ ": " ++ value

private def braces (body : String) : String := " \x7b " ++ body ++ " \x7d"

/-- A record with all its fields. -/
def record (name : String) (fields : List String) : String :=
  name ++ braces (String.intercalate ", " fields)

/-- A record that has more fields than it shows. -/
def openRecord (name : String) (fields : List String) : String :=
  record name (fields ++ [".."])

def applied (name argument : String) : String := name ++ "(" ++ argument ++ ")"

def listed (items : List String) : String := "[" ++ String.intercalate ", " items ++ "]"

def optional : Option String → String
  | none => "None"
  | some value => applied "Some" value

def truth (b : Bool) : String := if b then "true" else "false"

end AlpnOverlay.Text
