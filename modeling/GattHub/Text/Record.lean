import GattHub.Octets
import GattHub.Text.Quoted

/-! Written forms of records, lists and optional values, as they stand in the journal. -/

namespace GattHub.Text

/-- Items between square brackets. -/
def list (items : List String) : String := "[" ++ ", ".intercalate items ++ "]"

def option : Option String → String
  | none => "None"
  | some s => "Some(" ++ s ++ ")"

def record (name : String) (fields : List (String × String)) : String :=
  name ++ " \x7b " ++ ", ".intercalate (fields.map fun f => f.1 ++ ": " ++ f.2) ++ " \x7d"

def wrapped (name value : String) : String := name ++ "(" ++ value ++ ")"

def octets (bytes : Octets) : String := list (bytes.map fun b => toString b.toNat)

def bool (b : Bool) : String := if b then "true" else "false"

end GattHub.Text
