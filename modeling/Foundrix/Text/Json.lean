import Mathlib.Data.List.Basic

/-!
# JSON values

`serde_json::Value` and the accessors that the programs use. Decoding a text is left to
the programs' own parameters.
-/

namespace Foundrix.Text

inductive Json where
  | null
  | bool (b : Bool)
  /-- A number as it is written. -/
  | number (digits : String)
  | string (s : String)
  | array (items : List Json)
  | object (entries : List (String × Json))

namespace Json

/-- `Value::get` with a key, which only an object has. -/
def get : Json → String → Option Json
  | object entries, key => entries.lookup key
  | _, _ => none

def asStr : Json → Option String
  | string s => some s
  | _ => none

def asBool : Json → Option Bool
  | bool b => some b
  | _ => none

def asArray : Json → Option (List Json)
  | array items => some items
  | _ => none

end Json

end Foundrix.Text
