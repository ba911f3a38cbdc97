import Distant.Lib.Rust

/-!
# JSON values

The values of `serde_json`, whose objects are maps that are sorted by key. Its parser and its
printer are parameters.
-/

namespace Distant

/-- `serde_json::Value`; numbers are of any type. -/
inductive Value (ν : Type) where
  | null
  | bool (b : Bool)
  | number (n : ν)
  | string (s : String)
  | array (items : List (Value ν))
  | object (entries : List (String × Value ν))

/-- `serde_json::Map`, its entries in the order of their keys. -/
abbrev JsonMap (ν : Type) := List (String × Value ν)

namespace JsonMap

variable {ν : Type}

def insert (key : String) (value : Value ν) : JsonMap ν → JsonMap ν
  | [] => [(key, value)]
  | (k, v) :: rest =>
    if key < k then (key, value) :: (k, v) :: rest
    else if key = k then (k, value) :: rest
    else (k, v) :: insert key value rest

/-- Takes an entry out. -/
def removeEntry (key : String) : JsonMap ν → Option ((String × Value ν) × JsonMap ν)
  | [] => none
  | (k, v) :: rest =>
    if k = key then some ((k, v), rest)
    else (removeEntry key rest).map fun (entry, rest) => (entry, (k, v) :: rest)

end JsonMap

/-- The functions of `serde_json` that texts are parsed and printed with. -/
structure SerdeJson (ν : Type) where
  /-- `from_str` for a map -/
  fromStr : String → Except String (JsonMap ν)
  /-- `to_string_pretty` for a map -/
  toStringPretty : JsonMap ν → String

end Distant
