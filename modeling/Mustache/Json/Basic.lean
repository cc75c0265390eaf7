import Mustache.Number.Basic

namespace Mustache

-- A JSON value. The entries of an object stand in the order in which they were written or built.
inductive Json where
  | null
  | bool (value : Bool)
  | number (value : Number)
  | string (value : String)
  | array (items : List Json)
  | object (entries : List (String × Json))
deriving Inhabited

end Mustache
