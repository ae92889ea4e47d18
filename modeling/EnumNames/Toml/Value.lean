import EnumNames.Toml.Number

/-! The values of TOML. -/
namespace EnumNames.Toml

inductive Value
  | string (text : String)
  | integer (value : Whole)
  | floating (value : Floating)
  | boolean (value : Bool)
  /-- A date, a time or both, as written. -/
  | moment (text : String)
  | array (elements : List Value)
  /-- A table in braces: values under the keys that lead to them. -/
  | table (entries : List (List String × Value))
deriving Repr

end EnumNames.Toml
