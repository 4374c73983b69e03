import SlimeServer.Number.Double
/-!
# TOML values

The values that a configuration file holds.
-/
namespace SlimeServer

inductive Toml where
  | string (text : String)
  | integer (n : Int)
  | float (x : Double)
  | boolean (flag : Bool)
  /-- A date, a time of day or both, in its normal form. -/
  | moment (text : String)
  | array (items : List Toml)
  | table (entries : List (String × Toml))
  deriving Repr, Inhabited

namespace Toml

def get? (key : String) : Toml → Option Toml
  | table entries => entries.lookup key
  | _ => none

end Toml
end SlimeServer
