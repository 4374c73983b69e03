import SlimeServer.Text.Case
/-!
# Operation tables

Operations are looked up by a key in which the case of letters does not count and colons and
hyphens are the same as underscores.
-/
namespace SlimeServer

def operationKey (name : String) : String :=
  String.ofList ((Text.lowerAscii name).toList.map fun c => if c = ':' ∨ c = '-' then '_' else c)

structure Table (α : Type) where
  entries : List (String × α)
  deriving Repr

namespace Table

variable {α : Type}

def empty : Table α := ⟨[]⟩

def size (t : Table α) : Nat := t.entries.length

def isEmpty (t : Table α) : Bool := t.entries.isEmpty

def insert (t : Table α) (name : String) (operation : α) : Table α :=
  ⟨(operationKey name, operation) :: t.entries.filter fun entry => entry.1 ≠ operationKey name⟩

def get? (t : Table α) (name : String) : Option α := t.entries.lookup (operationKey name)

def ofList (entries : List (String × α)) : Table α :=
  entries.foldl (fun t (name, operation) => t.insert name operation) empty

end Table
end SlimeServer
