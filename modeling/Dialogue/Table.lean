/-!
# Tables that keep the order of insertion

A key that is inserted again keeps its place and takes the new value. Keys are compared with
`==`, so a table can also be kept over keys that are equal without being identical.
-/

namespace Dialogue

/-- A finite map with its keys in the order of their first insertion. -/
structure Table (κ ν : Type) where
  entries : List (κ × ν)

namespace Table

variable {κ ν : Type} [BEq κ]

def empty : Table κ ν := ⟨[]⟩

instance : EmptyCollection (Table κ ν) := ⟨empty⟩

instance : Inhabited (Table κ ν) := ⟨empty⟩

/-- The entries with one more key, or with a new value for it. -/
def insertInto (key : κ) (value : ν) : List (κ × ν) → List (κ × ν)
  | [] => [(key, value)]
  | (k, v) :: rest => if k == key then (k, value) :: rest else (k, v) :: insertInto key value rest

def insert (table : Table κ ν) (key : κ) (value : ν) : Table κ ν :=
  ⟨insertInto key value table.entries⟩

def get? (table : Table κ ν) (key : κ) : Option ν :=
  (table.entries.find? fun entry => entry.1 == key).map (·.2)

def contains (table : Table κ ν) (key : κ) : Bool :=
  table.entries.any fun entry => entry.1 == key

def keys (table : Table κ ν) : List κ := table.entries.map (·.1)

def values (table : Table κ ν) : List ν := table.entries.map (·.2)

def size (table : Table κ ν) : Nat := table.entries.length

def isEmpty (table : Table κ ν) : Bool := table.entries.isEmpty

def insertAll (table : Table κ ν) (pairs : List (κ × ν)) : Table κ ν :=
  pairs.foldl (fun t pair => t.insert pair.1 pair.2) table

/-- The pairs as a table; of two pairs with one key the later gives the value. -/
def ofList (pairs : List (κ × ν)) : Table κ ν := insertAll empty pairs

/-- One more value in the list of a key. -/
def push {α : Type} (table : Table κ (List α)) (key : κ) (value : α) : Table κ (List α) :=
  table.insert key ((table.get? key).getD [] ++ [value])

end Table

end Dialogue
