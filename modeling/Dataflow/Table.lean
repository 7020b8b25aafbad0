/-!
Tables: lists of keys with one entry each. An entry keeps its place when it is set again; a new
one goes to the end.
-/

namespace Dataflow

/-- Entries by key. -/
abbrev Table (κ α : Type) := List (κ × α)

namespace Table

variable {κ α : Type} [DecidableEq κ]

/-- The entry of a key. -/
def get? (key : κ) : Table κ α → Option α
  | [] => none
  | (other, entry) :: rest => if other = key then some entry else get? key rest

/-- Whether there is an entry. -/
def has (key : κ) (table : Table κ α) : Bool := (table.get? key).isSome

/-- Sets the entry of a key. -/
def set (key : κ) (entry : α) : Table κ α → Table κ α
  | [] => [(key, entry)]
  | (other, old) :: rest =>
    if other = key then (key, entry) :: rest else (other, old) :: set key entry rest

/-- Changes the entry of a key, if there is one. -/
def modify (key : κ) (change : α → α) : Table κ α → Table κ α
  | [] => []
  | (other, entry) :: rest =>
    if other = key then (other, change entry) :: rest
    else (other, entry) :: modify key change rest

/-- Drops the entry of a key. -/
def erase (key : κ) : Table κ α → Table κ α
  | [] => []
  | (other, entry) :: rest => if other = key then rest else (other, entry) :: erase key rest

end Table

end Dataflow
