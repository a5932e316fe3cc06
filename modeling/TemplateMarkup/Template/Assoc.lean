/-!
# Ordered maps

A map as the list of its entries in the order of insertion. Setting a key that is there keeps its
place.
-/

namespace TemplateMarkup
namespace Assoc

variable {α : Type}

/-- Sets `key` to `value`. -/
def set (key : String) (value : α) : List (String × α) → List (String × α)
  | [] => [(key, value)]
  | entry :: entries =>
      if entry.1 = key then (key, value) :: entries else entry :: set key value entries

/-- The map without `key`. -/
def erase (key : String) (entries : List (String × α)) : List (String × α) :=
  entries.filter (·.1 ≠ key)

/-- The map that setting the entries one after the other gives. -/
def ofEntries (entries : List (String × α)) : List (String × α) :=
  entries.foldl (fun map entry => set entry.1 entry.2 map) []

end Assoc
end TemplateMarkup
