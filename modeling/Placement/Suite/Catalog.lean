/-!
# The catalog

The benchmark instances that are known by name, each with its size and its published optimum.
-/

namespace Placement

/-- A benchmark instance as the catalog lists it. -/
structure CatalogEntry where
  name : String
  /-- The number of slots. -/
  size : Nat
  /-- The least objective that is known to be possible. -/
  optimum : Option Float

namespace Catalog

/-- Every instance, in the order in which all of them are run. -/
def entries : List CatalogEntry :=
  [⟨"nug5", 5, some 50⟩, ⟨"nug12", 12, some 578⟩, ⟨"nug14", 14, some 1014⟩,
   ⟨"nug15", 15, some 1150⟩, ⟨"nug20", 20, some 2570⟩, ⟨"nug30", 30, some 6124⟩,
   ⟨"chr12a", 12, some 9552⟩, ⟨"had12", 12, some 1652⟩, ⟨"tai12a", 12, some 224416⟩,
   ⟨"esc16a", 16, some 68⟩]

def names : List String := entries.map CatalogEntry.name

def find? (name : String) : Option CatalogEntry := entries.find? fun entry => entry.name == name

/-- An instance that is found has the name it was asked for by. -/
theorem name_of_find? {name : String} {entry : CatalogEntry} (h : find? name = some entry) :
    entry.name = name := by
  simpa using List.find?_some h

end Catalog

end Placement
