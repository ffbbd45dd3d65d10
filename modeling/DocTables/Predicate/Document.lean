import DocTables.Json.Decode
import DocTables.Predicate.Filter

/-! The documents of types, operators, columns and sorts. -/
namespace DocTables

namespace PropertyType

def ofJson? (j : Json) : Option PropertyType := j.variant?.bind ofKey?

end PropertyType

namespace Comparison

def ofJson? (j : Json) : Option Comparison := j.variant?.bind ofName?

end Comparison

namespace Connective

def ofJson? (j : Json) : Option Connective := j.variant?.bind ofName?

end Connective

namespace SortKey

def ofJson? (j : Json) : Option SortKey := do
  let fields ← j.structure? ["property", "direction"]
  return ⟨← Json.required fields "property" Json.string?,
    ← Json.required fields "direction" fun j => j.variant?.bind Direction.ofName?⟩

end SortKey

namespace PropertyRef

def toJson (c : PropertyRef) : Json :=
  .ofFields [("name", .string c.name), ("property_type", .string c.type.key)]

def ofJson? (j : Json) : Option PropertyRef := do
  let fields ← j.structure? ["name", "property_type"]
  return ⟨← Json.required fields "name" Json.string?,
    ← Json.required fields "property_type" PropertyType.ofJson?⟩

end PropertyRef
end DocTables
