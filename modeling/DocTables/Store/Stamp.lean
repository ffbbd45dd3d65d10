import DocTables.PropertyType

/-!
Stamps: what a store writes into a record itself. A new record gets its times, users and number; a
change renews the times of its last edit.
-/
namespace DocTables.Stamp

def twoDigits (n : Nat) : String := if n < 10 then "0" ++ toString n else toString n

/-- The time of write `n`: that many seconds into the first day of 2024. -/
def time (n : Nat) : String :=
  "2024-01-01T" ++ twoDigits (n / 3600 % 24) ++ ":" ++ twoDigits (n % 3600 / 60) ++ ":" ++
    twoDigits (n % 60) ++ ".000Z"

/-- A property with the type it declares. -/
def tagged (property : Json) : Json :=
  match property, property.declaredType? with
  | .object fields, some t =>
    if fields.contains "type" then property else .object (fields.insert "type" (.string t))
  | _, _ => property

/-- The content of a property of type `t` in record `number` of its data source. -/
def content? (t : PropertyType) (config : Json) (now : String) (number : Nat) : Option Json :=
  match t with
  | .createdTime | .lastEditedTime => some (.string now)
  | .createdBy | .lastEditedBy =>
    some (.ofFields [("object", .string "user"), ("id", .string (t.key ++ "-user"))])
  | .uniqueId =>
    some (.ofFields [("prefix", .ofOption ((config.get? t.key).bind (·.get? "prefix"))),
      ("number", .int number)])
  | _ => none

def property (t : PropertyType) (content : Json) : Json :=
  .ofFields [("type", .string t.key), (t.key, content)]

def field? (now : String) (number : Nat) (e : String × Json) : Option (String × Json) := do
  let t ← e.2.declaredType?.bind PropertyType.ofKey?
  let content ← content? t e.2 now number
  return (e.1, property t content)

/-- The stamps of a new record. -/
def ofNew (schema : Properties) (now : String) (number : Nat) : Properties :=
  ⟨schema.entries.filterMap (field? now number)⟩

/-- The stamps of a changed record. -/
def ofEdit (schema : Properties) (now : String) : Properties :=
  ⟨schema.entries.filterMap fun e =>
    if e.2.declaredType? = some PropertyType.lastEditedTime.key then
      some (e.1, property .lastEditedTime (.string now))
    else none⟩

end DocTables.Stamp
