import DocTables.Codec
import DocTables.Text.Blank

/-! References inside properties: options by name, users and records by id, files by address. -/
namespace DocTables

/-- An array, or a single item in place of an array of one. -/
def Value.oneOrMany : Value → List Value
  | .array items => items
  | v => [v]

/-- A text given by itself or under `field`, trimmed and not empty. -/
def readName (field : String) (expected : Expected) (ifEmpty : Rejection) (v : Value) :
    Except CodecFailure String :=
  match v.named? field with
  | none => .error (.mismatch expected v.kind)
  | some s => if Text.trim s = "" then .error (.rejected ifEmpty) else .ok (Text.trim s)

namespace Choice

/-- Without declared options every name is allowed. -/
def check (options : Option (List String)) (name : String) : Except CodecFailure String :=
  match options with
  | some allowed =>
    if name ∈ allowed then .ok name else .error (.rejected (.undeclaredOption name allowed))
  | none => .ok name

def read (options : Option (List String)) (v : Value) : Except CodecFailure String := do
  check options (← readName "name" .optionName .emptyOption v)

def toJson (name : String) : Json := .ofFields [("name", .string name)]

/-- The list without repetitions of earlier members. -/
def dedup : List String → List String
  | [] => []
  | s :: ss => s :: (dedup ss).filter (· ≠ s)

end Choice

namespace Person

def read (v : Value) : Except CodecFailure String := readName "id" .userId .emptyReference v

def toJson (id : String) : Json := .ofFields [("object", .string "user"), ("id", .string id)]

end Person

namespace RecordLink

def read (v : Value) : Except CodecFailure String := readName "id" .recordId .emptyReference v

def toJson (id : String) : Json := .ofFields [("id", .string id)]

def toValue (id : String) : Value := .ofFields [("id", .string id)]

end RecordLink

/-- A file by its address. -/
structure FileLink where
  name : String
  url : String
  deriving DecidableEq, Repr

namespace FileLink

/-- The characters behind the last slash, slashes at the end not counted. -/
def lastSegment (cs : List Char) : List Char :=
  ((cs.reverse.dropWhile (· == '/')).takeWhile (· != '/')).reverse

/-- The last segment of an address, or the whole of an address without any. -/
def nameOfUrl (url : String) : String :=
  let segment := lastSegment url.toList
  if segment.isEmpty then url else String.ofList segment

def ofUrl (name : Option String) (url : String) : FileLink := ⟨name.getD (nameOfUrl url), url⟩

def read (v : Value) : Except CodecFailure FileLink := do
  return ofUrl (v.field? "name") (← readName "url" .fileUrl .emptyUrl v)

def toJson (f : FileLink) : Json :=
  .ofFields [("name", .string f.name), ("type", .string "external"),
    ("external", .ofFields [("url", .string f.url)])]

/-- Reads an entry that points outside the store, or else one kept by the store. -/
def ofJson? (j : Json) : Option FileLink :=
  ((j.get? "external" <|> j.get? "file").bind (·.field? "url")).map (ofUrl (j.field? "name"))

def toValue (f : FileLink) : Value :=
  .ofFields [("name", .string f.name), ("url", .string f.url)]

end FileLink
end DocTables
