import DocTables.Codec.RichText
import DocTables.Codec.DateSpan
import DocTables.Codec.Reference

/-!
Both directions of a codec, and what it declares. `toWire` checks a value and builds the property
payload that stores it; `ofWire` reads a property of a record, whatever is missing in it.
-/
namespace DocTables.Codec

/-- The field of a property under the key of its type. -/
def property (t : PropertyType) (j : Json) : Json := .ofFields [(t.key, j)]

def readText (v : Value) : Except CodecFailure String :=
  match v.string? with
  | some s => .ok (Text.trim s)
  | none => .error (.mismatch .text v.kind)

def contactMatches (kind : ContactKind) (s : String) : Bool :=
  match kind with
  | .url => Text.isUrl s.toList
  | .email => Text.isEmail s.toList
  | .phoneNumber => Text.isPhone s.toList

def readContact (kind : ContactKind) (v : Value) : Except CodecFailure String := do
  let s ← readText v
  if s = "" then .error (.rejected (.emptyContact kind))
  else if contactMatches kind s then .ok s
  else .error (.rejected (.badContact s kind))

def readNumber : Value → Except CodecFailure Json
  | .int n => .ok (.int n.toInt)
  | .float x => x.finite?.elim (.error (.rejected .notFinite)) fun x => .ok (.real x)
  | v => .error (.mismatch .number v.kind)

/-- The content of the payload, without the key of the type around it. -/
def content (c : Codec) (v : Value) : Except CodecFailure Json :=
  match c with
  | title => do
    let s ← readText v
    if s = "" then .error (.rejected .emptyTitle) else .ok (RichText.ofText s)
  | richText => (readText v).map RichText.ofText
  | number _ => readNumber v
  | checkbox => (v.bool?.map Json.bool).elim (.error (.mismatch .bool v.kind)) .ok
  | date => (DateSpan.ofValue v).map DateSpan.toJson
  | contact kind => (readContact kind v).map Json.string
  | choice _ options => (Choice.read options v).map Choice.toJson
  | multiSelect options =>
    match v.array? with
    | none => .error (.mismatch .optionNames v.kind)
    | some items => do
      let names ← items.mapM (Choice.read options)
      return .array ((Choice.dedup names).map Choice.toJson)
  | people => (v.oneOrMany.mapM Person.read).map fun ids => .array (ids.map Person.toJson)
  | files => (v.oneOrMany.mapM FileLink.read).map fun fs => .array (fs.map FileLink.toJson)
  | relation => (v.oneOrMany.mapM RecordLink.read).map fun ids => .array (ids.map RecordLink.toJson)
  | createdTime | lastEditedTime | createdBy | lastEditedBy | uniqueId _ =>
    .error (.readOnly c.type)

/-- The payload that stores a value. -/
def toWire (c : Codec) (v : Value) : Except CodecFailure Json := (c.content v).map (property c.type)

/-- The items under the key of a type, or none. -/
def wireItems (t : PropertyType) (w : Json) : List Json := ((w.get? t.key).map Json.items).getD []

/-- The identifier with its label in front, when it has one. -/
def readUniqueId (j : Json) : Value :=
  match (j.get? "number").bind fun n => match n with | .int n => int64? n | _ => none with
  | none => .null
  | some n =>
    match j.field? "prefix" with
    | some label => if label = "" then .int n else .string (label ++ "-" ++ toString n.toInt)
    | none => .int n

/-- The value of a property. Only a title without its array is refused. -/
def ofWire (c : Codec) (w : Json) : Except CodecFailure Value :=
  let payload := w.payload? c.type.key
  match c with
  | title =>
    match (w.get? c.type.key).bind Json.array? with
    | some segments => .ok (.string (RichText.joined segments))
    | none => .error .noTitleArray
  | richText => .ok (.string (RichText.joined (wireItems c.type w)))
  | number _ => .ok (payload.elim .null Value.ofJson)
  | checkbox => .ok (.bool ((payload.bind Json.bool?).getD false))
  | date => .ok ((payload.bind DateSpan.ofJson?).elim .null DateSpan.toValue)
  | contact _ | createdTime | lastEditedTime => .ok (.ofString? (payload.bind Json.string?))
  | choice _ _ => .ok (.ofString? (payload.bind (·.field? "name")))
  | multiSelect _ => .ok (.strings ((wireItems c.type w).filterMap (·.field? "name")))
  | people => .ok (.strings ((wireItems c.type w).filterMap (·.field? "id")))
  | files => .ok (.array (((wireItems c.type w).filterMap FileLink.ofJson?).map FileLink.toValue))
  | relation =>
    .ok (.array (((wireItems c.type w).filterMap (·.field? "id")).map RecordLink.toValue))
  | createdBy | lastEditedBy => .ok (.ofString? (payload.bind (·.field? "id")))
  | uniqueId _ => .ok (payload.elim .null readUniqueId)

/-- The payload that clears a property. -/
def empty (c : Codec) : Json :=
  property c.type <|
    match c with
    | title | richText | multiSelect _ | people | files | relation => .array []
    | checkbox => .bool false
    | _ => .null

def declaredOptions : Option (List String) → Json
  | some names => .ofFields [("options", .array (names.map Choice.toJson))]
  | none => .ofFields []

/-- What the schema says about a property of this type. -/
def declaration : Codec → Json
  | number (some format) => .ofFields [("format", .string format)]
  | choice _ options | multiSelect options => declaredOptions options
  | uniqueId label => .ofFields [("prefix", .ofString? label)]
  | _ => .ofFields []

/-- The configuration that declares a property with this codec. -/
def config (c : Codec) : Json := property c.type c.declaration

end DocTables.Codec
