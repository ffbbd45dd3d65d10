import DocTables.Json

/-! The types of properties a store knows, by the names it uses for them. -/
namespace DocTables

inductive PropertyType where
  | title | richText | number | checkbox | date | url | email | phoneNumber | select | status
  | multiSelect | people | files | relation | createdTime | lastEditedTime | createdBy
  | lastEditedBy | uniqueId
  deriving DecidableEq, Repr

namespace PropertyType

def all : List PropertyType :=
  [title, richText, number, checkbox, date, url, email, phoneNumber, select, status, multiSelect,
    people, files, relation, createdTime, lastEditedTime, createdBy, lastEditedBy, uniqueId]

/-- The field under which payloads, configurations and conditions of this type stand. -/
def key : PropertyType → String
  | title => "title"
  | richText => "rich_text"
  | number => "number"
  | checkbox => "checkbox"
  | date => "date"
  | url => "url"
  | email => "email"
  | phoneNumber => "phone_number"
  | select => "select"
  | status => "status"
  | multiSelect => "multi_select"
  | people => "people"
  | files => "files"
  | relation => "relation"
  | createdTime => "created_time"
  | lastEditedTime => "last_edited_time"
  | createdBy => "created_by"
  | lastEditedBy => "last_edited_by"
  | uniqueId => "unique_id"

def ofKey? (k : String) : Option PropertyType := all.find? fun t => t.key = k

theorem ofKey?_key (t : PropertyType) : ofKey? t.key = some t := by cases t <;> decide

/-- Maintained by the store itself. -/
def isMaintained : PropertyType → Bool
  | createdTime | lastEditedTime | createdBy | lastEditedBy | uniqueId => true
  | _ => false

/-- Ordered by the words for dates (`after`, `before`). -/
def isDateLike : PropertyType → Bool
  | date | createdTime | lastEditedTime => true
  | _ => false

/-- Ordered by the words for numbers (`greater_than`, `less_than`). -/
def isNumeric : PropertyType → Bool
  | number | uniqueId => true
  | _ => false

/-- Names users. -/
def isAttribution : PropertyType → Bool
  | people | createdBy | lastEditedBy => true
  | _ => false

/-- Can be tested for being empty. -/
def hasNullCheck : PropertyType → Bool
  | checkbox | uniqueId => false
  | _ => true

end PropertyType

/-- The type that a property or its configuration declares: its `type`, or else the first of its
fields that is the key of a type. -/
def Json.declaredType? : Json → Option String
  | .object fields =>
    match (fields.get? "type").bind Json.string? with
    | some t => some t
    | none => fields.keys.find? fun k => (PropertyType.ofKey? k).isSome
  | _ => none

end DocTables
