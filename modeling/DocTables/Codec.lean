import DocTables.PropertyType
import DocTables.Value

/-!
Codecs: how the values of a column stand in a property of a record. A codec is chosen by the type
of the column and carries what the schema declares about it.
-/
namespace DocTables

inductive ContactKind where
  | url | email | phoneNumber
  deriving DecidableEq, Repr

inductive ChoiceKind where
  | select | status
  deriving DecidableEq, Repr

inductive Codec where
  | title
  | richText
  | number (format : Option String)
  | checkbox
  | date
  | contact (kind : ContactKind)
  | choice (kind : ChoiceKind) (options : Option (List String))
  | multiSelect (options : Option (List String))
  | people
  | files
  | relation
  | createdTime
  | lastEditedTime
  | createdBy
  | lastEditedBy
  | uniqueId (label : Option String)
  deriving DecidableEq, Repr

namespace ContactKind

def type : ContactKind → PropertyType
  | url => .url
  | email => .email
  | phoneNumber => .phoneNumber

end ContactKind

namespace ChoiceKind

def type : ChoiceKind → PropertyType
  | select => .select
  | status => .status

end ChoiceKind

namespace Codec

def type : Codec → PropertyType
  | title => .title
  | richText => .richText
  | number _ => .number
  | checkbox => .checkbox
  | date => .date
  | contact kind => kind.type
  | choice kind _ => kind.type
  | multiSelect _ => .multiSelect
  | people => .people
  | files => .files
  | relation => .relation
  | createdTime => .createdTime
  | lastEditedTime => .lastEditedTime
  | createdBy => .createdBy
  | lastEditedBy => .lastEditedBy
  | uniqueId _ => .uniqueId

/-- The codec of a type without any declaration about it. -/
def ofType : PropertyType → Codec
  | .title => title
  | .richText => richText
  | .number => number none
  | .checkbox => checkbox
  | .date => date
  | .url => contact .url
  | .email => contact .email
  | .phoneNumber => contact .phoneNumber
  | .select => choice .select none
  | .status => choice .status none
  | .multiSelect => multiSelect none
  | .people => people
  | .files => files
  | .relation => relation
  | .createdTime => createdTime
  | .lastEditedTime => lastEditedTime
  | .createdBy => createdBy
  | .lastEditedBy => lastEditedBy
  | .uniqueId => uniqueId none

@[simp] theorem type_ofType (t : PropertyType) : (ofType t).type = t := by cases t <;> rfl

end Codec

/-- What a codec reads from a value. -/
inductive Expected where
  | text | number | bool | date | optionName | optionNames | userId | recordId | fileUrl
  deriving DecidableEq, Repr

inductive DateField where
  | start | finish
  deriving DecidableEq, Repr

/-- Why a value of the right shape is refused. -/
inductive Rejection where
  | emptyTitle
  | emptyContact (kind : ContactKind)
  | badContact (text : String) (kind : ContactKind)
  | notFinite
  | noStart
  | badDate (field : DateField) (text : String)
  | emptyOption
  | undeclaredOption (name : String) (options : List String)
  | emptyReference
  | emptyUrl
  deriving DecidableEq, Repr

inductive CodecFailure where
  | mismatch (expected : Expected) (found : ValueKind)
  | rejected (why : Rejection)
  | readOnly (type : PropertyType)
  | noTitleArray
  deriving DecidableEq, Repr

namespace Expected

def name : Expected → String
  | text => "string"
  | number => "number"
  | bool => "bool"
  | date => "date string or \x7bstart, end\x7d"
  | optionName => "option name or \x7bname\x7d"
  | optionNames => "list of option names"
  | userId => "user id or \x7bid\x7d"
  | recordId => "record id or \x7bid\x7d"
  | fileUrl => "file url or \x7bname, url\x7d"

end Expected

namespace DateField

def name : DateField → String
  | start => "start"
  | finish => "end"

end DateField

/-- A text between back-quotes. -/
def ticked (s : String) : String := "`" ++ s ++ "`"

namespace Rejection

def message : Rejection → String
  | emptyTitle => "title must not be empty"
  | emptyContact kind => kind.type.key ++ " must not be empty"
  | badContact text kind => ticked text ++ " is not a valid " ++ kind.type.key
  | notFinite => "number must be finite"
  | noStart => "date range requires " ++ ticked "start"
  | badDate field text => field.name ++ " " ++ ticked text ++ " is not an ISO 8601 date"
  | emptyOption => "option name must not be empty"
  | undeclaredOption name options =>
    ticked name ++ " is not one of the declared options: " ++ String.intercalate ", " options
  | emptyReference => "reference id must not be empty"
  | emptyUrl => "file url must not be empty"

end Rejection

namespace CodecFailure

def message : CodecFailure → String
  | mismatch expected found => "expected " ++ expected.name ++ ", got " ++ found.name
  | rejected why => why.message
  | readOnly type => type.key ++ " properties are read-only"
  | noTitleArray => "malformed wire value: title property has no rich-text array"

end CodecFailure
end DocTables
