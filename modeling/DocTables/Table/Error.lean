import DocTables.Codec

/-! Why an operation on tables fails, and what each failure says. -/
namespace DocTables

/-- What a table was doing when its store failed. -/
inductive StoreUse where
  | addCollection (title : String)
  | bind (title collection : String)
  | introspect (collection : String)
  | read (record title : String)
  | add (title : String)
  | list (title : String)
  | find (title : String)
  | update (record title : String)
  | archive (flag : Bool) (record title : String)
  | link (title : String)
  deriving DecidableEq, Repr

/-- Why a type cannot be compared with an operand. -/
inductive OperandError where
  | notNumber (found : ValueKind)
  | notBool (found : ValueKind)
  | notText (found : ValueKind)
  | notDate | notOption | notUser | notUniqueId | notFilterable
  deriving DecidableEq, Repr

inductive TableError where
  | schemaDiffers (column property : String) (expected : PropertyType) (found : Option String)
  | noColumn (key : String)
  | valueMissing (key : String)
  | nullRefused (key : String)
  | maintained (key : String)
  | badValue (key : String) (cause : CodecFailure)
  | nothingToUpdate
  | operatorRefused (operator property : String) (type : PropertyType)
  | operandRefused (property : String) (why : OperandError)
  | noParts (operator : String)
  | noTargets
  | storesDiffer (source target : String)
  | notRelation (key : String)
  | noTarget (key : String)
  | storeFailed (doing : StoreUse) (cause : String)
  deriving DecidableEq, Repr

namespace StoreUse

def message : StoreUse → String
  | addCollection title => "failed to create collection " ++ ticked title
  | bind title collection =>
    "failed to retrieve schema of " ++ ticked title ++ " (" ++ collection ++ ")"
  | introspect collection => "failed to retrieve schema of " ++ ticked collection
  | read record title => "failed to retrieve record " ++ ticked record ++ " of " ++ ticked title
  | add title => "failed to create record in " ++ ticked title
  | list title => "failed to query " ++ ticked title
  | find title => "failed to resolve targets in " ++ ticked title
  | update record title => "failed to update record " ++ ticked record ++ " in " ++ ticked title
  | archive flag record title =>
    "failed to set archived=" ++ toString flag ++ " on " ++ ticked record ++ " in " ++ ticked title
  | link title => "failed to link relations of " ++ ticked title

end StoreUse

namespace OperandError

def message : OperandError → String
  | notNumber found => "expected a finite number, got " ++ found.name
  | notBool found => "expected a boolean, got " ++ found.name
  | notText found => "expected a string, got " ++ found.name
  | notDate => "expected a date string or \x7bstart\x7d"
  | notOption => "expected an option name or \x7bname\x7d"
  | notUser => "expected a user id or \x7bid\x7d"
  | notUniqueId => "expected a number or \"PREFIX-<digits>\""
  | notFilterable => "property type is not filterable"

end OperandError

namespace TableError

def message : TableError → String
  | schemaDiffers column property expected found =>
    "column " ++ ticked column ++ " does not match remote property " ++ ticked property ++
      ": expected " ++ expected.key ++ ", found " ++ found.getD "no such property"
  | noColumn key => "unknown column " ++ ticked key
  | valueMissing key => "missing required column " ++ ticked key
  | nullRefused key => "column " ++ ticked key ++ " is not nullable"
  | maintained key => "column " ++ ticked key ++ " is read-only"
  | badValue key cause => "invalid value for column " ++ ticked key ++ ": " ++ cause.message
  | nothingToUpdate => "update must change at least one column"
  | operatorRefused operator property type =>
    "operator " ++ ticked operator ++ " is not supported for " ++ type.key ++ " property " ++
      ticked property
  | operandRefused property why =>
    "invalid filter value for property " ++ ticked property ++ ": " ++ why.message
  | noParts operator => ticked operator ++ " requires at least one predicate"
  | noTargets => "no rows matched the update target"
  | storesDiffer source target =>
    "cannot link " ++ ticked source ++ " to " ++ ticked target ++
      ": tables use different store clients"
  | notRelation key => "column " ++ ticked key ++ " is not a relation"
  | noTarget key =>
    "relation column " ++ ticked key ++ " has no registered target table"
  | storeFailed doing _ => doing.message

/-- The failure came from the store and not from a local check. -/
def fromStore : TableError → Bool
  | storeFailed _ _ => true
  | _ => false

end TableError
end DocTables
