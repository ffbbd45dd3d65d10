import DocTables.Codec
import DocTables.Text.Pattern

/-! Dates with an optional end and time zone. -/
namespace DocTables

structure DateSpan where
  start : String
  finish : Option String
  zone : Option String
  deriving DecidableEq, Repr

namespace DateSpan

def check (field : DateField) (s : String) : Except CodecFailure Unit :=
  if Text.isDate Text.isDigit s.toList then .ok () else .error (.rejected (.badDate field s))

def validate (d : DateSpan) : Except CodecFailure DateSpan := do
  check .start d.start
  d.finish.forM (check .finish)
  return d

/-- Reads a date by itself, or a map with a start. Start and end are trimmed. -/
def ofValue : Value → Except CodecFailure DateSpan
  | .string s => validate ⟨Text.trim s, none, none⟩
  | .map fields =>
    match (fields.get? "start").bind Value.string? with
    | none => .error (.rejected .noStart)
    | some start =>
      validate ⟨Text.trim start, ((fields.get? "end").bind Value.string?).map Text.trim,
        (fields.get? "time_zone").bind Value.string?⟩
  | v => .error (.mismatch .date v.kind)

def toJson (d : DateSpan) : Json :=
  .ofFields [("start", .string d.start), ("end", .ofString? d.finish),
    ("time_zone", .ofString? d.zone)]

def ofJson? (j : Json) : Option DateSpan :=
  (j.field? "start").map fun start => ⟨start, j.field? "end", j.field? "time_zone"⟩

/-- The start alone, unless there is more to say. -/
def toValue (d : DateSpan) : Value :=
  if d.finish.isNone ∧ d.zone.isNone then .string d.start
  else .ofFields [("start", .string d.start), ("end", .ofString? d.finish),
    ("time_zone", .ofString? d.zone)]

end DateSpan
end DocTables
