import DocTables.Json

/-!
Rich text: an array of segments, each of at most 2000 characters when written here. Reading joins
the segments again, whatever their formatting.
-/
namespace DocTables.RichText

/-- The longest segment that a store accepts, in characters. -/
def segmentLimit : Nat := 2000

/-- Cuts a list into pieces of length `n`, the last one perhaps shorter; `fuel` bounds their
number. -/
def chunks {α : Type u} (n : Nat) : Nat → List α → List (List α)
  | 0, _ => []
  | _ + 1, [] => []
  | fuel + 1, x :: xs => (x :: xs).take n :: chunks n fuel ((x :: xs).drop n)

def segment (content : String) : Json :=
  .ofFields [("type", .string "text"), ("text", .ofFields [("content", .string content)])]

/-- The segments of a text; an empty text has none. -/
def ofText (s : String) : Json :=
  let cs := s.toList
  .array ((chunks segmentLimit cs.length cs).map fun piece => segment (String.ofList piece))

/-- The text of one segment: its plain text, or else its content. -/
def segmentText? (j : Json) : Option String :=
  j.field? "plain_text" <|> (j.get? "text").bind (·.field? "content")

/-- The joined text of segments; those without text are passed over. -/
def joined (segments : List Json) : String := String.join (segments.filterMap segmentText?)

end DocTables.RichText
