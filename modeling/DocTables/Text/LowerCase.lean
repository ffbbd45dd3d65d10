import DocTables.Text.CaseTable

/-!
Lower case of a text, character by character except for the Greek sigma, whose form depends on
whether a word ends there.
-/
namespace DocTables.Text

def inRanges (ranges : List (Nat × Nat)) (c : Char) : Bool :=
  ranges.any fun r => r.1 ≤ c.toNat && c.toNat ≤ r.2

def isCaseIgnorable (c : Char) : Bool := inRanges caseIgnorableRanges c

def isCased (c : Char) : Bool := inRanges casedRanges c

/-- The lower case of a character by itself; only the dotted capital I has two characters. -/
def lowerChar (c : Char) : List Char :=
  if c.toNat < 0x80 then [c.toLower]
  else if c.toNat = 0x130 then ['i', '\u0307']
  else
    match lowerRuns.find? fun r =>
      r.1 ≤ c.toNat && c.toNat ≤ r.2.1 && (c.toNat - r.1) % r.2.2.1 = 0 with
    | some r => [Char.ofNat (c.toNat - r.1 + r.2.2.2)]
    | none => [c]

/-- The first character that is not case-ignorable is a letter with case. -/
def startsCased (cs : List Char) : Bool :=
  match cs.dropWhile isCaseIgnorable with
  | c :: _ => isCased c
  | [] => false

/-- Lower case of the text `cs` that stands behind the characters `before`, nearest first. A sigma
is final behind a letter with case and before none. -/
def lowerAfter (before : List Char) : List Char → List Char
  | [] => []
  | c :: cs =>
    (if c = 'Σ' then [if startsCased before && !startsCased cs then 'ς' else 'σ']
      else lowerChar c) ++ lowerAfter (c :: before) cs

def lowerChars (cs : List Char) : List Char := lowerAfter [] cs

/-- The needle is a run of consecutive characters of the text. -/
def occursIn (needle : List Char) : List Char → Bool
  | [] => needle.isEmpty
  | c :: cs => needle.isPrefixOf (c :: cs) || occursIn needle cs

/-- Containment regardless of case. -/
def containsFolded (text needle : String) : Bool :=
  occursIn (lowerChars needle.toList) (lowerChars text.toList)

end DocTables.Text
