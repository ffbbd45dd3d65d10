import Mathlib.Data.List.DropRight
import Mathlib.Data.List.TakeWhile
import DocTables.Text.Blank
import DocTables.Text.Digit
import DocTables.Codec.RichText

/-! Laws of trimming, of written numbers, and of texts cut into segments. -/
namespace DocTables

namespace Text

theorem trimChars_eq (cs : List Char) :
    trimChars cs = (cs.dropWhile isBlank).rdropWhile isBlank := rfl

theorem trimChars_trimChars (cs : List Char) : trimChars (trimChars cs) = trimChars cs := by
  have hfront : (trimChars cs).dropWhile isBlank = trimChars cs := by
    rw [List.dropWhile_eq_self_iff]
    intro hl hb
    -- The first character left is the one at which the blanks in front ended.
    have hpre : trimChars cs <+: cs.dropWhile isBlank := List.rdropWhile_prefix _ _
    have hidem := List.dropWhile_idempotent isBlank cs
    rw [List.dropWhile_eq_self_iff] at hidem
    refine hidem (hl.trans_le hpre.length_le) ?_
    rwa [← hpre.getElem hl]
  rw [trimChars_eq (trimChars cs), hfront, trimChars_eq, List.rdropWhile_idempotent]

@[simp] theorem trim_trim (s : String) : trim (trim s) = trim s := by
  simp [trim, trimChars_trimChars]

theorem isAsciiDigit_of_isDigit {c : Char} (h : c.isDigit = true) : isAsciiDigit c = true := by
  simpa [isAsciiDigit, Char.isDigit, Char.le_def, UInt32.le_iff_toNat_le] using h

/-- A written number is read back. -/
theorem decimal?_toDigits (n : Nat) : decimal? (Nat.toDigits 10 n) = some n := by
  have hdigits : (Nat.toDigits 10 n).all isAsciiDigit = true := by
    rw [List.all_eq_true]
    intro c hc
    exact isAsciiDigit_of_isDigit (Nat.isDigit_of_mem_toDigits (by decide) (by decide) hc)
  have hvalue : decimalValue (Nat.toDigits 10 n) = n := by
    simpa [decimalValue, Nat.ofDigitChars] using Nat.ofDigitChars_ten_toDigits (n := n)
  simp [decimal?, hdigits, hvalue, Nat.toDigits_ne_nil]

/-- Numbers behind a common front make different texts. -/
theorem numbered_injective (front : String) :
    Function.Injective fun n : Nat => front ++ toString n := by
  intro a b h
  have hlists := congrArg String.toList h
  simp only [String.toList_append, Nat.toString_eq_repr, Nat.toList_repr] at hlists
  have hdigits := List.append_cancel_left hlists
  have ha := decimal?_toDigits a
  rw [hdigits, decimal?_toDigits b] at ha
  exact (Option.some.inj ha).symm

end Text

namespace RichText

/-- The fuel lasts for what is left behind the first piece. -/
theorem length_drop_le {α : Type u} {n fuel : Nat} (hn : 0 < n) {x : α} {xs : List α}
    (h : (x :: xs).length ≤ fuel + 1) : ((x :: xs).drop n).length ≤ fuel := by
  rw [List.length_drop]
  omega

theorem flatten_chunks {α : Type u} {n : Nat} (hn : 0 < n) (fuel : Nat) (xs : List α)
    (h : xs.length ≤ fuel) : (chunks n fuel xs).flatten = xs := by
  induction fuel generalizing xs with
  | zero => simp [chunks, List.eq_nil_of_length_eq_zero (Nat.le_zero.mp h)]
  | succ fuel ih =>
    cases xs with
    | nil => rfl
    | cons x xs =>
      simp only [chunks, List.flatten_cons, ih _ (length_drop_le hn h), List.take_append_drop]

/-- The texts that a text is cut into. -/
def pieces (s : String) : List String :=
  (chunks segmentLimit s.toList.length s.toList).map String.ofList

theorem join_pieces (s : String) : String.join (pieces s) = s := by
  have hflat := flatten_chunks (n := segmentLimit) (by decide) _ s.toList le_rfl
  rw [pieces, ← String.toList_inj, String.toList_join, List.flatMap_map]
  simp only [String.toList_ofList]
  rw [List.flatMap_id', hflat]

/-- The segments of a text. -/
def segments (s : String) : List Json :=
  (chunks segmentLimit s.toList.length s.toList).map fun piece => segment (String.ofList piece)

theorem segments_eq (s : String) : segments s = (pieces s).map segment := by
  rw [segments, pieces, List.map_map]
  rfl

theorem ofText_eq (s : String) : ofText s = .array (segments s) := rfl

/-- A text survives being cut, under any reader that shows the content of a segment. -/
theorem join_segments {read : Json → Option String}
    (hread : ∀ s, read (segment s) = some s) (s : String) :
    String.join ((segments s).filterMap read) = s := by
  have hpieces : (segments s).filterMap read = pieces s := by
    simp [segments_eq, List.filterMap_map, hread]
  rw [hpieces, join_pieces]

end RichText
end DocTables
