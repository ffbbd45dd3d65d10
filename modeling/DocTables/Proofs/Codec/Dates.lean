import DocTables.Proofs.Codec.ReadBack
import DocTables.Proofs.Text.Forms

/-!
Which texts are dates: those of the extended format of ISO 8601 for a day, or for a day and a time,
but written with digits of any script. In ASCII these are the dates of the format itself.
-/
namespace DocTables
open Outcome

namespace Text

section
variable (digit : Char → Bool)

/-- `YYYY-MM-DD`. -/
def dayForm : Language Char :=
  oneOf digit ^ 4 * char '-' * oneOf digit ^ 2 * char '-' * oneOf digit ^ 2

/-- `HH:MM`. -/
def clockForm : Language Char := oneOf digit ^ 2 * char ':' * oneOf digit ^ 2

/-- `:SS`, perhaps with a dot and one or more digits. -/
def secondsForm : Language Char :=
  char ':' * oneOf digit ^ 2 * perhaps (char '.' * oneOrMore digit)

/-- `Z`, `+HH:MM` or `-HH:MM`. -/
def zoneForm : Language Char := char 'Z' + (char '+' + char '-') * clockForm digit

/-- A day, perhaps with a time, which is perhaps given with seconds and with a zone. -/
def dateForm : Language Char :=
  dayForm digit *
    perhaps (char 'T' * clockForm digit * perhaps (secondsForm digit) * perhaps (zoneForm digit))

end

section
variable {digit : Char → Bool} {cs rest : List Char}

theorem reads_day (digit : Char → Bool) :
    Reads (fun _ => True) (skipDay digit) (dayForm digit) := by
  simp only [dayForm, mul_assoc]
  exact (Reads.skip digit 4).andThen <| (Reads.skipChar '-').andThen <|
    (Reads.skip digit 2).andThen <| (Reads.skipChar '-').andThen <| Reads.skip digit 2

theorem reads_hourMinute (digit : Char → Bool) :
    Reads (fun _ => True) (skipHourMinute digit) (clockForm digit) := by
  simp only [clockForm, mul_assoc]
  exact (Reads.skip digit 2).andThen <| (Reads.skipChar ':').andThen <| Reads.skip digit 2

/-- What may follow a time: none of the characters that could continue it. -/
def EndsTime (digit : Char → Bool) (rest : List Char) : Prop :=
  ∀ c ∈ rest.head?, digit c = false ∧ c ≠ '.' ∧ c ≠ ':'

theorem reads_fraction (digit : Char → Bool) :
    Reads (EndsTime digit) (skipFraction digit) (oneOrMore digit) := by
  have hread : skipFraction digit = fun cs =>
      (skip digit 1 cs).bind fun cs => some (cs.dropWhile digit) := by
    funext cs
    exact Option.map_eq_bind
  have hone := Reads.skip digit 1
  rw [pow_one] at hone
  rw [hread]
  apply hone.andThen
  apply Reads.dropWhile
  intro rest hrest c hc
  exact (hrest c hc).1

theorem reads_seconds (digit : Char → Bool) :
    Reads (EndsTime digit) (skipPart ':' (skipSeconds digit)) (perhaps (secondsForm digit)) := by
  have hfraction : Reads (EndsTime digit) (skipPart '.' (skipFraction digit))
      (perhaps (char '.' * oneOrMore digit)) := by
    apply (reads_fraction digit).skipPart
    intro rest hrest hdot
    exact (hrest '.' hdot).2.1 rfl
  simp only [secondsForm, mul_assoc]
  apply Reads.skipPart
  · exact (Reads.skip digit 2).andThen hfraction
  · intro rest hrest hcolon
    exact (hrest ':' hcolon).2.2 rfl

theorem isZone_iff : isZone digit cs = true ↔ cs ∈ perhaps (zoneForm digit) := by
  have hclock : ∀ cs, skipHourMinute digit cs = some [] ↔ cs ∈ clockForm digit := by
    intro cs
    simpa using reads_hourMinute digit cs [] trivial
  rw [mem_perhaps, zoneForm, Language.mem_add, add_mul, Language.mem_add, mem_char]
  cases cs with
  | nil => simp [isZone]
  | cons c cs =>
    have hsign : ∀ d : Char, c :: cs ∈ char d * clockForm digit ↔ c = d ∧ cs ∈ clockForm digit := by
      intro d
      simp [mem_char_mul]
    rw [hsign, hsign, isZone]
    split
    next hz => simp [hz]
    next hz => simp [hz, hclock, or_and_right]

/-- A zone does not continue a time. -/
theorem endsTime_of_zone (hdigit : ∀ c ∈ ['Z', '+', '-'], digit c = false)
    (h : rest ∈ perhaps (zoneForm digit)) : EndsTime digit rest := by
  have hhead : ∀ c ∈ rest.head?, c ∈ ['Z', '+', '-'] := by
    rw [mem_perhaps, zoneForm, Language.mem_add, add_mul, Language.mem_add, mem_char] at h
    simp only [mem_char_mul] at h
    intro c hc
    rcases h with rfl | rfl | ⟨_, rfl, -⟩ | ⟨_, rfl, -⟩
    · exact nomatch hc
    all_goals
      obtain rfl := Option.some.inj hc
      decide
  intro c hc
  refine ⟨hdigit c (hhead c hc), ?_⟩
  have hmem := hhead c hc
  constructor
  · rintro rfl
    exact absurd hmem (by decide)
  · rintro rfl
    exact absurd hmem (by decide)

theorem isClock_iff (hdigit : ∀ c ∈ ['Z', '+', '-'], digit c = false) :
    isClock digit cs = true ↔
      cs ∈ clockForm digit * perhaps (secondsForm digit) * perhaps (zoneForm digit) := by
  have htime := (reads_hourMinute digit).andThen (reads_seconds digit)
  have hread : isClock digit cs = true ↔ ∃ rest,
      (skipHourMinute digit cs).bind (skipPart ':' (skipSeconds digit)) = some rest ∧
        isZone digit rest = true := by
    rw [isClock]
    split
    next rest h => simp [h]
    next h => simp [h]
  rw [hread, Language.mem_mul]
  constructor
  · rintro ⟨rest, hrest, hzone⟩
    rw [isZone_iff] at hzone
    obtain ⟨time, htime, rfl⟩ := (htime cs rest (endsTime_of_zone hdigit hzone)).mp hrest
    exact ⟨time, htime, rest, hzone, rfl⟩
  · rintro ⟨time, hmem, rest, hzone, rfl⟩
    refine ⟨rest, ?_, isZone_iff.mpr hzone⟩
    exact (htime _ rest (endsTime_of_zone hdigit hzone)).mpr ⟨time, hmem, rfl⟩

/-- Dates are recognised where no sign or letter of a zone counts as a digit. -/
theorem isDate_iff (hdigit : ∀ c ∈ ['Z', '+', '-'], digit c = false) :
    isDate digit cs = true ↔ cs ∈ dateForm digit := by
  have hread : isDate digit cs = true ↔ ∃ rest, skipDay digit cs = some rest ∧
      (rest = [] ∨ ∃ tail, rest = 'T' :: tail ∧ isClock digit tail = true) := by
    rw [isDate]
    split
    next h => simp [h]
    next h => simp [h]
    next c tail h => simp [h]
  have htime : ∀ rest : List Char, (∃ tail, rest = 'T' :: tail ∧ isClock digit tail = true) ↔
      rest ∈ char 'T' * clockForm digit * perhaps (secondsForm digit) *
        perhaps (zoneForm digit) := by
    intro rest
    simp only [isClock_iff hdigit, mul_assoc, mem_char_mul]
  rw [hread, dateForm, Language.mem_mul]
  simp only [htime, ← mem_perhaps, reads_day digit cs _ trivial]
  constructor
  · rintro ⟨rest, ⟨day, hday, rfl⟩, hrest⟩
    exact ⟨day, hday, rest, hrest, rfl⟩
  · rintro ⟨day, hday, rest, hrest, rfl⟩
    exact ⟨rest, ⟨day, hday, rfl⟩, hrest⟩

end

def isAscii (c : Char) : Bool := c.toNat < 128

/-- The only digits in ASCII are 0 to 9. -/
theorem isDigit_and_isAscii (c : Char) : (isDigit c && isAscii c) = isAsciiDigit c := by
  have hfar : ∀ r ∈ digitRanges.tail, 128 ≤ r.1 := by decide
  have hranges : digitRanges = (0x30, 0x39) :: digitRanges.tail := rfl
  rw [Bool.eq_iff_iff, Bool.and_eq_true]
  constructor
  · rintro ⟨hdigit, hascii⟩
    rw [isDigit, hranges, List.any_cons, Bool.or_eq_true] at hdigit
    rcases hdigit with h | h
    · exact h
    · obtain ⟨r, hr, h⟩ := List.any_eq_true.mp h
      have hlow := hfar r hr
      simp only [Bool.and_eq_true, decide_eq_true_eq] at h
      simp only [isAscii, decide_eq_true_eq] at hascii
      omega
  · intro h
    refine ⟨isDigit_of_isAsciiDigit h, ?_⟩
    have hnine : '9'.toNat = 57 := rfl
    simp only [isAsciiDigit, Bool.and_eq_true, decide_eq_true_eq] at h
    simp only [isAscii, decide_eq_true_eq]
    omega

/-- The dates with digits of any script that are written in ASCII have the digits 0 to 9. -/
theorem dateForm_inf_ascii : dateForm isDigit ⊓ allOf isAscii = dateForm isAsciiDigit := by
  have hdigits : (fun c => isDigit c && isAscii c) = isAsciiDigit := funext isDigit_and_isAscii
  have hascii : ∀ c ∈ ['-', ':', '.', 'T', 'Z', '+'], isAscii c = true := List.all_eq_true.mp rfl
  have hmarks : ∀ c ∈ ['-', ':', '.', 'T', 'Z', '+'], char c ⊓ allOf isAscii = char c :=
    fun c hc => char_inf_allOf (hascii c hc)
  simp only [List.forall_mem_cons] at hmarks
  simp only [dateForm, dayForm, clockForm, secondsForm, zoneForm, mul_inf_allOf, add_inf_allOf,
    perhaps_inf_allOf, pow_inf_allOf, oneOf_inf_allOf, oneOrMore_inf_allOf, hdigits, hmarks]

/-- A date with blanks around it at most. -/
def IsDated (digit : Char → Bool) (s : String) : Prop := (trim s).toList ∈ dateForm digit

theorem isDated_iff {s : String} :
    isDate isDigit (trim s).toList = true ↔ IsDated isDigit s := by
  apply isDate_iff
  simp only [List.forall_mem_cons]
  exact ⟨rfl, rfl, rfl, nofun⟩

theorem isDated_isAsciiDigit {s : String} :
    IsDated isAsciiDigit s ↔ IsDated isDigit s ∧ ∀ c ∈ (trim s).toList, isAscii c = true := by
  rw [IsDated, ← dateForm_inf_ascii, Language.mem_inf, mem_allOf, IsDated]

end Text

theorem Value.field?_map_eq_some {fields : KeyMap Value} {k s : String} :
    (Value.map fields).field? k = some s ↔ fields.get? k = some (.string s) := by
  simp only [Value.field?, Value.get?, Option.bind_eq_some_iff, Value.string?_eq_some]
  simp

namespace Codec
open Text

/-- A date is taken by its start, given by itself or in a map, with an end that is a date too. -/
theorem toWire_date {v : Value} {w : Json} :
    date.toWire v = .ok w ↔ ∃ s, v.named? "start" = some s ∧ IsDated isDigit s ∧
      (∀ finish, v.field? "end" = some finish → IsDated isDigit finish) ∧
      w = property .date
        (DateSpan.toJson ⟨trim s, (v.field? "end").map trim, v.field? "time_zone"⟩) := by
  have hvalid (s : String) :
      DateSpan.Valid ⟨trim s, (v.field? "end").map trim, v.field? "time_zone"⟩ ↔
        IsDated isDigit s ∧ ∀ finish, v.field? "end" = some finish → IsDated isDigit finish := by
    simp only [DateSpan.Valid, ← isDated_iff]
    cases v.field? "end" <;> simp
  simp only [toWire, content, map_eq_ok, DateSpan.ofValue_eq_ok]
  constructor
  · rintro ⟨_, ⟨d, ⟨s, hs, hd, rfl⟩, rfl⟩, rfl⟩
    obtain ⟨hstart, hfinish⟩ := (hvalid s).mp hd
    exact ⟨s, hs, hstart, hfinish, rfl⟩
  · rintro ⟨s, hs, hstart, hfinish, rfl⟩
    exact ⟨_, ⟨_, ⟨s, hs, (hvalid s).mpr ⟨hstart, hfinish⟩, rfl⟩, rfl⟩, rfl⟩

theorem toWire_date_string {s : String} {w : Json} : date.toWire (.string s) = .ok w ↔
    IsDated isDigit s ∧ w = property .date (DateSpan.toJson ⟨trim s, none, none⟩) := by
  rw [toWire_date]
  simp [Value.field?, Value.get?]

/-- A text is stored as a date just when it is, without the blanks around it, a day or a day and a
time in the extended format of ISO 8601, in digits of any script; so are the start of a map and its
end, if that is a text. The digits are 0 to 9 just when all is in ASCII. -/
theorem date_settles (s : String) (fields : KeyMap Value) (w : Json) :
    (date.toWire (.string s) = .ok w ↔
      IsDated isDigit s ∧ w = property .date (DateSpan.toJson ⟨trim s, none, none⟩)) ∧
    (date.toWire (.map fields) = .ok w ↔
      ∃ s, fields.get? "start" = some (.string s) ∧ IsDated isDigit s ∧
        (∀ finish, fields.get? "end" = some (.string finish) → IsDated isDigit finish) ∧
          w = property .date (DateSpan.toJson ⟨trim s, ((Value.map fields).field? "end").map trim,
            (Value.map fields).field? "time_zone"⟩)) ∧
    (IsDated isAsciiDigit s ↔ IsDated isDigit s ∧ ∀ c ∈ (trim s).toList, isAscii c = true) := by
  have hstart (s : String) : (Value.map fields).named? "start" = some s ↔
      fields.get? "start" = some (.string s) := Value.field?_map_eq_some
  refine ⟨toWire_date_string, ?_, isDated_isAsciiDigit⟩
  rw [toWire_date]
  simp only [hstart, Value.field?_map_eq_some]

/-- A day whose year is in full-width digits. -/
def fullWidthDay : List Char := ['２', '０', '２', '４', '-', '0', '5', '-', '0', '1']

/-- Not every text that is stored as a date has the digits 0 to 9. -/
theorem not_forall_date_ascii :
    ¬ ∀ s w, date.toWire (.string s) = .ok w → IsDated isAsciiDigit s := by
  intro h
  have htrim : (trim (String.ofList fullWidthDay)).toList = fullWidthDay := by
    rw [trim, String.toList_ofList, String.toList_ofList]
    rfl
  have hdated : IsDated isDigit (String.ofList fullWidthDay) := by
    rw [← isDated_iff, htrim]
    rfl
  have hstored := toWire_date_string.mpr ⟨hdated, rfl⟩
  obtain ⟨-, hascii⟩ := isDated_isAsciiDigit.mp (h _ _ hstored)
  rw [htrim, fullWidthDay, List.forall_mem_cons] at hascii
  exact absurd hascii.1 (by decide)

end Codec
end DocTables
