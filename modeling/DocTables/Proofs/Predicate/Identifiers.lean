import DocTables.Proofs.Binary64.Exact
import DocTables.Proofs.Codec.Canonical
import DocTables.Proofs.Predicate.Lowering
import DocTables.Proofs.Text

/-!
Comparing with unique ids. A text is an operand when it is a label, a hyphen and a number of the
digits 0 to 9 that 64 bits can hold, and the number is what is sent. An integer is sent as it is. A
floating-point number is one when its value is an integer, but it is cut to 64 bits.
-/
namespace DocTables
open Outcome

namespace Text
variable {digit : Char → Bool} {front number cs : List Char} {n : Nat}

/-- A text as a label without blanks, a hyphen, and a number. The label may have hyphens. -/
structure Labelled (digit : Char → Bool) (front number cs : List Char) : Prop where
  eq : cs = front ++ '-' :: number
  front_ne : front ≠ []
  number_ne : number ≠ []
  solid : ∀ c ∈ front, isBlank c = false
  digits : ∀ c ∈ number, digit c = true

/-- A text with a label and this number, in the digits 0 to 9. -/
def HasNumber (n : Nat) (cs : List Char) : Prop :=
  ∃ front number, Labelled isAsciiDigit front number cs ∧ decimalValue number = n

theorem isBlank_of_isAsciiDigit {c : Char} (h : isAsciiDigit c = true) : isBlank c = false := by
  have hzero : '0'.toNat = 48 := rfl
  have hnine : '9'.toNat = 57 := rfl
  simp only [isAsciiDigit, Bool.and_eq_true, decide_eq_true_eq] at h
  simp only [isBlank, Bool.or_eq_false_iff, Bool.and_eq_false_iff, decide_eq_false_iff_not]
  omega

theorem trimChars_of_solid (h : ∀ c ∈ cs, isBlank c = false) : trimChars cs = cs := by
  have hfront : cs.dropWhile isBlank = cs := by
    rw [List.dropWhile_eq_self_iff]
    intro hl
    simp [h _ (List.getElem_mem hl)]
  rw [trimChars_eq, hfront, List.rdropWhile_eq_self_iff]
  intro hl
  simp [h _ (List.getLast_mem hl)]

namespace Labelled

theorem trimChars_eq_self (h : Labelled isAsciiDigit front number cs) : trimChars cs = cs := by
  apply trimChars_of_solid
  rw [h.eq, List.forall_mem_append, List.forall_mem_cons]
  exact ⟨h.solid, rfl, fun c hc => isBlank_of_isAsciiDigit (h.digits c hc)⟩

/-- The last hyphen is the one before the number. -/
theorem span_eq (h : Labelled digit front number cs) (hdigit : digit '-' = false) :
    cs.reverse.span (· != '-') = (number.reverse, '-' :: front.reverse) := by
  -- A hyphen is no digit, so from the end the number is what comes before the first hyphen.
  have hinside : ∀ c ∈ number.reverse, (c != '-') = true := by
    intro c hc
    rw [bne_iff_ne]
    rintro rfl
    exact absurd (h.digits _ (List.mem_reverse.mp hc)) (by simp [hdigit])
  rw [List.span_eq_takeWhile_dropWhile, h.eq, List.reverse_append, List.reverse_cons,
    List.append_assoc, List.takeWhile_append_of_pos hinside, List.dropWhile_append_of_pos hinside]
  simp

/-- The number is what is read. -/
theorem numberedId?_eq (h : Labelled digit front number cs) (hdigit : digit '-' = false) :
    numberedId? cs = decimal? number := by
  have hfront : (!front.reverse.isEmpty && front.reverse.all fun c => !isBlank c) = true := by
    simpa [h.front_ne] using h.solid
  rw [numberedId?, h.span_eq hdigit]
  simp only [hfront, if_true, List.reverse_reverse]

end Labelled

theorem decimal?_eq_some : decimal? cs = some n ↔
    cs ≠ [] ∧ (∀ c ∈ cs, isAsciiDigit c = true) ∧ decimalValue cs = n := by
  simp [decimal?, and_assoc]

theorem eq_of_span {c : Char} (h : cs.reverse.span (· != '-') = (number, c :: front)) :
    cs = front.reverse ++ '-' :: number.reverse := by
  rw [List.span_eq_takeWhile_dropWhile] at h
  obtain ⟨hnumber, hrest⟩ := Prod.mk.inj h
  have hsplit : cs.reverse = number ++ c :: front := by
    rw [← hnumber, ← hrest, List.takeWhile_append_dropWhile]
  have hhyphen : c = '-' := by
    have hhead := List.head?_dropWhile_not (· != '-') cs.reverse
    rw [hrest] at hhead
    simpa using hhead
  rw [← List.reverse_reverse cs, hsplit, hhyphen, List.reverse_append, List.reverse_cons,
    List.append_assoc]
  rfl

/-- A number is read just from the texts that have it. -/
theorem numberedId?_eq_some : numberedId? cs = some n ↔ HasNumber n cs := by
  constructor
  · intro h
    unfold numberedId? at h
    split at h
    next number c front hspan =>
      split at h
      next hfront =>
        obtain ⟨hne, hsolid⟩ := Bool.and_eq_true_iff.mp hfront
        obtain ⟨hnumber, hdigits, hvalue⟩ := decimal?_eq_some.mp h
        refine ⟨front.reverse, number.reverse, ⟨eq_of_span hspan, ?_, hnumber, ?_, hdigits⟩, hvalue⟩
        · simpa using hne
        · simpa using hsolid
      next => exact nomatch h
    next => exact nomatch h
  · rintro ⟨front, number, h, hvalue⟩
    rw [h.numberedId?_eq (by decide)]
    exact decimal?_eq_some.mpr ⟨h.number_ne, h.digits, hvalue⟩

end Text

/-- An integer as 64 bits, where they suffice. -/
theorem toInt_int64? (n : Int) : (int64? n).map Int64.toInt =
    if -2 ^ 63 ≤ n ∧ n ≤ 2 ^ 63 - 1 then some n else none := by
  have hmin : Int64.minValue.toInt = -2 ^ 63 := by decide
  have hmax : Int64.maxValue.toInt = 2 ^ 63 - 1 := by decide
  rw [int64?, hmin, hmax]
  split
  next hn =>
    rw [Option.map_some, Int64.toInt_ofInt_of_le (by omega) (by omega)]
  next => rfl

section Codec
variable {declared : Option String} {w content : Json} {label : String} {n : Nat}

theorem Text.labelled_append (hlabel : label ≠ "") (hsolid : ∀ c ∈ label.toList, isBlank c = false)
    (n : Nat) : Labelled isAsciiDigit label.toList (Nat.toDigits 10 n)
      (label ++ "-" ++ toString (n : Int)).toList := by
  have hdigits : (toString (n : Int)).toList = Nat.toDigits 10 n := by
    have hnat : toString (n : Int) = toString n := rfl
    rw [hnat, Nat.toString_eq_repr, Nat.toList_repr]
  refine ⟨?_, ?_, Nat.toDigits_ne_nil, hsolid, fun c hc => ?_⟩
  · rw [String.toList_append, String.toList_append, hdigits, List.append_assoc]
    rfl
  · simpa using hlabel
  · exact isAsciiDigit_of_isDigit (Nat.isDigit_of_mem_toDigits (by decide) (by decide) hc)

/-- A number written behind a label is the number of the text. -/
theorem Text.hasNumber_append (hlabel : label ≠ "")
    (hsolid : ∀ c ∈ label.toList, isBlank c = false) (n : Nat) :
    HasNumber n (trim (label ++ "-" ++ toString (n : Int))).toList := by
  have h := labelled_append hlabel hsolid n
  refine ⟨label.toList, Nat.toDigits 10 n, ?_, (decimal?_eq_some.mp (decimal?_toDigits n)).2.2⟩
  rwa [trim, String.toList_ofList, h.trimChars_eq_self]

theorem Codec.ofWire_labelled (hcontent : w.payload? "unique_id" = some content)
    (hcalled : content.field? "prefix" = some label) (hlabel : label ≠ "")
    (hnumber : content.get? "number" = some (.int n)) (hn : (n : Int) ≤ 2 ^ 63 - 1) :
    (uniqueId declared).ofWire w = .ok (.string (label ++ "-" ++ toString (n : Int))) := by
  have hread : (int64? n).map Int64.toInt = some (n : Int) := by
    rw [toInt_int64?, if_pos ⟨by omega, hn⟩]
  obtain ⟨m, hm, hvalue⟩ := Option.map_eq_some_iff.mp hread
  have hpayload : w.payload? (uniqueId declared).type.key = some content := hcontent
  simp only [ofWire, hpayload, Option.elim_some, readUniqueId, hnumber, Option.bind_some, hm,
    hcalled, hvalue, if_neg hlabel]

end Codec

namespace PropertyRef

/-- The number that a comparison with a unique id sends, if it takes the operand. -/
def idValue? (v : Value) : Option Int := (idNumber? v).map Int64.toInt

theorem idValue?_string {s : String} {k : Int} : idValue? (.string s) = some k ↔
    ∃ n : Nat, Text.HasNumber n (Text.trim s).toList ∧ n ≤ 2 ^ 63 - 1 ∧ k = n := by
  simp only [idValue?, idNumber?, Option.map_bind, Function.comp_def, toInt_int64?,
    Option.bind_eq_some_iff, Text.numberedId?_eq_some]
  refine exists_congr fun n => and_congr_right fun _ => ?_
  rw [Option.ite_none_right_eq_some, Option.some.injEq]
  omega

theorem idValue?_int (n : Int64) : idValue? (.int n) = some n.toInt := rfl

theorem idValue?_float {x : Binary64} {n : Int} : idValue? (.float x) = some n ↔
    ∃ k : Int, x.isFinite = true ∧ x.value = k ∧ n = max (-2 ^ 63) (min k (2 ^ 63 - 1)) := by
  have hread : idValue? (.float x) = (x.toInt?.map clampInt64).map Int64.toInt := rfl
  rw [hread, Option.map_map, Option.map_eq_some_iff]
  refine exists_congr fun k => ?_
  rw [Binary64.toInt?_eq_some, and_assoc, Function.comp_apply, toInt_clampInt64]
  exact and_congr_right fun _ => and_congr_right fun _ => eq_comm

end PropertyRef

namespace Predicate
open PropertyRef
variable {op : Comparison} {name : String} {v : Value}

/-- The filter that compares a unique id with a number. -/
def idFilter (op : Comparison) (name : String) (n : Int) : Json :=
  (PropertyRef.mk name .uniqueId).condition (op.word .uniqueId) (.int n)

theorem toFilter_uniqueId (hop : op.supports .uniqueId = true) (name : String) (v : Value) :
    (compare op ⟨name, .uniqueId⟩ v).toFilter =
      (idValue? v).elim (.error (.operandRefused name .notUniqueId)) fun n =>
        .ok (idFilter op name n) := by
  rw [toFilter, comparisonFilter, if_pos hop, idValue?]
  cases hv : idNumber? v with
  | none =>
    rw [PropertyRef.operand, hv]
    rfl
  | some n =>
    rw [PropertyRef.operand, hv]
    rfl

theorem toFilter_eq_ok_iff (hop : op.supports .uniqueId = true) {j : Json} :
    (compare op ⟨name, .uniqueId⟩ v).toFilter = .ok j ↔
      ∃ n, idValue? v = some n ∧ j = idFilter op name n := by
  rw [toFilter_uniqueId hop]
  cases idValue? v <;> simp [eq_comm]

theorem toFilter_eq_error_iff (hop : op.supports .uniqueId = true) {e : TableError} :
    (compare op ⟨name, .uniqueId⟩ v).toFilter = .error e ↔
      idValue? v = none ∧ e = .operandRefused name .notUniqueId := by
  rw [toFilter_uniqueId hop]
  cases idValue? v <;> simp [eq_comm]

/-- A text is compared with a unique id just when it is, without the blanks around it, a label free
of blanks, a hyphen, and a number in the digits 0 to 9 that 64 bits can hold: the number is sent. So
the text that a label and a number are decoded to stands for the number. -/
theorem labelled_operand_settles (hop : op.supports .uniqueId = true) (name : String) :
    (∀ s j, (compare op ⟨name, .uniqueId⟩ (.string s)).toFilter = .ok j ↔
      ∃ n : Nat, Text.HasNumber n (Text.trim s).toList ∧ n ≤ 2 ^ 63 - 1 ∧
        j = idFilter op name n) ∧
    (∀ s e, (compare op ⟨name, .uniqueId⟩ (.string s)).toFilter = .error e ↔
      (∀ n, Text.HasNumber n (Text.trim s).toList → 2 ^ 63 - 1 < n) ∧
        e = .operandRefused name .notUniqueId) ∧
    ∀ declared w content label (n : Nat), w.payload? "unique_id" = some content →
      content.field? "prefix" = some label → label ≠ "" →
      (∀ c ∈ label.toList, Text.isBlank c = false) →
      content.get? "number" = some (.int n) → n ≤ 2 ^ 63 - 1 →
      ∃ s, (Codec.uniqueId declared).ofWire w = .ok (.string s) ∧
        (compare op ⟨name, .uniqueId⟩ (.string s)).toFilter = .ok (idFilter op name n) := by
  refine ⟨fun s j => ?_, fun s e => ?_, ?_⟩
  · rw [toFilter_eq_ok_iff hop]
    constructor
    · rintro ⟨k, hk, rfl⟩
      obtain ⟨n, hn, hbound, rfl⟩ := idValue?_string.mp hk
      exact ⟨n, hn, hbound, rfl⟩
    · rintro ⟨n, hn, hbound, rfl⟩
      exact ⟨n, idValue?_string.mpr ⟨n, hn, hbound, rfl⟩, rfl⟩
  · rw [toFilter_eq_error_iff hop, Option.eq_none_iff_forall_ne_some]
    refine and_congr_left fun _ => ⟨fun h n hn => ?_, fun h k hk => ?_⟩
    · by_contra hbound
      exact h n (idValue?_string.mpr ⟨n, hn, by omega, rfl⟩)
    · obtain ⟨n, hn, hbound, -⟩ := idValue?_string.mp hk
      exact absurd (h n hn) (by omega)
  · intro declared w content label n hcontent hcalled hlabel hsolid hnumber hn
    refine ⟨_, Codec.ofWire_labelled hcontent hcalled hlabel hnumber (by omega), ?_⟩
    refine (toFilter_eq_ok_iff hop).mpr ⟨n, idValue?_string.mpr ⟨n, ?_, hn, rfl⟩, rfl⟩
    exact Text.hasNumber_append hlabel hsolid n

/-- An id with a label that has a hyphen itself is read back from its text. -/
theorem labelled_operand_settles_seven : ∃ s,
    (Codec.uniqueId (some "A-B")).ofWire (.ofFields [("unique_id",
      .ofFields [("number", .int 7), ("prefix", .string "A-B")])]) = .ok (.string s) ∧
    (compare .eq ⟨"Number", .uniqueId⟩ (.string s)).toFilter = .ok (idFilter .eq "Number" 7) := by
  have hop : Comparison.eq.supports .uniqueId = true := rfl
  obtain ⟨-, -, hread⟩ := labelled_operand_settles hop "Number"
  refine hread (some "A-B") _ (.ofFields [("number", .int 7), ("prefix", .string "A-B")]) "A-B" 7
    rfl rfl ?_ ?_ rfl ?_
  · decide
  · have hlist : "A-B".toList = ['A', '-', 'B'] := rfl
    rw [hlist]
    simp only [List.forall_mem_cons, List.not_mem_nil, false_implies, implies_true, and_true]
    exact ⟨rfl, rfl, rfl⟩
  · omega

theorem idFilter_injective {m n : Int} (h : idFilter op name m = idFilter op name n) : m = n := by
  have hget (k : Int) : ((idFilter op name k).get? "unique_id").bind
      (fun j => j.get? (op.word .uniqueId)) = some (.int k) := by
    have hkey : PropertyType.uniqueId.key = "unique_id" := rfl
    simp [idFilter, condition, hkey, KeyMap.lookup]
  have hboth := hget n
  rw [← h, hget m] at hboth
  exact Json.int.inj (Option.some.inj hboth)

/-- An integer is sent as it is. A floating-point number is taken just when its value is an integer.
What is sent is the nearest integer of 64 bits, which is the value just when 64 bits can hold it. -/
theorem numeric_operand_settles (hop : op.supports .uniqueId = true) (name : String) :
    (∀ n : Int64, (compare op ⟨name, .uniqueId⟩ (.int n)).toFilter =
      .ok (idFilter op name n.toInt)) ∧
    (∀ x j, (compare op ⟨name, .uniqueId⟩ (.float x)).toFilter = .ok j ↔
      ∃ k : Int, x.isFinite = true ∧ x.value = k ∧
        j = idFilter op name (max (-2 ^ 63) (min k (2 ^ 63 - 1)))) ∧
    (∀ x e, (compare op ⟨name, .uniqueId⟩ (.float x)).toFilter = .error e ↔
      (x.isFinite = true → ∀ k : Int, x.value ≠ k) ∧ e = .operandRefused name .notUniqueId) ∧
    (∀ (x : Binary64) (k : Int), x.isFinite = true → x.value = k →
      ((compare op ⟨name, .uniqueId⟩ (.float x)).toFilter = .ok (idFilter op name k) ↔
        -2 ^ 63 ≤ k ∧ k ≤ 2 ^ 63 - 1)) ∧
    ∀ x n, (Value.float x).int? = some n ↔
      ∃ k : Int, x.isFinite = true ∧ x.value = k ∧
        n.toInt = max (-2 ^ 63) (min k (2 ^ 63 - 1)) := by
  have haccepted : ∀ x j, (compare op ⟨name, .uniqueId⟩ (.float x)).toFilter = .ok j ↔
      ∃ k : Int, x.isFinite = true ∧ x.value = k ∧
        j = idFilter op name (max (-2 ^ 63) (min k (2 ^ 63 - 1))) := by
    intro x j
    rw [toFilter_eq_ok_iff hop]
    constructor
    · rintro ⟨n, hn, rfl⟩
      obtain ⟨k, hfinite, hvalue, rfl⟩ := idValue?_float.mp hn
      exact ⟨k, hfinite, hvalue, rfl⟩
    · rintro ⟨k, hfinite, hvalue, rfl⟩
      exact ⟨_, idValue?_float.mpr ⟨k, hfinite, hvalue, rfl⟩, rfl⟩
  refine ⟨fun n => ?_, haccepted, fun x e => ?_, fun x k hfinite hvalue => ?_, fun x n => ?_⟩
  · exact (toFilter_eq_ok_iff hop).mpr ⟨_, idValue?_int n, rfl⟩
  · rw [toFilter_eq_error_iff hop, Option.eq_none_iff_forall_ne_some]
    refine and_congr_left fun _ => ⟨fun h hfinite k hvalue => ?_, fun h n hn => ?_⟩
    · exact h _ (idValue?_float.mpr ⟨k, hfinite, hvalue, rfl⟩)
    · obtain ⟨k, hfinite, hvalue, -⟩ := idValue?_float.mp hn
      exact h hfinite k hvalue
  · rw [haccepted]
    constructor
    · rintro ⟨i, -, hi, heq⟩
      obtain rfl : k = i := by exact_mod_cast hvalue.symm.trans hi
      have hcut := idFilter_injective heq
      omega
    · intro hbound
      refine ⟨k, hfinite, hvalue, congrArg (idFilter op name) ?_⟩
      omega
  · have hread : idValue? (.float x) = (Value.float x).int?.map Int64.toInt := rfl
    rw [← idValue?_float, hread]
    cases (Value.float x).int? <;> simp [Int64.toInt_inj]

/-- The number 2 ^ 63. -/
def pastInt64 : Binary64 := ⟨0x43e0000000000000⟩

theorem value_pastInt64 : pastInt64.value = (2 ^ 63 : Int) := by
  have hsign : pastInt64.negative = false := by decide
  have hexponent : pastInt64.exponentField = 1086 := by decide
  have hfraction : pastInt64.fraction = 0 := by decide
  rw [Binary64.value, Binary64.absValue, hsign, hexponent, hfraction]
  norm_num

theorem toFilter_pastInt64 : (compare .eq ⟨"Number", .uniqueId⟩ (.float pastInt64)).toFilter =
    .ok (idFilter .eq "Number" (2 ^ 63 - 1)) := by
  refine (toFilter_eq_ok_iff rfl).mpr ⟨_, idValue?_float.mpr ⟨_, ?_, value_pastInt64, rfl⟩, ?_⟩
  · decide
  · rfl

/-- The number 5 is sent as it is, and 2 ^ 63 as the largest integer of 64 bits. -/
theorem numeric_operand_settles_past :
    (compare .eq ⟨"Number", .uniqueId⟩ (.int 5)).toFilter = .ok (idFilter .eq "Number" 5) ∧
    (compare .eq ⟨"Number", .uniqueId⟩ (.float pastInt64)).toFilter =
      .ok (idFilter .eq "Number" (2 ^ 63 - 1)) := by
  have hop : Comparison.eq.supports .uniqueId = true := rfl
  obtain ⟨hint, hfloat, -⟩ := numeric_operand_settles hop "Number"
  exact ⟨hint 5, (hfloat _ _).mpr ⟨2 ^ 63, by decide, value_pastInt64, rfl⟩⟩

/-- Not every number that is taken is sent as it is. -/
theorem not_forall_operand_exact : ¬ ∀ (op : Comparison) name (x : Binary64) j,
    op.supports .uniqueId = true → (compare op ⟨name, .uniqueId⟩ (.float x)).toFilter = .ok j →
    ∃ n : Int, x.value = n ∧ j = idFilter op name n := by
  intro h
  obtain ⟨n, hn, hsent⟩ := h .eq "Number" pastInt64 _ rfl toFilter_pastInt64
  have hvalue : (2 ^ 63 : Int) = n := by exact_mod_cast value_pastInt64.symm.trans hn
  have hcut := idFilter_injective hsent
  omega

end Predicate
end DocTables
