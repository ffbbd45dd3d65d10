import DocTables.Proofs.Binary64.Nearest
import DocTables.Proofs.Predicate.Found

/-!
Comparisons of a number column with an integer. The integers are stored and sent as they are, and a
store compares the numbers nearest to them, so it takes two integers for the same when they have the
same nearest number.
-/
namespace DocTables
open Outcome

namespace Comparison
variable {op : Comparison}

/-- What a comparison says of two members of an order, in which nothing contains anything. -/
def Orders {α : Type} [LT α] [LE α] (op : Comparison) (a b : α) : Prop :=
  match op with
  | eq => a = b
  | neq => a ≠ b
  | contains => False
  | gt => b < a
  | gte => b ≤ a
  | lt => a < b
  | lte => a ≤ b

/-- Comparisons say the same of two pairs that are ordered alike. -/
theorem orders_congr {α β : Type} [LinearOrder α] [LinearOrder β] {a b : α} {a' b' : β}
    (hlt : a < b ↔ a' < b') (hgt : b < a ↔ b' < a') : op.Orders a b ↔ op.Orders a' b' := by
  have hle : a ≤ b ↔ a' ≤ b' := by rw [← not_lt, ← not_lt, hgt]
  have hge : b ≤ a ↔ b' ≤ a' := by rw [← not_lt, ← not_lt, hlt]
  have heq : a = b ↔ a' = b' := by rw [le_antisymm_iff, le_antisymm_iff, hle, hge]
  cases op with
  | eq => exact heq
  | neq => exact not_congr heq
  | contains => exact Iff.rfl
  | gt => exact hgt
  | gte => exact hge
  | lt => exact hlt
  | lte => exact hle

/-- Numbers are compared by their values. -/
theorem holds_number (hop : op.supports .number = true) {v operand : Value} {x y : Binary64}
    (hv : v.float? = some x) (hoperand : operand.float? = some y) (hx : x.isNaN = false)
    (hy : y.isNaN = false) :
    op.Holds .number (some v) operand ↔ op.Orders x.value y.value := by
  have hrelated (r : Scalar → Scalar → Prop) :
      Related r .number (some v) operand ↔ r (.number x) (.number y) := by
    have hb : operand.operandScalar? .number = some (.number y) := by
      rw [Value.operandScalar?, hoperand, Option.map_some]
    simp [related_iff hb, Value.scalar?, hv]
  have hequal : (Scalar.number x).Equal (.number y) ↔ x.value = y.value :=
    Binary64.numEq_iff hx hy
  have hless : (Scalar.number x).Less (.number y) ↔ x.value < y.value :=
    Binary64.compare?_lt_iff hx hy
  have hgreater : (Scalar.number y).Less (.number x) ↔ y.value < x.value :=
    Binary64.compare?_lt_iff hy hx
  cases op with
  | eq => exact (hrelated _).trans hequal
  | neq => exact not_congr ((hrelated _).trans hequal)
  | contains => exact absurd hop (by decide)
  | gt => exact (hrelated _).trans hgreater
  | gte => rw [Holds, hrelated, hgreater, hequal, Orders, le_iff_lt_or_eq, eq_comm (a := y.value)]
  | lt => exact (hrelated _).trans hless
  | lte => rw [Holds, hrelated, hless, hequal, Orders, le_iff_lt_or_eq]

end Comparison

/-- The value of the binary number that an integer becomes when it is compared. -/
def nearest (n : Int64) : ℚ := (Binary64.ofInt n.toInt).value

section Nearest
variable {m n : Int64}

theorem natAbs_toInt_le (n : Int64) : n.toInt.natAbs ≤ 2 ^ 64 := by
  have hlow := n.le_toInt
  have hhigh := n.toInt_lt
  omega

theorem isNearest_toInt (n : Int64) : Binary64.IsNearest n.toInt (Binary64.ofInt n.toInt) :=
  Binary64.isNearest_ofInt (natAbs_toInt_le n)

theorem nearest_mono (h : m.toInt ≤ n.toInt) : nearest m ≤ nearest n :=
  Binary64.value_ofInt_mono (natAbs_toInt_le m) (natAbs_toInt_le n) h

/-- Integers up to `2 ^ 53` are numbers themselves, and no conversion passes them. -/
theorem nearest_le {k : Int} (hk : k.natAbs ≤ 2 ^ 53) (h : m.toInt ≤ k) : nearest m ≤ k := by
  rw [← Binary64.value_ofInt hk]
  exact Binary64.value_ofInt_mono (natAbs_toInt_le m) (hk.trans (by decide)) h

theorem le_nearest {k : Int} (hk : k.natAbs ≤ 2 ^ 53) (h : k ≤ m.toInt) : k ≤ nearest m := by
  rw [← Binary64.value_ofInt hk]
  exact Binary64.value_ofInt_mono (hk.trans (by decide)) (natAbs_toInt_le m) h

/-- An integer below `2 ^ 53` is told apart from all others by its two neighbours. -/
theorem eq_of_nearest_eq (hn : n.toInt.natAbs < 2 ^ 53) (h : nearest m = nearest n) : m = n := by
  have hvalue : nearest n = n.toInt := Binary64.value_ofInt hn.le
  rcases lt_trichotomy m.toInt n.toInt with hlt | heq | hgt
  · have hle : nearest m ≤ (n.toInt - 1 : Int) := nearest_le (by omega) (by omega)
    rw [h, hvalue, Int.cast_le] at hle
    omega
  · exact Int64.toInt_inj.mp heq
  · have hle : (n.toInt + 1 : Int) ≤ nearest m := le_nearest (by omega) (by omega)
    rw [h, hvalue, Int.cast_le] at hle
    omega

theorem nearest_lt_iff (h : nearest m = nearest n → m = n) :
    nearest m < nearest n ↔ m.toInt < n.toInt := by
  constructor
  · intro hlt
    by_contra hge
    exact absurd (nearest_mono (not_lt.mp hge)) (not_le.mpr hlt)
  · intro hlt
    apply lt_of_le_of_ne (nearest_mono hlt.le)
    intro heq
    rw [h heq] at hlt
    exact lt_irrefl _ hlt

/-- Integers that are told apart are compared as they are. -/
theorem orders_nearest (h : nearest m = nearest n → m = n) (op : Comparison) :
    op.Orders (nearest m) (nearest n) ↔ op.Orders m.toInt n.toInt := by
  apply Comparison.orders_congr (nearest_lt_iff h)
  apply nearest_lt_iff
  intro heq
  exact (h heq.symm).symm

end Nearest

theorem Codec.exists_number {c : Codec} (h : c.type = .number) : ∃ format, c = .number format := by
  cases c with
  | number format => exact ⟨format, rfl⟩
  | contact kind => cases kind <;> simp [type, ContactKind.type] at h
  | choice kind options => cases kind <;> simp [type, ChoiceKind.type] at h
  | _ => simp [type] at h

namespace Predicate
variable {c : Column}

theorem content_int (hc : c.type = .number) (m : Int64) :
    c.codec.content (.int m) = .ok (.int m.toInt) ∧ c.codec.canonical (.int m) = .int m := by
  obtain ⟨format, hformat⟩ := Codec.exists_number hc
  rw [hformat]
  exact ⟨rfl, rfl⟩

theorem toFilter_int (hc : c.type = .number) {op : Comparison} (hop : op.supports .number = true)
    (n : Int64) : (compare op c.ref (.int n)).toFilter =
      .ok (c.ref.condition (op.word c.type) (.int n.toInt)) := by
  apply toFilter_compare
  · rwa [Column.ref, hc]
  · simp only [PropertyRef.operand, Column.ref, hc]

/-- On a record that holds an integer, the filter for a comparison with an integer compares the
numbers nearest to the two. -/
theorem integer_filter (hc : c.type = .number) {op : Comparison}
    (hop : op.supports .number = true) {m n : Int64} {w : Json}
    (hw : c.codec.toWire (.int m) = .ok w) {properties : Properties} {p : Json}
    (hget : properties.get? c.name = some p) (hp : p = w ∨ p = Stamp.tagged w) :
    ∃ found, (Filter.ofJson (c.ref.condition (op.word c.type) (.int n.toInt))).holds properties =
        .ok found ∧
      (found = true ↔ op.Orders (nearest m) (nearest n)) := by
  obtain ⟨hcontent, hcanonical⟩ := content_int hc m
  have hsupports : op.supports c.type = true := hc ▸ hop
  have hoperand : c.ref.operand (.int n) = .ok (.int n.toInt) := by
    simp only [PropertyRef.operand, Column.ref, hc]
  obtain ⟨j, hj, rfl⟩ := map_eq_ok.mp hw
  obtain ⟨found, hfound, hiff⟩ := filter_of_content hj hsupports hoperand hget (get?_of_stored hp)
  rw [hcanonical, hc, Comparison.holds_number hop rfl rfl (Binary64.isNaN_ofInt _)
    (Binary64.isNaN_ofInt _)] at hiff
  exact ⟨found, hfound, hiff⟩

/-- An integer is stored in any number column, and comparing the column with an integer makes a
filter. On a record that holds the integer the filter compares the numbers nearest to the two. So all
comparisons are answered as for the integers when different integers have different nearest numbers,
which they have when one of the two is below `2 ^ 53`, and only then. -/
theorem integer_filters_settle (hc : c.type = .number) (m n : Int64) :
    (∃ w, c.codec.toWire (.int m) = .ok w ∧ ∀ op : Comparison, op.supports .number = true →
      ∃ filter, (compare op c.ref (.int n)).toFilter = .ok filter ∧
        ∀ (properties : Properties) (p : Json), properties.get? c.name = some p →
          p = w ∨ p = Stamp.tagged w →
          ∃ found, (Filter.ofJson filter).holds properties = .ok found ∧
            (found = true ↔ op.Orders (nearest m) (nearest n))) ∧
    Binary64.IsNearest m.toInt (Binary64.ofInt m.toInt) ∧
    Binary64.IsNearest n.toInt (Binary64.ofInt n.toInt) ∧
    ((∀ op : Comparison, op.supports .number = true →
        (op.Orders (nearest m) (nearest n) ↔ op.Orders m.toInt n.toInt)) ↔
      (nearest m = nearest n → m = n)) ∧
    (m.toInt.natAbs < 2 ^ 53 ∨ n.toInt.natAbs < 2 ^ 53 → nearest m = nearest n → m = n) := by
  refine ⟨?_, isNearest_toInt m, isNearest_toInt n, ⟨fun h => ?_, fun h op _ => ?_⟩, ?_⟩
  · have hw : c.codec.toWire (.int m) = .ok (Codec.property c.type (.int m.toInt)) := by
      rw [Codec.toWire, (content_int hc m).1]
      rfl
    refine ⟨_, hw, fun op hop => ⟨_, toFilter_int hc hop n, fun properties p hget hp => ?_⟩⟩
    exact integer_filter hc hop hw hget hp
  · exact fun heq => Int64.toInt_inj.mp ((h .eq rfl).mp heq)
  · exact orders_nearest h op
  · rintro (hm | hn) heq
    · exact (eq_of_nearest_eq hm heq.symm).symm
    · exact eq_of_nearest_eq hn heq

/-- What has been paid in all. -/
def totalColumn : Column := .ofType .number "Total"

/-- A total is found as more than a smaller one. -/
theorem integer_filters_settle_total :
    ∃ filter, (compare .gt totalColumn.ref (.int 4)).toFilter = .ok filter ∧
      (Filter.ofJson filter).holds ⟨[("Total", Codec.property .number (.int 7))]⟩ = .ok true := by
  obtain ⟨⟨w, hw, hfilters⟩, -, -, hagree, htold⟩ := integer_filters_settle
    (c := totalColumn) rfl 7 4
  obtain rfl := Except.ok.inj hw
  obtain ⟨filter, hfilter, hfinds⟩ := hfilters .gt rfl
  obtain ⟨found, hfound, hiff⟩ :=
    hfinds ⟨[("Total", Codec.property .number (.int 7))]⟩ _ rfl (.inl rfl)
  have hmore : (4 : Int64).toInt < (7 : Int64).toInt := by decide
  have horders := (hagree.mpr (htold (.inl (by decide))) .gt rfl).mpr hmore
  rw [hiff.mpr horders] at hfound
  exact ⟨filter, hfilter, hfound⟩

/-- The least positive integer that is no number itself is found as its neighbour. -/
theorem not_forall_integer_found :
    ¬ ∀ (c : Column) (m n : Int64) (w : Json), c.type = .number →
      c.codec.toWire (.int m) = .ok w → ∃ filter,
        (compare .eq c.ref (.int n)).toFilter = .ok filter ∧
        ∀ properties : Properties, properties.get? c.name = some w →
          ((Filter.ofJson filter).holds properties = .ok true ↔ m = n) := by
  intro h
  have hc : totalColumn.type = .number := rfl
  have hw : totalColumn.codec.toWire (.int 9007199254740993) =
      .ok (Codec.property .number (.int 9007199254740993)) := rfl
  obtain ⟨filter, hfilter, hholds⟩ := h totalColumn 9007199254740993 9007199254740992 _ hc hw
  obtain rfl := Except.ok.inj (hfilter.symm.trans (toFilter_int hc rfl _))
  let properties : Properties := ⟨[("Total", Codec.property .number (.int 9007199254740993))]⟩
  have hget : properties.get? totalColumn.name =
      some (Codec.property .number (.int 9007199254740993)) := rfl
  have hop : Comparison.eq.supports .number = true := rfl
  obtain ⟨found, hfound, hiff⟩ := integer_filter hc hop hw hget (.inl rfl)
  have hsame : nearest 9007199254740993 = nearest 9007199254740992 :=
    congrArg Binary64.value (by decide +kernel)
  rw [hiff.mpr hsame] at hfound
  exact absurd ((hholds _ hget).mp hfound) (by decide)

end Predicate
end DocTables
