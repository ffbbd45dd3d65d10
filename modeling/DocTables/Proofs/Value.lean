import DocTables.Proofs.Binary64.Nearest
import DocTables.Proofs.Codec.Canonical
import DocTables.Proofs.Codec.Kinds
import DocTables.Value.Untagged

/-!
Values and their documents. A value without infinities and NaNs is read back from its document, with
integers and floats apart, and a document whose integers have 64 bits is that of the value it is
read as. It makes no difference to what is read that a document does not name its kind.
-/
namespace DocTables

namespace Value

mutual

/-- The floats in a value, at any depth. -/
def floats : Value → List Binary64
  | .float x => [x]
  | .array items => floatsOfItems items
  | .map ⟨es⟩ => floatsOfFields es
  | _ => []

def floatsOfItems : List Value → List Binary64
  | [] => []
  | v :: vs => v.floats ++ floatsOfItems vs

def floatsOfFields : List (String × Value) → List Binary64
  | [] => []
  | (_, v) :: es => v.floats ++ floatsOfFields es

end

end Value

namespace Json

mutual

/-- The integers in a document, at any depth. -/
def integers : Json → List Int
  | .int n => [n]
  | .array items => integersOfItems items
  | .object ⟨es⟩ => integersOfFields es
  | _ => []

def integersOfItems : List Json → List Int
  | [] => []
  | j :: js => j.integers ++ integersOfItems js

def integersOfFields : List (String × Json) → List Int
  | [] => []
  | (_, j) :: es => j.integers ++ integersOfFields es

end

end Json

theorem int64?_isSome {n : Int} (h : -2 ^ 63 ≤ n ∧ n < 2 ^ 63) :
    ∃ m : Int64, int64? n = some m ∧ m.toInt = n := by
  have hmin : Int64.minValue.toInt = -2 ^ 63 := by decide
  have hmax : Int64.maxValue.toInt = 2 ^ 63 - 1 := by decide
  have hsome : int64? n = some (.ofInt n) := if_pos (by omega)
  exact ⟨_, hsome, int64?_eq_some hsome⟩

theorem int64?_eq_none {n : Int} (h : 2 ^ 63 ≤ n) : int64? n = none := by
  have hmax : Int64.maxValue.toInt = 2 ^ 63 - 1 := by decide
  exact if_neg (by omega)

namespace Value

mutual

theorem ofJson_toJson : ∀ v : Value, (∀ x ∈ v.floats, x.isFinite = true) → ofJson v.toJson = v
  | .null, _ | .bool _, _ | .string _, _ => rfl
  | .int n, _ => by
    rw [toJson, ofJson, int64?_toInt]
    rfl
  | .float x, h => by
    have hx : x.isFinite = true := h x (List.mem_singleton.mpr rfl)
    rw [toJson, Binary64.finite?, dif_pos hx]
    rfl
  | .array items, h => by
    rw [toJson, ofJson, ofJsonItems_toJsonItems items h]
  | .map ⟨es⟩, h => by
    rw [toJson, ofJson, ofJsonFields_toJsonFields es h]

theorem ofJsonItems_toJsonItems : ∀ vs : List Value,
    (∀ x ∈ floatsOfItems vs, x.isFinite = true) → ofJsonItems (toJsonItems vs) = vs
  | [], _ => rfl
  | v :: vs, h => by
    rw [floatsOfItems, List.forall_mem_append] at h
    rw [toJsonItems, ofJsonItems, ofJson_toJson v h.1, ofJsonItems_toJsonItems vs h.2]

theorem ofJsonFields_toJsonFields : ∀ es : List (String × Value),
    (∀ x ∈ floatsOfFields es, x.isFinite = true) → ofJsonFields (toJsonFields es) = es
  | [], _ => rfl
  | (k, v) :: es, h => by
    rw [floatsOfFields, List.forall_mem_append] at h
    rw [toJsonFields, ofJsonFields, ofJson_toJson v h.1, ofJsonFields_toJsonFields es h.2]

end

mutual

theorem toJson_ofJson : ∀ j : Json, (∀ n ∈ j.integers, -2 ^ 63 ≤ n ∧ n < 2 ^ 63) →
    (ofJson j).toJson = j
  | .null, _ | .bool _, _ | .string _, _ => rfl
  | .int n, h => by
    obtain ⟨m, hm, hn⟩ := int64?_isSome (h n (List.mem_singleton.mpr rfl))
    rw [ofJson, hm, Option.elim_some, toJson, hn]
  | .real x, _ => by
    rw [ofJson, toJson, Binary64.finite?, dif_pos x.finite]
    rfl
  | .array items, h => by
    rw [ofJson, toJson, toJsonItems_ofJsonItems items h]
  | .object ⟨es⟩, h => by
    rw [ofJson, toJson, toJsonFields_ofJsonFields es h]

theorem toJsonItems_ofJsonItems : ∀ js : List Json,
    (∀ n ∈ Json.integersOfItems js, -2 ^ 63 ≤ n ∧ n < 2 ^ 63) → toJsonItems (ofJsonItems js) = js
  | [], _ => rfl
  | j :: js, h => by
    rw [Json.integersOfItems, List.forall_mem_append] at h
    rw [ofJsonItems, toJsonItems, toJson_ofJson j h.1, toJsonItems_ofJsonItems js h.2]

theorem toJsonFields_ofJsonFields : ∀ es : List (String × Json),
    (∀ n ∈ Json.integersOfFields es, -2 ^ 63 ≤ n ∧ n < 2 ^ 63) →
      toJsonFields (ofJsonFields es) = es
  | [], _ => rfl
  | (k, j) :: es, h => by
    rw [Json.integersOfFields, List.forall_mem_append] at h
    rw [ofJsonFields, toJsonFields, toJson_ofJson j h.1, toJsonFields_ofJsonFields es h.2]

end

/-- An integer beyond 64 bits is refused as an integer, and read as the nearest float. -/
theorem ofUntagged?_int (n : Int) : ofUntagged? (.int n) = some (ofJson (.int n)) := by
  cases h : int64? n with
  | some m => simp [ofUntagged?, ValueKind.all, readAs?, ofJson, h]
  | none => simp [ofUntagged?, ValueKind.all, readAs?, ofJson, h]

mutual

theorem ofUntagged?_eq : ∀ j : Json, ofUntagged? j = some (ofJson j)
  | .null | .bool _ | .real _ | .string _ => by simp [ofUntagged?, ValueKind.all, readAs?, ofJson]
  | .int n => ofUntagged?_int n
  | .array items => by
    simp [ofUntagged?, ValueKind.all, readAs?, ofJson, ofUntaggedItems?_eq items]
  | .object ⟨es⟩ => by
    simp [ofUntagged?, ValueKind.all, readAs?, ofJson, ofUntaggedFields?_eq es]

theorem ofUntaggedItems?_eq : ∀ js : List Json, ofUntaggedItems? js = some (ofJsonItems js)
  | [] => by rw [ofUntaggedItems?, ofJsonItems]
  | j :: js => by
    rw [ofUntaggedItems?, ofUntagged?_eq j, ofUntaggedItems?_eq js]
    rfl

theorem ofUntaggedFields?_eq : ∀ es : List (String × Json),
    ofUntaggedFields? es = some (ofJsonFields es)
  | [] => by rw [ofUntaggedFields?, ofJsonFields]
  | (k, j) :: es => by
    rw [ofUntaggedFields?, ofUntagged?_eq j, ofUntaggedFields?_eq es]
    rfl

end

/-- Values whose floats are finite, and documents whose integers have 64 bits, are carried over
without loss in both directions. Without a named kind every document is read as the same value, and
an integer beyond the signed ones of 64 bits as the float nearest to it. -/
theorem documents_settle (v : Value) (j : Json) :
    ((∀ x ∈ v.floats, x.isFinite = true) → ofJson v.toJson = v) ∧
    ((∀ n ∈ j.integers, -2 ^ 63 ≤ n ∧ n < 2 ^ 63) → (ofJson j).toJson = j) ∧
    ofUntagged? j = some (ofJson j) ∧
    ∀ n : Int, 2 ^ 63 ≤ n → n < 2 ^ 64 →
      ofJson (.int n) = .float (.ofInt n) ∧ Binary64.IsNearest n (.ofInt n) := by
  refine ⟨ofJson_toJson v, toJson_ofJson j, ofUntagged?_eq j, fun n hlow hhigh => ⟨?_, ?_⟩⟩
  · rw [ofJson, int64?_eq_none hlow]
    rfl
  · exact Binary64.isNearest_ofInt (by omega)

/-- The number 3, once as an integer and once as a float. -/
def threes : Value :=
  .array [.int 3, .map ⟨[("float", .float ⟨0x4008000000000000⟩), ("none", .null)]⟩]

theorem documents_settle_threes :
    (∀ x ∈ threes.floats, x.isFinite = true) ∧ ofJson threes.toJson = threes ∧
    (∀ n ∈ threes.toJson.integers, -2 ^ 63 ≤ n ∧ n < 2 ^ 63) ∧
    (ofJson threes.toJson).toJson = threes.toJson ∧
    ofUntagged? (.array [.int (2 ^ 63)]) = some (.array [.float (.ofInt (2 ^ 63))]) ∧
    Binary64.IsNearest (2 ^ 63) (.ofInt (2 ^ 63)) := by
  have hfloats : ∀ x ∈ threes.floats, x.isFinite = true := by
    rw [show threes.floats = [⟨0x4008000000000000⟩] from rfl]
    decide
  have hintegers : ∀ n ∈ threes.toJson.integers, -2 ^ 63 ≤ n ∧ n < 2 ^ 63 := by
    rw [show threes.toJson.integers = [3] from rfl]
    decide
  obtain ⟨hvalue, -, -, hlarge⟩ := documents_settle threes .null
  obtain ⟨-, hdocument, -, -⟩ := documents_settle .null threes.toJson
  obtain ⟨-, -, hread, -⟩ := documents_settle .null (.array [.int (2 ^ 63)])
  obtain ⟨hfloat, hnearest⟩ := hlarge (2 ^ 63) le_rfl (by decide)
  refine ⟨hfloats, hvalue hfloats, hintegers, hdocument hintegers, ?_, hnearest⟩
  rw [hread, ofJson, ofJsonItems, hfloat]
  rfl

end Value
end DocTables
