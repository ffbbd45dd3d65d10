import DocTables.Column
import DocTables.Proofs.Codec.Canonical

/-!
Columns whose options are declared. A name is trimmed before it is looked up, and the options stand
as they were declared, so the names that can be stored are the options without blanks around them.
An option with such blanks is never stored.
-/
namespace DocTables
open Outcome

namespace Choice

/-- A name given by itself or under `name`, as it is after trimming, unless it is then empty. -/
def Names (v : Value) (name : String) : Prop :=
  ∃ s, v.named? "name" = some s ∧ name = Text.trim s ∧ name ≠ ""

/-- A name that can be stored: a declared one, not empty and without blanks around it. -/
def IsSendable (allowed : List String) (name : String) : Prop := name ∈ allowed ∧ IsName name

variable {allowed : List String} {v : Value} {name s : String}

theorem read_declared : read (some allowed) v = .ok name ↔ Names v name ∧ name ∈ allowed := by
  have hallowed : Allowed (some allowed) name ↔ name ∈ allowed := by
    simp [Allowed]
  simp only [read_eq_ok, Names, hallowed]
  constructor
  · rintro ⟨s, hs, hname, hne, hmem⟩
    exact ⟨⟨s, hs, hname, hne⟩, hmem⟩
  · rintro ⟨⟨s, hs, hname, hne⟩, hmem⟩
    exact ⟨s, hs, hname, hne, hmem⟩

theorem names_iff (h : v.named? "name" = some s) : Names v name ↔ name = Text.trim s ∧ name ≠ "" := by
  simp [Names, h]

theorem Names.isName (h : Names v name) : IsName name := by
  obtain ⟨s, -, rfl, hne⟩ := h
  exact isName_trim hne

/-- A name is read as itself just when it has no blanks around it. -/
theorem names_self (h : v.named? "name" = some s) : Names v s ↔ IsName s := by
  rw [names_iff h, IsName, eq_comm]

theorem forall₂_read_declared {items : List Value} {names : List String} :
    List.Forall₂ (fun v s => read (some allowed) v = .ok s) items names ↔
      List.Forall₂ Names items names ∧ ∀ name ∈ names, name ∈ allowed := by
  simp only [read_declared]
  constructor
  · intro h
    induction h with
    | nil => exact ⟨.nil, List.forall_mem_nil _⟩
    | cons h _ ih => exact ⟨.cons h.1 ih.1, List.forall_mem_cons.mpr ⟨h.2, ih.2⟩⟩
  · rintro ⟨h, hmem⟩
    induction h with
    | nil => exact .nil
    | cons h _ ih =>
      rw [List.forall_mem_cons] at hmem
      exact .cons ⟨h, hmem.1⟩ (ih hmem.2)

theorem toJson_injective : Function.Injective toJson := by
  intro a b h
  have hread := congrArg (·.field? "name") h
  simpa using hread

end Choice

namespace Column
open Choice
variable {c : Column} {kind : ChoiceKind} {allowed : List String} {v : Value} {w : Json}
  {s name : String}

theorem declareOptions_choice (h : c.type = kind.type) (options : Option (List String)) :
    (c.declareOptions options).codec = .choice kind options := by
  cases kind <;> simp [declareOptions, h, ChoiceKind.type]

theorem declareOptions_multiSelect (h : c.type = .multiSelect) (options : Option (List String)) :
    (c.declareOptions options).codec = .multiSelect options := by
  simp [declareOptions, h]

/-- The column stores a value under one name. -/
def StoresOne (c : Column) (v : Value) (name : String) : Prop :=
  c.codec.toWire v = .ok (Codec.property c.type (Choice.toJson name))

/-- The column stores a value under a list of names. -/
def StoresMany (c : Column) (v : Value) (names : List String) : Prop :=
  c.codec.toWire v = .ok (Codec.property c.type (.array (names.map Choice.toJson)))

theorem toWire_one (h : c.type = kind.type) :
    (c.declareOptions (some allowed)).codec.toWire v = .ok w ↔
      ∃ name, Names v name ∧ name ∈ allowed ∧ w = Codec.property c.type (Choice.toJson name) := by
  have htype : (Codec.choice kind (some allowed)).type = c.type := h.symm
  rw [declareOptions_choice h, Codec.toWire, Codec.content, htype]
  simp only [map_eq_ok, read_declared]
  constructor
  · rintro ⟨_, ⟨name, ⟨hname, hmem⟩, rfl⟩, rfl⟩
    exact ⟨name, hname, hmem, rfl⟩
  · rintro ⟨name, hname, hmem, rfl⟩
    exact ⟨_, ⟨name, ⟨hname, hmem⟩, rfl⟩, rfl⟩

theorem toWire_many (h : c.type = .multiSelect) :
    (c.declareOptions (some allowed)).codec.toWire v = .ok w ↔
      ∃ items names, v = .array items ∧ List.Forall₂ Names items names ∧
        (∀ name ∈ names, name ∈ allowed) ∧
        w = Codec.property c.type (.array (names.eraseDups.map Choice.toJson)) := by
  have htype : (Codec.multiSelect (some allowed)).type = c.type := h.symm
  rw [declareOptions_multiSelect h, Codec.toWire, htype]
  simp only [map_eq_ok, Codec.content_multiSelect, mapM_eq_ok, forall₂_read_declared, dedup_eq]
  constructor
  · rintro ⟨_, ⟨items, names, rfl, ⟨hnames, hmem⟩, rfl⟩, rfl⟩
    exact ⟨items, names, rfl, hnames, hmem, rfl⟩
  · rintro ⟨items, names, rfl, hnames, hmem, rfl⟩
    exact ⟨_, ⟨items, names, rfl, ⟨hnames, hmem⟩, rfl⟩, rfl⟩

theorem property_injective (t : PropertyType) : Function.Injective (Codec.property t) := by
  intro i j h
  have hread := congrArg (·.get? t.key) h
  simpa using hread

theorem storesOne_iff (h : c.type = kind.type) :
    (c.declareOptions (some allowed)).StoresOne v name ↔ Names v name ∧ name ∈ allowed := by
  have htype : (c.declareOptions (some allowed)).type = c.type := by
    rw [type, declareOptions_choice h, h]
    rfl
  rw [StoresOne, htype, toWire_one h]
  constructor
  · rintro ⟨_, hname, hmem, heq⟩
    obtain rfl := toJson_injective (property_injective _ heq)
    exact ⟨hname, hmem⟩
  · rintro ⟨hname, hmem⟩
    exact ⟨name, hname, hmem, rfl⟩

theorem storesMany_iff (h : c.type = .multiSelect) {names : List String} :
    (c.declareOptions (some allowed)).StoresMany v names ↔
      ∃ items given, v = .array items ∧ List.Forall₂ Names items given ∧
        (∀ name ∈ given, name ∈ allowed) ∧ names = given.eraseDups := by
  have htype : (c.declareOptions (some allowed)).type = c.type := by
    rw [type, declareOptions_multiSelect h, h]
    rfl
  rw [StoresMany, htype, toWire_many h]
  have hnames : ∀ given : List String,
      Codec.property c.type (.array (names.map Choice.toJson)) =
        Codec.property c.type (.array (given.eraseDups.map Choice.toJson)) ↔
      names = given.eraseDups := by
    intro given
    rw [(property_injective _).eq_iff, Json.array.injEq, toJson_injective.list_map.eq_iff]
  simp only [hnames]

/-- A list of one value is stored like the value by itself. -/
theorem storesMany_single (h : c.type = .multiSelect) :
    (c.declareOptions (some allowed)).StoresMany (.array [v]) [name] ↔
      Names v name ∧ name ∈ allowed := by
  have hsingle (s : String) : [s].eraseDups = [s] := rfl
  rw [storesMany_iff h]
  constructor
  · rintro ⟨_, given, hitems, hgiven, hmem, heq⟩
    obtain rfl := Value.array.inj hitems
    obtain ⟨s, _, hs, hnil, rfl⟩ := List.forall₂_cons_left_iff.mp hgiven
    obtain rfl := List.forall₂_nil_left_iff.mp hnil
    rw [hsingle] at heq
    obtain rfl := List.singleton_injective heq
    exact ⟨hs, hmem name List.mem_cons_self⟩
  · rintro ⟨hname, hmem⟩
    have hall := List.forall_mem_singleton.mpr hmem
    exact ⟨[v], [name], rfl, .cons hname .nil, hall, (hsingle name).symm⟩

/-- Two columns that take one option and several of them, declared for both. What they accept is
sent under declared names. A name is sent as it is given just when it is a declared one without
blanks around it, and these names are all that is ever sent. -/
theorem options_settle {one many : Column} {kind : ChoiceKind} (hone : one.type = kind.type)
    (hmany : many.type = .multiSelect) (allowed : List String) :
    (∀ v w, (one.declareOptions (some allowed)).codec.toWire v = .ok w ↔
      ∃ name, Names v name ∧ name ∈ allowed ∧
        w = Codec.property one.type (Choice.toJson name)) ∧
    (∀ v w, (many.declareOptions (some allowed)).codec.toWire v = .ok w ↔
      ∃ items names, v = .array items ∧ List.Forall₂ Names items names ∧
        (∀ name ∈ names, name ∈ allowed) ∧
        w = Codec.property many.type (.array (names.eraseDups.map Choice.toJson))) ∧
    (∀ s v, v.named? "name" = some s →
      ((one.declareOptions (some allowed)).StoresOne v s ↔ IsSendable allowed s) ∧
      ((many.declareOptions (some allowed)).StoresMany (.array [v]) [s] ↔
        IsSendable allowed s)) ∧
    ∀ s, (IsSendable allowed s ↔ ∃ v, (one.declareOptions (some allowed)).StoresOne v s) ∧
      (IsSendable allowed s ↔
        ∃ v names, (many.declareOptions (some allowed)).StoresMany v names ∧ s ∈ names) := by
  have hself (s : String) (v : Value) (hs : v.named? "name" = some s) :
      Names v s ∧ s ∈ allowed ↔ IsSendable allowed s := by
    rw [names_self hs, IsSendable, and_comm]
  refine ⟨fun v w => toWire_one hone, fun v w => toWire_many hmany, fun s v hs => ⟨?_, ?_⟩,
    fun s => ⟨⟨fun h => ?_, ?_⟩, ⟨fun h => ?_, ?_⟩⟩⟩
  · rw [storesOne_iff hone, hself s v hs]
  · rw [storesMany_single hmany, hself s v hs]
  · exact ⟨.string s, (storesOne_iff hone).mpr ((hself s (.string s) rfl).mpr h)⟩
  · rintro ⟨v, hv⟩
    obtain ⟨hname, hmem⟩ := (storesOne_iff hone).mp hv
    exact ⟨hmem, hname.isName⟩
  · have hstored := (storesMany_single hmany).mpr ((hself s (.string s) rfl).mpr h)
    exact ⟨_, [s], hstored, List.mem_cons_self⟩
  · rintro ⟨v, names, hv, hs⟩
    obtain ⟨items, given, rfl, hgiven, hmem, rfl⟩ := (storesMany_iff hmany).mp hv
    rw [List.mem_eraseDups] at hs
    obtain ⟨item, -, hname⟩ := (exists_mem_of_forall₂ hgiven).2 s hs
    exact ⟨hmem s hs, hname.isName⟩

/-- A status, and tags. -/
def stateColumn : Column := .ofType .status "State"

def tagsColumn : Column := .ofType .multiSelect "Tags"

/-- An option with a blank inside is sent as it is, by both columns. -/
theorem options_settle_inReview :
    (stateColumn.declareOptions (some ["Open", "In review"])).StoresOne
        (.ofFields [("name", .string "In review")]) "In review" ∧
      (tagsColumn.declareOptions (some ["Open", "In review"])).StoresMany
        (.array [.string "In review"]) ["In review"] := by
  have hone : stateColumn.type = ChoiceKind.status.type := rfl
  have hmany : tagsColumn.type = .multiSelect := rfl
  obtain ⟨-, -, hself, -⟩ := options_settle hone hmany ["Open", "In review"]
  have hsendable : IsSendable ["Open", "In review"] "In review" := ⟨by decide, by decide, by decide⟩
  exact ⟨(hself _ (.ofFields [("name", .string "In review")]) rfl).1.mpr hsendable,
    (hself _ (.string "In review") rfl).2.mpr hsendable⟩

/-- A declared option with a blank at its end is not sent. -/
theorem not_forall_option_sent : ¬ ∀ (c : Column) (allowed : List String) (s : String),
    c.type = .status → s ∈ allowed → s ≠ "" →
    (c.declareOptions (some allowed)).StoresOne (.string s) s := by
  intro h
  have hstored := h stateColumn ["Open", "Done "] "Done " rfl (by decide) (by decide)
  have hstatus : stateColumn.type = ChoiceKind.status.type := rfl
  obtain ⟨hname, -⟩ := (storesOne_iff hstatus).mp hstored
  exact absurd hname.isName.1 (by decide)

end Column
end DocTables
