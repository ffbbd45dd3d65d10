import DocTables.Proofs.Column.Rows

/-!
What becomes of the values of a row. Rows go by the keys of columns and properties by their names,
and of several values under one name only the last one stays.
-/
namespace DocTables
open Outcome

/-- A value for a column under its key. -/
structure Cell where
  key : String
  column : Column
  value : Value

namespace Cell

def name (x : Cell) : String := x.column.name

def payload (x : Cell) : Except TableError Json := Columns.payload x.key x.column x.value

/-- The entry that a value becomes in the properties. -/
def Becomes (x : Cell) (p : String × Json) : Prop := p.1 = x.name ∧ x.payload = .ok p.2

variable {cells : List Cell} {es : List (String × Json)}

theorem names_eq (h : List.Forall₂ Becomes cells es) : es.map Prod.fst = cells.map name := by
  induction h with
  | nil => rfl
  | cons hp _ ih => rw [List.map_cons, List.map_cons, hp.1, ih]

theorem payloads_under (h : List.Forall₂ Becomes cells es) (k : String) :
    List.Forall₂ Becomes (cells.filter (·.name = k)) (es.filter (·.1 = k)) := by
  induction h with
  | nil => exact .nil
  | @cons x p _ _ hp _ ih =>
    by_cases hk : x.name = k
    · rw [List.filter_cons_of_pos (by simp [hk]), List.filter_cons_of_pos (by simp [hp.1, hk])]
      exact .cons hp ih
    · rw [List.filter_cons_of_neg (by simp [hk]), List.filter_cons_of_neg (by simp [hp.1, hk])]
      exact ih

theorem getLast?_payloads (h : List.Forall₂ Becomes cells es) :
    es.getLast?.map (fun p => .ok p.2) = cells.getLast?.map payload := by
  induction h with
  | nil => rfl
  | @cons x p xs ps hp hrest ih =>
    cases hrest with
    | nil => simp [hp.2]
    | cons _ _ => simpa [List.getLast?_cons_cons] using ih

end Cell

namespace Columns
variable {columns : Columns} {row : Row} {properties : Properties} {cells : List Cell}
  {es : List (String × Json)}

/-- Under each name, the properties hold the payload of the last value for a column of that name. -/
def HoldsLast (cells : List Cell) (properties : Properties) : Prop :=
  ∀ name, (properties.get? name).map .ok = (cells.filter (·.name = name)).getLast?.map Cell.payload

theorem holdsLast_ofList (h : List.Forall₂ Cell.Becomes cells es) :
    HoldsLast cells (.ofList es) := by
  intro name
  rw [← Cell.getLast?_payloads (Cell.payloads_under h name), KeyMap.get?_ofList_eq_getLast?,
    Option.map_map]
  rfl

/-- As many properties as values, when their columns have different names. -/
theorem size_eq_iff (h : List.Forall₂ Cell.Becomes cells es) :
    (KeyMap.ofList es).size = cells.length ↔ (cells.map Cell.name).Nodup := by
  rw [h.length_eq, KeyMap.size_ofList_eq_iff, Cell.names_eq h]

/-- No value takes the place of another one. -/
theorem holds_of_nodup (h : List.Forall₂ Cell.Becomes cells es)
    (hn : (cells.map Cell.name).Nodup) {x : Cell} (hx : x ∈ cells) :
    ∃ j, x.payload = .ok j ∧ (KeyMap.ofList es).get? x.name = some j := by
  obtain ⟨p, hp, hname, hpayload⟩ := (exists_mem_of_forall₂ h).1 x hx
  refine ⟨p.2, hpayload, ?_⟩
  have hkeys : (es.map Prod.fst).Nodup := (Cell.names_eq h).symm ▸ hn
  rw [KeyMap.get?_ofList, KeyMap.lookup_reverse hkeys]
  exact KeyMap.lookup_of_mem hkeys (hname ▸ hp)

/-- The values of a patch. -/
def patchCells (columns : Columns) (patch : Row) : List Cell :=
  patch.entries.filterMap fun e => (columns.get? e.1).map fun c => ⟨e.1, c, e.2⟩

/-- The value that a new record gets in a column: the supplied one, else the default. -/
def value? (row : Row) (key : String) (c : Column) : Option Value :=
  (row.get? key).or (if c.isMaintained then none else c.fallback?)

/-- The values that a new record gets, defaults included. -/
def rowCells (columns : Columns) (row : Row) : List Cell :=
  columns.entries.filterMap fun e => (value? row e.1 e.2).map fun v => ⟨e.1, e.2, v⟩

/-- Every value of an accepted patch is for a column, and becomes an entry of the properties. -/
theorem becomes_patchCells {entries : List (String × Value)}
    (h : List.Forall₂ (fun e p => updateField columns e = .ok p) entries es) :
    List.Forall₂ Cell.Becomes (columns.patchCells ⟨entries⟩) es ∧
      (columns.patchCells ⟨entries⟩).map (fun x => (x.key, x.value)) = entries := by
  induction h with
  | nil => exact ⟨.nil, rfl⟩
  | @cons e p entries es hp _ ih =>
    obtain ⟨c, hc, hname, hpayload⟩ := updateField_eq_ok hp
    have hcons : columns.patchCells ⟨e :: entries⟩ =
        ⟨e.1, c, e.2⟩ :: columns.patchCells ⟨entries⟩ := by
      simp [patchCells, hc]
    rw [hcons]
    exact ⟨.cons ⟨hname, hpayload⟩ ih.1, by rw [List.map_cons, ih.2]⟩

theorem value?_of_insertField {key : String} {c : Column} {o : Option (String × Json)}
    (h : insertField row (key, c) = .ok o) :
    value? row key c = none ∧ o = none ∨
      ∃ v j, value? row key c = some v ∧ payload key c v = .ok j ∧ o = some (c.name, j) := by
  rcases insertField_eq_ok h with ⟨hmaintained, hrow, rfl⟩ | ⟨hwritable, hfilled⟩
  · exact .inl ⟨by simp [value?, hrow, hmaintained], rfl⟩
  · have hvalue : value? row key c = (row.get? key).or c.fallback? := by simp [value?, hwritable]
    rwa [hvalue]

theorem becomes_rowCells {entries : List (String × Column)} {os : List (Option (String × Json))}
    (h : List.Forall₂ (fun e o => insertField row e = .ok o) entries os) :
    List.Forall₂ Cell.Becomes (rowCells ⟨entries⟩ row) (os.filterMap id) := by
  induction h with
  | nil => exact .nil
  | @cons e o entries os ho _ ih =>
    obtain ⟨key, c⟩ := e
    rcases value?_of_insertField ho with ⟨hvalue, rfl⟩ | ⟨v, j, hvalue, hj, rfl⟩
    · simpa [rowCells, hvalue] using ih
    · have hcons : rowCells ⟨(key, c) :: entries⟩ row = ⟨key, c, v⟩ :: rowCells ⟨entries⟩ row := by
        simp [rowCells, hvalue]
      rw [hcons]
      exact .cons ⟨rfl, hj⟩ ih

theorem mem_patchCells {x : Cell} :
    x ∈ columns.patchCells row ↔
      (x.key, x.value) ∈ row.entries ∧ columns.get? x.key = some x.column := by
  simp only [patchCells, List.mem_filterMap, Option.map_eq_some_iff]
  constructor
  · rintro ⟨e, he, c, hc, rfl⟩
    exact ⟨he, hc⟩
  · rintro ⟨he, hc⟩
    exact ⟨_, he, _, hc, rfl⟩

/-- With distinct names a property stands under one key. -/
theorem key_eq_of_name_eq (hnames : columns.NamesDistinct) {key key' : String} {c c' : Column}
    (hc : columns.get? key = some c) (hc' : columns.get? key' = some c') (h : c.name = c'.name) :
    key = key' :=
  congrArg Prod.fst (List.inj_on_of_nodup_map (nodup_names hnames) (KeyMap.mem_of_get? hc)
    (KeyMap.mem_of_get? hc') h)

theorem nodup_patchCells (hnames : columns.NamesDistinct) (hrow : row.Sorted) :
    ((columns.patchCells row).map Cell.name).Nodup := by
  refine List.pairwise_map.mpr (List.pairwise_filterMap.mpr (hrow.imp ?_))
  intro e e' hlt x hx x' hx' hname
  obtain ⟨c, hc, rfl⟩ := Option.map_eq_some_iff.mp hx
  obtain ⟨c', hc', rfl⟩ := Option.map_eq_some_iff.mp hx'
  exact hlt.ne (key_eq_of_name_eq hnames hc hc' hname)

theorem nodup_rowCells (hnames : columns.NamesDistinct) (row : Row) :
    ((columns.rowCells row).map Cell.name).Nodup := by
  refine List.pairwise_map.mpr (List.pairwise_filterMap.mpr ?_)
  refine (List.pairwise_map.mp (nodup_names hnames)).imp ?_
  intro e e' hne x hx x' hx' hname
  obtain ⟨v, -, rfl⟩ := Option.map_eq_some_iff.mp hx
  obtain ⟨v', -, rfl⟩ := Option.map_eq_some_iff.mp hx'
  exact hne hname

theorem patchCells_of_ok (h : columns.updateProperties row = .ok properties) :
    ∃ es, List.Forall₂ Cell.Becomes (columns.patchCells row) es ∧ properties = .ofList es ∧
      (columns.patchCells row).map (fun x => (x.key, x.value)) = row.entries := by
  obtain ⟨es, hes, rfl⟩ := updateProperties_eq_ok h
  obtain ⟨hbecomes, hentries⟩ := becomes_patchCells hes
  exact ⟨es, hbecomes, rfl, hentries⟩

theorem rowCells_of_ok (h : columns.insertProperties row = .ok properties) :
    ∃ es, List.Forall₂ Cell.Becomes (columns.rowCells row) es ∧ properties = .ofList es := by
  obtain ⟨os, hos, rfl⟩ := insertProperties_eq_ok h
  exact ⟨os.filterMap id, becomes_rowCells hos, rfl⟩

/-- With distinct names, the payload of every value of a patch is in its properties. -/
theorem get?_updateProperties (h : columns.updateProperties row = .ok properties)
    (hnames : columns.NamesDistinct) (hrow : row.Sorted) {key : String} {v : Value}
    (hv : row.get? key = some v) :
    ∃ c j, columns.get? key = some c ∧ payload key c v = .ok j ∧
      properties.get? c.name = some j := by
  obtain ⟨es, hes, rfl, hentries⟩ := patchCells_of_ok h
  have hmem := KeyMap.mem_of_get? hv
  rw [← hentries] at hmem
  obtain ⟨x, hx, hkey⟩ := List.mem_map.mp hmem
  obtain ⟨rfl, rfl⟩ := Prod.mk.inj hkey
  obtain ⟨j, hj, hget⟩ := holds_of_nodup hes (nodup_patchCells hnames hrow) hx
  exact ⟨x.column, j, (mem_patchCells.mp hx).2, hj, hget⟩

/-- A row that is accepted has a column for every key. -/
theorem exists_column_of_insert (h : columns.insertProperties row = .ok properties)
    {key : String} {v : Value} (hv : row.get? key = some v) :
    ∃ c, columns.get? key = some c ∧ ⟨key, c, v⟩ ∈ columns.rowCells row := by
  obtain ⟨_, hcheck, -⟩ := bind_eq_ok.mp h
  unfold checkKeys at hcheck
  split at hcheck
  next => simp at hcheck
  next hnone =>
    have hmem : key ∈ row.keys := List.mem_map_of_mem (f := Prod.fst) (KeyMap.mem_of_get? hv)
    have hcontains : columns.contains key = true := by
      simpa using List.find?_eq_none.mp hnone key hmem
    obtain ⟨c, hc⟩ := Option.isSome_iff_exists.mp hcontains
    refine ⟨c, hc, List.mem_filterMap.mpr ⟨(key, c), KeyMap.mem_of_get? hc, ?_⟩⟩
    simp [value?, hv]

/-- What properties make of values: under each name stands the payload of the last one. There are
as many properties as values when no two of them have columns of one name, and then every payload
is there. -/
structure Keeps (cells : List Cell) (properties : Properties) : Prop where
  last : HoldsLast cells properties
  size : properties.size = cells.length ↔ (cells.map Cell.name).Nodup
  all : (cells.map Cell.name).Nodup →
    ∀ x ∈ cells, ∃ j, x.payload = .ok j ∧ properties.get? x.name = some j

theorem keeps_ofList (h : List.Forall₂ Cell.Becomes cells es) : Keeps cells (.ofList es) :=
  ⟨holdsLast_ofList h, size_eq_iff h, fun hn _ hx => holds_of_nodup h hn hx⟩

/-- A patch and a new row lose a value only to a later one whose column stands for the same
property. When the columns have different names, none is lost. -/
theorem payloads_settle (columns : Columns) (row : Row) (properties : Properties) :
    (columns.updateProperties row = .ok properties →
      (columns.patchCells row).map (fun x => (x.key, x.value)) = row.entries ∧
      Keeps (columns.patchCells row) properties ∧
      (columns.NamesDistinct → row.Sorted → ((columns.patchCells row).map Cell.name).Nodup)) ∧
    (columns.insertProperties row = .ok properties →
      (∀ key v, row.get? key = some v →
        ∃ c, columns.get? key = some c ∧ ⟨key, c, v⟩ ∈ columns.rowCells row) ∧
      Keeps (columns.rowCells row) properties ∧
      (columns.NamesDistinct → ((columns.rowCells row).map Cell.name).Nodup)) := by
  constructor
  · intro h
    obtain ⟨es, hes, rfl, hentries⟩ := patchCells_of_ok h
    exact ⟨hentries, keeps_ofList hes, nodup_patchCells⟩
  · intro h
    obtain ⟨es, hes, rfl⟩ := rowCells_of_ok h
    exact ⟨fun key v hv => exists_column_of_insert h hv, keeps_ofList hes,
      fun hnames => nodup_rowCells hnames row⟩

/-- Points, and who got them. -/
def awards : Columns := ⟨[("points", .ofType .number "Points"), ("who", .ofType .richText "Who")]⟩

theorem payloads_settle_awards :
    ∃ properties,
      awards.updateProperties ⟨[("points", .int 2), ("who", .string "Ada")]⟩ = .ok properties ∧
        properties.size = 2 := by
  have hnames : awards.NamesDistinct := by
    unfold NamesDistinct
    decide
  have hrow : KeyMap.Sorted ⟨[("points", Value.int 2), ("who", .string "Ada")]⟩ :=
    List.pairwise_pair.mpr (by decide)
  have haccepted : ∃ properties,
      awards.updateProperties ⟨[("points", .int 2), ("who", .string "Ada")]⟩ = .ok properties :=
    ⟨_, rfl⟩
  obtain ⟨properties, h⟩ := haccepted
  obtain ⟨hentries, hkeeps, hdistinct⟩ := (payloads_settle awards _ properties).1 h
  have hlength := congrArg List.length hentries
  rw [List.length_map] at hlength
  exact ⟨properties, h, (hkeeps.size.mpr (hdistinct hnames hrow)).trans hlength⟩

/-- Two columns of one name, of which the second has a default. -/
def twice : Columns :=
  ⟨[("a", .ofType .number "Points"), ("b", .withDefault (.int 2) (.ofType .number "Points"))]⟩

/-- A default takes the place of a value that was supplied under another key. -/
theorem not_forall_payloads_kept :
    ¬ ∀ (columns : Columns) (row : Row) (properties : Properties),
      columns.insertProperties row = .ok properties ∨
        columns.updateProperties row = .ok properties →
      ∀ key v, row.get? key = some v →
        ∃ c j, columns.get? key = some c ∧ payload key c v = .ok j ∧
          properties.get? c.name = some j := by
  intro h
  have hinsert : twice.insertProperties ⟨[("a", .int 1)]⟩ =
      .ok (.ofList [("Points", Codec.property .number (.int 1)),
        ("Points", Codec.property .number (.int 2))]) := rfl
  obtain ⟨c, j, hc, hj, hget⟩ := h twice _ _ (.inl hinsert) "a" (.int 1) rfl
  obtain rfl : Column.ofType .number "Points" = c := Option.some.inj hc
  obtain rfl : Codec.property .number (.int 1) = j := Except.ok.inj hj
  have hlost : Codec.property .number (.int 2) = Codec.property .number (.int 1) :=
    Option.some.inj hget
  have hnumber := congrArg (fun p => p.get? PropertyType.number.key) hlost
  simp [Codec.get?_property] at hnumber

end Columns
end DocTables
