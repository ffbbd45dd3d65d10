import DocTables.Proofs.Table.Paging
import DocTables.Proofs.Workspace.Reached

/-!
Inserted rows: what a row holds in each column once it is in the store, and that reading and listing
give it back while all other rows stay as they were.
-/
namespace DocTables
open Outcome Effect

/-- The records of a data source are decoded by every table that fits it. -/
theorem Table.Fits.decodes {t : Table} {m : Memory} (h : t.Fits m) {record : Record}
    (hholds : m.Holds t.collection.source record.properties) :
    ∃ e, t.columns.decode record = .ok e := by
  refine Columns.decode_total fun e he p hp => ?_
  obtain ⟨type, hdeclares, hwritten⟩ := hholds e.2.name p hp
  rwa [(h e he).unique hdeclares]

/-- The value of a column in an inserted row: the canonical form of the value that was supplied, or
else of the default; the decoded empty payload for null; without a value, null if the column accepts
it and otherwise nothing; and for a maintained column what the store has assigned. -/
structure Column.Settled (c : Column) (config : Json) (now : String) (number : Nat)
    (supplied result : Option Value) : Prop where
  value : c.isMaintained = false → ∀ v, supplied.or c.fallback? = some v → v ≠ .null →
    ∃ w u, c.codec.toWire v = .ok w ∧ c.codec.ofWire w = .ok u ∧ result = some u
  null : c.isMaintained = false → supplied.or c.fallback? = some .null →
    ∃ u, c.codec.ofWire c.codec.empty = .ok u ∧ result = some u
  absent : c.isMaintained = false → supplied.or c.fallback? = none →
    result = if c.acceptsNull then some .null else none
  assigned : c.isMaintained = true → ∃ content u,
    Stamp.content? c.type config now number = some content ∧
      c.codec.ofWire (Stamp.property c.type content) = .ok u ∧ result = some u

namespace Columns
variable {columns : Columns} {row : Row} {properties : Properties} {m : Memory} {source : String}
  {found : Collection} {key : String} {c : Column} {config : Json}

/-- A column of a new record settles on what was put into it. -/
theorem settled {o : Option (String × Json)} (hfield : insertField row (key, c) = .ok o)
    {stored : Properties} {now : String} {number : Nat}
    (hget : stored.get? c.name =
      ((Stamp.content? c.type config now number).map (Stamp.property c.type)).or
        ((o.map Prod.snd).map Stamp.tagged))
    {r : Option (String × Value)} (hdecode : decodeField stored (key, c) = .ok r) :
    c.Settled config now number (row.get? key) (r.map Prod.snd) := by
  have hsome := Stamp.isSome_content? c.type config now number
  cases hm : c.isMaintained with
  | true =>
    rw [show c.type.isMaintained = true from hm] at hsome
    obtain ⟨content, hcontent⟩ := Option.isSome_iff_exists.mp hsome
    rw [hcontent, Option.map_some, Option.some_or] at hget
    obtain ⟨u, hu, rfl⟩ := decodeField_of_some hget hdecode
    refine ⟨?_, ?_, ?_, fun _ => ⟨content, u, hcontent, hu, rfl⟩⟩
    · exact fun hw => nomatch hm.symm.trans hw
    · exact fun hw => nomatch hm.symm.trans hw
    · exact fun hw => nomatch hm.symm.trans hw
  | false =>
    rw [show c.type.isMaintained = false from hm, Option.isSome_eq_false_iff,
      Option.isNone_iff_eq_none] at hsome
    rw [hsome, Option.map_none, Option.none_or] at hget
    rcases insertField_eq_ok hfield with ⟨hm', -⟩ | ⟨-, ⟨hnone, rfl⟩ | ⟨v, j, hv, hj, rfl⟩⟩
    · exact nomatch hm.symm.trans hm'
    · have hfallback : c.fallback? = none := (Option.or_eq_none_iff.mp hnone).2
      obtain rfl := decodeField_of_none hget hfallback hdecode
      refine ⟨?_, ?_, ?_, fun h => nomatch hm.symm.trans h⟩
      · exact fun _ v hv => nomatch hnone.symm.trans hv
      · exact fun _ hv => nomatch hnone.symm.trans hv
      · intro _ _
        split <;> rfl
    · obtain ⟨u, hu, rfl⟩ := decodeField_of_some hget hdecode
      rw [ofWire_payload hj] at hu
      obtain ⟨-, hpayload⟩ := payload_eq_ok hj
      refine ⟨?_, ?_, ?_, fun h => nomatch hm.symm.trans h⟩
      · intro _ v' hv' hne
        obtain rfl := Option.some.inj (hv.symm.trans hv')
        rcases hpayload with ⟨hnull, -⟩ | ⟨-, hw⟩
        · exact absurd hnull hne
        · exact ⟨j, u, hw, hu, rfl⟩
      · intro _ hnull
        obtain rfl := Option.some.inj (hv.symm.trans hnull)
        rcases hpayload with ⟨-, -, rfl⟩ | ⟨hne, -⟩
        · exact ⟨u, hu, rfl⟩
        · exact absurd rfl hne
      · exact fun _ hnone => nomatch hv.symm.trans hnone

/-- Every column of a new record settles on what was put into it. -/
theorem settled_newRecord (hrow : columns.insertProperties row = .ok properties)
    (hsorted : columns.Sorted) (hnames : columns.NamesDistinct)
    (hdeclared : columns.Declared found.properties) (hs : found.properties.Sorted)
    {e : DecodedRecord} (he : columns.decode (m.newRecord found source properties) = .ok e)
    (hc : columns.get? key = some c) :
    ∃ config, found.properties.get? c.name = some config ∧
      c.Settled config (Stamp.time (m.writes + 1))
        (m.records.countP (fun s => s.source = source) + 1) (row.get? key) (e.row.get? key) := by
  have hmem := KeyMap.mem_of_get? hc
  obtain ⟨config, hconfig, htype⟩ := Option.bind_eq_some_iff.mp (hdeclared (key, c) hmem)
  obtain ⟨o, hfield, hproperty⟩ := get?_insertProperties hrow hnames hmem
  have hstored : (m.newRecord found source properties).properties.get? c.name = _ :=
    Memory.get?_newRecord hs hconfig htype
  rw [hproperty] at hstored
  obtain ⟨r, hr, hvalue⟩ := get?_readRow (decode_eq_ok he).2 hsorted hc
  rw [hvalue]
  exact ⟨config, hconfig, settled hfield hstored hr⟩

end Columns

namespace Workspace
variable {watch : Table → Prop} {w : Workspace} {t : Table} {row : Row} {properties : Properties}

/-- A watched table has a data source that it fits, with properties in order. -/
theorem Sound.table (h : w.Sound watch) (ht : watch t) :
    ∃ found, (w.memory t.store).collectionOf t.collection.source = .ok found ∧
      found.properties.Sorted ∧ t.columns.Declared found.properties ∧
        t.Fits (w.memory t.store) := by
  have hwatched : Watched watch t.store t.collection.source := ⟨t, ht, rfl, rfl⟩
  obtain ⟨id, hid⟩ := (h.memory t.store).registered hwatched
  obtain ⟨found, hfound, -⟩ := (h.memory t.store).coherent.collectionOf hid
  have hfits := h.fits t (.inl ht) hwatched
  refine ⟨found, hfound, ((h.memory t.store).typed hwatched).sorted hfound, ?_, hfits⟩
  intro e he
  obtain ⟨found', hfound', hdeclared⟩ := hfits e he
  obtain rfl := Except.ok.inj (hfound.symm.trans hfound')
  exact hdeclared

/-- Every record of a watched table is decoded. -/
theorem Sound.decodes (h : w.Sound watch) (ht : watch t) {r : Record}
    (hr : r ∈ (w.memory t.store).live t.collection.source) :
    ∃ e, t.columns.decode r = .ok e := by
  obtain ⟨-, -, -, -, hfits⟩ := h.table ht
  obtain ⟨s, hs, rfl⟩ := List.mem_map.mp hr
  obtain ⟨hmem, hlive⟩ := List.mem_filter.mp hs
  simp only [Bool.and_eq_true, decide_eq_true_eq] at hlive
  have htyped := (h.memory t.store).typed ⟨t, ht, rfl, rfl⟩
  exact hfits.decodes fun _ _ hp => htyped.written s hmem hlive.1 hp

theorem Sound.readable (h : w.Sound watch) (ht : watch t)
    (hroom : (w.memory t.store).records.length < UInt64.size) :
    t.Readable (w.memory t.store) := by
  obtain ⟨found, hfound, -⟩ := h.table ht
  have hworks := (h.memory t.store).coherent.failure? .query
  exact ⟨⟨found, hfound⟩, hworks, fun _ hr => h.decodes ht hr, hroom⟩

/-- The workspace after a record has been added to the data source of a table. -/
def withRow (w : Workspace) (t : Table) (properties : Properties) (record : Record) : Workspace :=
  w.setMemory t.store (((w.memory t.store).noted
    [.addRecord t.collection.source properties]).withRecord ⟨t.collection.source, record⟩)

theorem Sound.run_insert (h : w.Sound watch) (ht : watch t) {found : Collection}
    (hfound : (w.memory t.store).collectionOf t.collection.source = .ok found)
    (hrow : t.columns.insertProperties row = .ok properties) :
    ∃ e, t.columns.decode
        ((w.memory t.store).newRecord found t.collection.source properties) = .ok e ∧
      t.insert storeAt row w = (.ok e, w.withRow t properties e.record) ∧
      (w.withRow t properties e.record).Sound watch := by
  obtain ⟨found', hfound', hs, -, hfits⟩ := h.table ht
  obtain rfl := Except.ok.inj (hfound.symm.trans hfound')
  have haccepts := hfits.accepts (Columns.lowered_insertProperties hrow)
  obtain ⟨e, he⟩ := hfits.decodes (Memory.holds_newRecord hfound hs haccepts)
  obtain ⟨hrecord, -⟩ := Columns.decode_eq_ok he
  have hadd := Memory.addRecord_store_eq_ok hfound
    ((h.memory t.store).coherent.failure? .addRecord) properties
  rw [← hrecord] at hadd he
  have hrun : t.insert storeAt row w = (.ok e, w.withRow t properties e.record) := by
    have hstore : (storeAt t.store).addRecord t.collection.source properties w =
        (.ok e.record, w.withRow t properties e.record) := run_onStore hadd
    rw [Table.insert, hrow, run_bind_ok (run_checked _ _), Table.add,
      run_bind_ok (run_asking_ok hstore), Table.decode, he]
    rfl
  have hsound := (keeps_insert (.inl ht) row w h.follows).sound
  rw [hrun] at hsound
  exact ⟨e, hrecord ▸ he, hrun, hsound⟩

section WithRow
variable {record : Record}

theorem memory_withRow : (w.withRow t properties record).memory t.store =
    ((w.memory t.store).noted [.addRecord t.collection.source properties]).withRecord
      ⟨t.collection.source, record⟩ := memory_setMemory _ _ _

/-- A record that is not in the archive is listed behind the others. -/
theorem live_withRow (hlive : record.archived = false) :
    ((w.withRow t properties record).memory t.store).live t.collection.source =
      (w.memory t.store).live t.collection.source ++ [record] := by
  rw [memory_withRow]
  simp [Memory.live, Memory.withRecord, Memory.noted, hlive]

/-- A record under a new id is found under it. -/
theorem record?_withRow (hfresh : ∀ s ∈ (w.memory t.store).records, s.record.id ≠ record.id) :
    ((w.withRow t properties record).memory t.store).record? record.id = some record := by
  rw [memory_withRow]
  have hnone : (w.memory t.store).records.find? (fun s => s.record.id = record.id) = none :=
    List.find?_eq_none.mpr fun s hs => by simpa using hfresh s hs
  simp [Memory.record?, Memory.withRecord, Memory.noted, List.find?_append, hnone]

theorem run_row {id : String} {e : DecodedRecord}
    (hcoherent : (w.memory t.store).Coherent)
    (hrecord : (w.memory t.store).record? id = some record)
    (he : t.columns.decode record = .ok e) : (t.row storeAt id w).1 = .ok e := by
  have hread := Memory.readRecord_store_eq_ok hcoherent hrecord
  rcases hrun : Memory.store.readRecord id (w.memory t.store) with ⟨r, m⟩
  rw [hrun] at hread
  obtain rfl : r = .ok record := hread
  have hstore : (storeAt t.store).readRecord id w = (.ok record, w.setMemory t.store m) := by
    have hbind : (storeAt t.store).readRecord id = onStore t.store (Memory.store.readRecord id) :=
      (onStore_bind _ _ _).symm
    rw [hbind]
    exact run_onStore hrun
  rw [Table.row, run_bind_ok (run_asking_ok hstore), Table.decode, he]
  rfl

/-- An unfiltered selection lists every live record, oldest first. -/
theorem Sound.run_selectRest (h : w.Sound watch) (ht : watch t)
    (hroom : (w.memory t.store).records.length < UInt64.size) {s : Selection}
    (hcriteria : s.criteria = {}) (hcursor : s.cursor = none) (hexpand : s.expand = .empty)
    {rows : List DecodedRecord}
    (hrows : ((w.memory t.store).live t.collection.source).mapM t.columns.decode = .ok rows) :
    (selectRest t s w).1 = .ok rows := by
  have htyped : s.criteria.Typed none := by
    rw [hcriteria]
    exact ⟨rfl, rfl, rfl⟩
  have hfound : t.found s none (w.memory t.store) =
      (w.memory t.store).live t.collection.source := by
    simp [Table.found, Memory.found, hcriteria, Criteria.sortsJson]
  rw [← hfound] at hrows
  rw [Workspace.run_selectRest (h.readable ht hroom) htyped hexpand (.inl ⟨hcursor, rfl⟩) hrows]
  rfl

end WithRow

/-- A row that is accepted is inserted, in every workspace that is reached after its table was made
with its collection. It settles column by column, is read back under its new id, changes no other
record, and is listed behind the rows that were there before. -/
theorem insert_settled {w₀ w₁ w₂ : Workspace} {handle title parent : String} {context : Context}
    {columns : Columns} (hinitial : w₀.Initial) (hbefore : Reaches w₀ w₁)
    (hsorted : columns.Sorted) (hnames : columns.NamesDistinct)
    (hdefine : define handle title context columns (.under parent) w₁ = (.ok t, w₂))
    (hafter : Reaches w₂ w) (hrow : columns.insertProperties row = .ok properties) :
    let m := w.memory t.store
    let source := t.collection.source
    ∃ e w' found, t.insert storeAt row w = (.ok e, w') ∧ m.collectionOf source = .ok found ∧
      (∀ key c, columns.get? key = some c → ∃ config, found.properties.get? c.name = some config ∧
        c.Settled config (Stamp.time (m.writes + 1))
          (m.records.countP (fun s => s.source = source) + 1) (row.get? key) (e.row.get? key)) ∧
      (∀ key, columns.get? key = none → e.row.get? key = none) ∧
      (t.row storeAt e.record.id w').1 = .ok e ∧
      (∀ s ∈ m.records, s.record.id ≠ e.record.id) ∧
      (w'.memory t.store).records = m.records ++ [⟨source, e.record⟩] ∧
      (∀ name ≠ t.store, w'.memory name = w.memory name) ∧
      ∀ s : Selection, s.criteria = {} → s.cursor = none → s.expand = .empty →
        m.records.length + 1 < UInt64.size →
          ∃ rows, (m.live source).mapM t.columns.decode = .ok rows ∧
            (selectRest t s w).1 = .ok rows ∧ (selectRest t s w').1 = .ok (rows ++ [e]) := by
  intro m source
  obtain ⟨hmade, rfl⟩ := (hinitial.sound.reaches hbefore).define_under hnames hdefine
  have h := hmade.reaches hafter
  have ht : False ∨ t = t := .inr rfl
  obtain ⟨found, hfound, hs, hdeclared, -⟩ := h.table ht
  obtain ⟨e, he, hrun, hsound⟩ := h.run_insert ht hfound hrow
  obtain ⟨hrecord, hread⟩ := Columns.decode_eq_ok he
  have hfresh : ∀ s ∈ m.records, s.record.id ≠ e.record.id := by
    rw [hrecord]
    exact fun s hmem => (h.memory t.store).coherent.id_fresh hmem
  refine ⟨e, w.withRow t properties e.record, found, hrun, hfound, ?_, ?_, ?_, hfresh, ?_, ?_, ?_⟩
  · exact fun key c hc => Columns.settled_newRecord hrow hsorted hnames hdeclared hs he hc
  · exact fun key hc => Columns.get?_readRow_eq_none hread hc
  · exact run_row (hsound.memory t.store).coherent (record?_withRow hfresh) (hrecord ▸ he)
  · rw [memory_withRow]
    rfl
  · exact fun name hname => memory_setMemory_of_ne hname _ _
  · intro s hcriteria hcursor hexpand hroom
    obtain ⟨rows, hrows⟩ := mapM_total fun r (hr : r ∈ m.live source) => h.decodes ht hr
    have hall : (((w.withRow t properties e.record).memory t.store).live source).mapM
        t.columns.decode = .ok (rows ++ [e]) := by
      rw [live_withRow (by rw [hrecord]; rfl), mapM_eq_ok]
      exact List.rel_append (mapM_eq_ok.mp hrows) (.cons (hrecord ▸ he) .nil)
    have hroom' : ((w.withRow t properties e.record).memory t.store).records.length <
        UInt64.size := by
      rw [memory_withRow]
      simpa [Memory.withRecord, Memory.noted] using hroom
    refine ⟨rows, hrows, ?_, ?_⟩
    · exact h.run_selectRest ht (Nat.lt_of_succ_lt hroom) hcriteria hcursor hexpand hrows
    · exact hsound.run_selectRest ht hroom' hcriteria hcursor hexpand hall

/-- A title, a number that may be absent and is null then, and the time that the store assigns. -/
def taskColumns : Columns :=
  ⟨[("effort", { Column.ofType .number "Effort" with mayBeAbsent := true, acceptsNull := true }),
    ("made", .ofType .createdTime "Made"), ("title", .ofType .title "Title")]⟩

def taskRow : Row := ⟨[("title", .string " a ")]⟩

theorem insert_settled_task :
    ∃ t w₂ e w', define "tasks" "Tasks" ⟨"m", {}, 0⟩ taskColumns (.under "page") empty =
        (.ok t, w₂) ∧ t.insert storeAt taskRow w₂ = (.ok e, w') ∧
      e.row.get? "title" = some (.string "a") ∧ e.row.get? "effort" = some .null := by
  obtain ⟨t, w₂, hdefine⟩ := initial_empty.sound.define_total "tasks" "Tasks" ⟨"m", {}, 0⟩
    taskColumns "page"
  have hsorted : taskColumns.Sorted := by
    unfold KeyMap.Sorted taskColumns
    decide
  have hnames : taskColumns.NamesDistinct := by
    unfold Columns.NamesDistinct
    decide
  have hrow : taskColumns.insertProperties taskRow = .ok _ := rfl
  obtain ⟨e, w', found, hinsert, -, hsettled, -⟩ := insert_settled initial_empty .refl hsorted
    hnames hdefine .refl hrow
  refine ⟨t, w₂, e, w', hdefine, hinsert, ?_, ?_⟩
  · obtain ⟨config, -, htitle⟩ := hsettled "title" (.ofType .title "Title") rfl
    obtain ⟨w, u, hw, hu, hvalue⟩ := htitle.value rfl (.string " a ") rfl nofun
    have hround : (Codec.title.toWire (.string " a ")).bind Codec.title.ofWire =
        .ok (.string "a") := rfl
    have htrimmed : Codec.title.ofWire w = .ok (.string "a") := by
      rw [show Codec.title.toWire (.string " a ") = .ok w from hw] at hround
      exact hround
    rw [hvalue, Except.ok.inj (hu.symm.trans htrimmed)]
  · obtain ⟨config, -, heffort⟩ := hsettled "effort" _ rfl
    exact heffort.absent rfl rfl

end Workspace
end DocTables
