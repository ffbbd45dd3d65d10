import DocTables.Proofs.Store.Batch

/-!
The times of writes. Each write is stamped one second after the write before it, whatever happens in
between, and the texts of the times are in the order of the times of day. So a later write has a
greater text until the day is over, when the texts begin anew.
-/
namespace DocTables
open Outcome

namespace Stamp

section Fields
variable {a b : Nat} {us vs xs ys : List Char}

theorem toList_twoDigits (h : a < 100) :
    (twoDigits a).toList = [Nat.digitChar (a / 10), Nat.digitChar (a % 10)] := by
  unfold twoDigits
  split
  next hone =>
    have hzero : "0".toList = [Nat.digitChar 0] := rfl
    rw [String.toList_append, Nat.toString_eq_repr, Nat.toList_repr, Nat.toDigits_of_lt_base hone,
      Nat.div_eq_of_lt hone, Nat.mod_eq_of_lt hone, hzero]
    rfl
  next htwo =>
    have htens : a / 10 < 10 := by omega
    rw [Nat.toString_eq_repr, Nat.toList_repr, Nat.toDigits_of_base_le (by decide) (by omega),
      Nat.toDigits_of_lt_base htens]
    rfl

theorem digitChar_lt_iff : ∀ a < 10, ∀ b < 10, Nat.digitChar a < Nat.digitChar b ↔ a < b := by
  decide

theorem digitChar_inj : ∀ a < 10, ∀ b < 10, Nat.digitChar a = Nat.digitChar b ↔ a = b := by
  decide

/-- Texts with fields of equal width in front are compared by these first. -/
theorem append_lt_append_iff (h : us.length = vs.length) :
    us ++ xs < vs ++ ys ↔ us < vs ∨ us = vs ∧ xs < ys := by
  induction us generalizing vs with
  | nil =>
    obtain rfl := List.eq_nil_of_length_eq_zero h.symm
    simp
  | cons u us ih =>
    cases vs with
    | nil => exact nomatch h
    | cons v vs =>
      rw [List.cons_append, List.cons_append, List.cons_lt_cons_iff, List.cons_lt_cons_iff,
        ih (Nat.succ.inj h), List.cons.injEq]
      tauto

theorem twoDigits_inj (ha : a < 100) (hb : b < 100) :
    (twoDigits a).toList = (twoDigits b).toList ↔ a = b := by
  rw [toList_twoDigits ha, toList_twoDigits hb, List.cons.injEq, List.cons.injEq,
    digitChar_inj _ (by omega) _ (by omega), digitChar_inj _ (by omega) _ (by omega), eq_self,
    and_true]
  omega

theorem twoDigits_lt_iff (ha : a < 100) (hb : b < 100) :
    (twoDigits a).toList < (twoDigits b).toList ↔ a < b := by
  rw [toList_twoDigits ha, toList_twoDigits hb, List.cons_lt_cons_iff, List.cons_lt_cons_iff,
    digitChar_lt_iff _ (by omega) _ (by omega), digitChar_lt_iff _ (by omega) _ (by omega),
    digitChar_inj _ (by omega) _ (by omega)]
  simp only [List.not_lt_nil, and_false, or_false]
  omega

/-- A field of two digits decides, unless it shows the same number twice. -/
theorem twoDigits_append_lt_iff (ha : a < 100) (hb : b < 100) :
    (twoDigits a).toList ++ xs < (twoDigits b).toList ++ ys ↔ a < b ∨ a = b ∧ xs < ys := by
  have hwidth : (twoDigits a).toList.length = (twoDigits b).toList.length := by
    rw [toList_twoDigits ha, toList_twoDigits hb]
    rfl
  rw [append_lt_append_iff hwidth, twoDigits_lt_iff ha hb, twoDigits_inj ha hb]

end Fields

/-- The writes of a day. -/
def secondsPerDay : Nat := 86400

/-- The texts of times are in the order of the times of day. -/
theorem time_lt_time_iff {m n : Nat} :
    time m < time n ↔ m % secondsPerDay < n % secondsPerDay := by
  have hsame (us : List Char) {xs ys : List Char} : us ++ xs < us ++ ys ↔ xs < ys := by
    rw [append_lt_append_iff rfl]
    simp only [lt_irrefl, false_or, true_and]
  unfold time
  rw [String.lt_iff]
  simp only [String.toList_append, List.append_assoc, hsame]
  rw [twoDigits_append_lt_iff (by omega) (by omega), hsame,
    twoDigits_append_lt_iff (by omega) (by omega), hsame,
    twoDigits_append_lt_iff (by omega) (by omega), secondsPerDay]
  have hirrefl : ¬ ".000Z".toList < ".000Z".toList := lt_irrefl _
  simp only [hirrefl, and_false, or_false]
  omega

end Stamp

namespace Memory
variable {m m' : Memory} {source : String} {c : Collection}

section Writing

/-- The record that an event writes, as the call that adds or changes it answers. -/
def written? (m : Memory) : Event → Option Record
  | .call (.addRecord source ps) => (store.addRecord source ps m).1.toOption
  | .call (.changeRecord id change) => (store.changeRecord id change m).1.toOption
  | _ => none

/-- The records that a run writes, oldest first. -/
def written (m : Memory) (es : List Event) : List Record := gathered written? m es

theorem written_cons (m : Memory) (e : Event) (es : List Event) :
    written m (e :: es) = (written? m e).toList ++ written (e.act m) es := rfl

theorem written?_unwritten {e : Event}
    (hadd : ∀ source ps, e = .call (.addRecord source ps) →
      ∃ x, (store.addRecord source ps m).1 = .error x)
    (hchange : ∀ id change, e = .call (.changeRecord id change) →
      ∃ x, (store.changeRecord id change m).1 = .error x) : written? m e = none := by
  unfold written?
  split
  next source ps =>
    obtain ⟨x, hx⟩ := hadd source ps rfl
    rw [hx]
    rfl
  next id change =>
    obtain ⟨x, hx⟩ := hchange id change rfl
    rw [hx]
    rfl
  next => rfl

/-- A write takes the next number and its time, anything else takes no number. -/
theorem Done.written? {e : Event} (h : Done m e m') :
    m'.writes = m.writes + (written? m e).toList.length ∧
      ∀ r ∈ written? m e, r.edited = some (Stamp.time m'.writes) := by
  cases h with
  | @added source ps c hc hanswer =>
    have hwritten : Memory.written? m (.call (.addRecord source ps)) =
        some (m.newRecord c source ps) := congrArg Except.toOption hanswer
    rw [hwritten]
    refine ⟨rfl, fun r hr => ?_⟩
    rw [← Option.some.inj hr]
    rfl
  | @changed change s c hs hc hanswer =>
    have hwritten : Memory.written? m (.call (.changeRecord s.record.id change)) =
        some (Memory.changed c.properties (m.writes + 1) change s.record) :=
      congrArg Except.toOption hanswer
    rw [hwritten]
    refine ⟨rfl, fun r hr => ?_⟩
    rw [← Option.some.inj hr]
    rfl
  | unwritten _ hwrites hadd hchange =>
    rw [written?_unwritten hadd hchange]
    exact ⟨hwrites, nofun⟩

theorem writes_after (m : Memory) (es : List Event) :
    (m.after es).writes = m.writes + (written m es).length := by
  induction es generalizing m with
  | nil => rfl
  | cons e es ih =>
    rw [after_cons, ih, (done_act m e).written?.1, written_cons, List.length_append, Nat.add_assoc]

theorem length_written_addRecord (hc : m.collectionOf source = .ok c)
    (hworks : m.failure? .addRecord = none) (batch : List Properties) :
    (written m (batch.map fun ps => .call (.addRecord source ps))).length = batch.length := by
  have hwrites := writes_after m (batch.map fun ps => .call (.addRecord source ps))
  rw [after_addRecord hc hworks, withRecords, length_newRecords] at hwrites
  exact (Nat.add_left_cancel hwrites).symm

/-- The writes of a run have consecutive numbers, and each shows the time of its own. -/
theorem edited_written (m : Memory) (es : List Event) :
    (written m es).map (·.edited) =
      (List.range' (m.writes + 1) (written m es).length).map fun n => some (Stamp.time n) := by
  induction es generalizing m with
  | nil => rfl
  | cons e es ih =>
    obtain ⟨hwrites, htime⟩ := (done_act m e).written?
    rw [written_cons, List.map_append, ih, hwrites]
    cases hwritten : written? m e with
    | none => simp
    | some r =>
      rw [hwritten] at hwrites
      have hfirst := hwrites ▸ htime r hwritten
      simp [List.range'_succ, hfirst]

end Writing

section Order

/-- The time of one record is before that of another in the order of texts. -/
def Earlier (r r' : Record) : Prop := ∃ t ∈ r.edited, ∃ t' ∈ r'.edited, t < t'

theorem edited_getElem (es : List Event) {i : Nat} (hi : i < (written .empty es).length) :
    (written .empty es)[i].edited = some (Stamp.time (i + 1)) := by
  have htimes := congrArg (·[i]?) (edited_written .empty es)
  simp only [List.getElem?_map, List.getElem?_eq_getElem hi, Option.map_some,
    List.getElem?_range' hi] at htimes
  rw [Option.some.inj htimes]
  simp only [Memory.empty]
  congr 2
  omega

theorem earlier_iff (es : List Event) {i j : Nat} (hi : i < (written .empty es).length)
    (hj : j < (written .empty es).length) :
    Earlier (written .empty es)[i] (written .empty es)[j] ↔
      (i + 1) % Stamp.secondsPerDay < (j + 1) % Stamp.secondsPerDay := by
  rw [Earlier, edited_getElem es hi, edited_getElem es hj, ← Stamp.time_lt_time_iff]
  simp

/-- All the times of a run are in order as long as its writes fit into the day. -/
theorem pairwise_earlier_iff (es : List Event) :
    (written .empty es).Pairwise Earlier ↔ (written .empty es).length < Stamp.secondsPerDay := by
  rw [List.pairwise_iff_getElem]
  constructor
  · intro h
    by_contra hlong
    -- The write at the end of the day shows its beginning again.
    have hlast : Stamp.secondsPerDay - 1 < (written .empty es).length := by
      unfold Stamp.secondsPerDay at hlong ⊢
      omega
    have hfirst : 0 < (written .empty es).length := by omega
    exact absurd ((earlier_iff es hfirst hlast).mp (h _ _ hfirst hlast (by decide))) (by decide)
  · intro hshort i j hi hj hij
    rw [earlier_iff es hi hj, Nat.mod_eq_of_lt (by omega), Nat.mod_eq_of_lt (by omega)]
    omega

/-- The writes of a run, be they records that are added or changed, are stamped with the times of
their numbers. Of two of them the one with the greater text is the one later in the day, so a run
shows its order until it has as many writes as the day has seconds, and no longer. -/
theorem times_settle (es : List Event) :
    (written .empty es).map (·.edited) =
      (List.range' 1 (written .empty es).length).map (fun n => some (Stamp.time n)) ∧
    (∀ i j (hi : i < (written .empty es).length) (hj : j < (written .empty es).length),
      Earlier (written .empty es)[i] (written .empty es)[j] ↔
        (i + 1) % Stamp.secondsPerDay < (j + 1) % Stamp.secondsPerDay) ∧
    ((written .empty es).Pairwise Earlier ↔
      (written .empty es).length < Stamp.secondsPerDay) :=
  ⟨edited_written .empty es, fun _ _ hi hj => earlier_iff es hi hj, pairwise_earlier_iff es⟩

def notesOpened : Event := .call (.addCollection "page" "Notes" .empty)

/-- A note is added and changed, and a change of another one fails. -/
def noteEdits : List Event :=
  [notesOpened, .call (.addRecord "new-ds-1" .empty),
    .call (.changeRecord "rec-2" (.archived true)),
    .call (.changeRecord "rec-1" (.archived true))]

theorem times_settle_notes : ∃ r r', written .empty noteEdits = [r, r'] ∧ Earlier r r' ∧
    r'.edited = some "2024-01-01T00:00:02.000Z" := by
  obtain ⟨-, horder, -⟩ := times_settle noteEdits
  exact ⟨_, _, rfl, (horder 0 1 (by decide) (by decide)).mpr (by decide), rfl⟩

/-- As many notes as the day has seconds. -/
def dayOfNotes : List Event :=
  notesOpened :: (List.replicate Stamp.secondsPerDay .empty).map fun ps =>
    .call (.addRecord "new-ds-1" ps)

/-- The times of writes do not grow for ever. -/
theorem not_forall_times_grow : ¬ ∀ es, (written .empty es).Pairwise Earlier := by
  intro h
  have hopened : ∃ c, (notesOpened.act .empty).collectionOf "new-ds-1" = .ok c := ⟨_, rfl⟩
  obtain ⟨c, hc⟩ := hopened
  have hlength : (written .empty dayOfNotes).length = Stamp.secondsPerDay := by
    rw [dayOfNotes, written_cons, List.length_append, length_written_addRecord hc rfl,
      List.length_replicate]
    rfl
  exact absurd ((pairwise_earlier_iff dayOfNotes).mp (h dayOfNotes)) (hlength ▸ lt_irrefl _)

end Order

end Memory
end DocTables
