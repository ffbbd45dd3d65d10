import DocTables.Proofs.Pool.Jobs
import DocTables.Proofs.Workspace.SameData

/-!
Fetching records with readers that move in any order. Each record is fetched at most once and never
more than a bounded number at a time. What all fetches come to does not depend on the order: every
record is found, or the failure of one of them is reported.
-/
namespace DocTables

theorem Workspace.memory_setMemory_eq (w : Workspace) (name : String) (m : Memory)
    (other : String) : (w.setMemory name m).memory other =
      if other = name then m else w.memory other := by
  split
  next h => rw [h, memory_setMemory]
  next h => exact memory_setMemory_of_ne h w m

namespace Reading
open Effect Outcome Workspace
variable {w w' : Workspace} {bound : Nat} {jobs : List Reading} {turns : List Nat}

/-- What tells jobs apart. -/
def key (r : Reading) : Nat × String := (r.table.id, r.record)

/-- What a fetch on its own gives. -/
def fetch (w : Workspace) (r : Reading) : Except TableError DecodedRecord :=
  (r.table.row storeAt r.record w).1

/-- The calls that fetches make in one store. -/
def callsIn (name : String) (rs : List Reading) : List Call :=
  (rs.filter fun r => r.table.store = name).map fun r => .readRecord r.record

/-- The record that was found for a key. -/
def found (results : List (Reading × DecodedRecord)) (table : Nat) (record : String) :
    Option DecodedRecord :=
  (results.find? fun r => r.1.table.id = table && r.1.record = record).map Prod.snd

/-- Readers at work on jobs, in the order of a schedule. -/
def scheduled (bound : Nat) (jobs : List Reading) (turns : List Nat) :
    TableM Workspace (Pool TableError Reading DecodedRecord) :=
  let n := readers bound jobs.length
  Pool.run (notice n) (start storeAt) (finish storeAt) turns (.ofJobs n jobs)

theorem readers_eq (bound jobs : Nat) : readers bound jobs = max 1 (min bound jobs) := by
  unfold readers
  omega

section Outcomes

theorem run_start (r : Reading) (w : Workspace) :
    start storeAt r w =
      ((Memory.store.startRead r.record (w.memory r.table.store)).1.mapError
          fun e => .storeFailed r.use e.message,
        w.setMemory r.table.store
          (Memory.store.startRead r.record (w.memory r.table.store)).2) :=
  run_asking_onStore _ _ _ _

theorem run_finish (r : Reading) (w : Workspace) :
    finish storeAt r w =
      (((Memory.store.finishRead r.record (w.memory r.table.store)).1.mapError
          fun e => .storeFailed r.use e.message) >>= r.table.columns.decode,
        w.setMemory r.table.store
          (Memory.store.finishRead r.record (w.memory r.table.store)).2) :=
  run_asking_checked _ _ (Memory.store.finishRead r.record) _ _

theorem yields_start (w : Workspace) (r : Reading) :
    Yields (SameData w) (start storeAt r) (start storeAt r w).1 := by
  intro s hs
  refine ⟨?_, (keptByReads_sameData w).start r s hs⟩
  rw [run_start r s, run_start r w, (hs.memory r.table.store).startRead_eq r.record]

theorem yields_finish (w : Workspace) (r : Reading) :
    Yields (SameData w) (finish storeAt r) (finish storeAt r w).1 := by
  intro s hs
  refine ⟨?_, (keptByReads_sameData w).finish r s hs⟩
  rw [run_finish r s, run_finish r w, (hs.memory r.table.store).finishRead_eq r.record]

/-- Starting and then finishing a fetch comes to the same as a fetch on its own. -/
theorem fate_eq_fetch (w : Workspace) (r : Reading) :
    Pool.fate (fun r => (start storeAt r w).1) (fun r => (finish storeAt r w).1) r =
      fetch w r := by
  have hrow : r.table.row storeAt r.record = start storeAt r >>= fun _ => finish storeAt r := by
    funext s
    unfold Table.row Store.readRecord start finish
    simp only [run_bind, run_asking, use]
    rcases (storeAt r.table.store).startRead r.record s with ⟨e | _, s'⟩
    · rfl
    · rcases (storeAt r.table.store).finishRead r.record s' with ⟨e | record, s'⟩ <;> rfl
  have hfinish := yields_finish w r (start storeAt r w).2 (yields_start w r w (.refl w)).2
  rw [fetch, hrow, run_bind, Pool.fate]
  rcases h : start storeAt r w with ⟨e | _, s'⟩
  · rfl
  · rw [h] at hfinish
    exact hfinish.1.symm

/-- What a fetch gives is the record of the store, as the table decodes it. -/
theorem fetch_eq_ok {r : Reading} {d : DecodedRecord} (h : fetch w r = .ok d) :
    (w.memory r.table.store).record? r.record = some d.record ∧
      r.table.columns.decode d.record = .ok d := by
  rw [← fate_eq_fetch] at h
  obtain ⟨_, -, hfinish⟩ := bind_eq_ok.mp h
  simp only [run_finish] at hfinish
  obtain ⟨record, hrecord, hdecode⟩ := bind_eq_ok.mp hfinish
  obtain ⟨row, hrow, hd⟩ := bind_eq_ok.mp hdecode
  obtain rfl : d = ⟨row, record⟩ := (Except.ok.inj hd).symm
  refine ⟨?_, hdecode⟩
  have hfound := mapError_eq_ok.mp hrecord
  change ((w.memory r.table.store).record? r.record).elim _ _ = _ at hfound
  cases hget : (w.memory r.table.store).record? r.record with
  | none => simp [hget] at hfound
  | some found => simpa [hget] using hfound

end Outcomes

section Notes

/-- Only fetches were begun since `w`, in this order. -/
def Begun (w : Workspace) (begun : List Reading) (w' : Workspace) : Prop :=
  ∀ name, (w'.memory name).calls = (w.memory name).calls ++ callsIn name begun

theorem calls_startRead (id : String) (m : Memory) :
    (Memory.store.startRead id m).2.calls = m.calls ++ [.readRecord id] := by
  refine Memory.holds_perform (P := fun m' => m'.calls = m.calls ++ [.readRecord id]) rfl ?_
  intro _ m' hdone
  obtain ⟨-, rfl⟩ := Prod.mk.inj (Except.ok.inj hdone)
  rfl

theorem Begun.start {begun : List Reading} (h : Begun w begun w') (r : Reading) :
    Begun w (begun ++ [r]) (start storeAt r w').2 := by
  intro name
  rw [run_start, memory_setMemory_eq, callsIn, List.filter_append, List.map_append]
  split
  next hname =>
    rw [hname, calls_startRead, h r.table.store, List.append_assoc]
    simp [callsIn]
  next hname =>
    rw [h name]
    simp [callsIn, Ne.symm hname]

theorem Begun.finish {begun : List Reading} (h : Begun w begun w') (r : Reading) :
    Begun w begun (finish storeAt r w').2 := by
  intro name
  rw [run_finish, memory_setMemory_eq]
  split
  next hname =>
    rw [hname]
    exact h r.table.store
  next => exact h name

end Notes

section Load

/-- The worker reads from a store of this name. -/
def readsFrom (name : String) : Worker TableError Reading → Bool
  | .running r => r.table.store = name
  | _ => false

/-- The stores count the readers that read from them. -/
structure Counted (w : Workspace) (n : Nat)
    (x : Pool TableError Reading DecodedRecord × Workspace) : Prop where
  workers : x.1.workers.length = n
  reading : ∀ name, (x.2.memory name).reading =
    (w.memory name).reading + x.1.workers.countP (readsFrom name)
  mostReading : ∀ name, (x.2.memory name).mostReading ≤
    max (w.memory name).mostReading ((w.memory name).reading + n)

theorem startRead_reading (id : String) (m : Memory) :
    (Memory.store.startRead id m).2.reading =
        m.reading + (if (Memory.store.startRead id m).1.isOk then 1 else 0) ∧
      (Memory.store.startRead id m).2.mostReading ≤
        max m.mostReading (Memory.store.startRead id m).2.reading := by
  rcases Memory.state_perform (.readRecord id) (fun m => .ok m.beginRead) m with
    ⟨_, m₁, hdone, heq⟩ | ⟨e, heq⟩
  · obtain ⟨-, rfl⟩ := Prod.mk.inj (Except.ok.inj hdone)
    rw [show Memory.store.startRead id m = _ from heq]
    exact ⟨rfl, le_rfl⟩
  · rw [show Memory.store.startRead id m = _ from heq]
    exact ⟨rfl, le_max_left _ _⟩

theorem reading_start {r : Reading} {u : Except TableError Unit}
    (h : start storeAt r w = (u, w')) (name : String) :
    (w'.memory name).reading =
        (w.memory name).reading + (if r.table.store = name ∧ u.isOk then 1 else 0) ∧
      (w'.memory name).mostReading ≤ max (w.memory name).mostReading (w'.memory name).reading := by
  obtain ⟨rfl, rfl⟩ := Prod.mk.inj (h.symm.trans (run_start r w))
  obtain ⟨hcount, hmost⟩ := startRead_reading r.record (w.memory r.table.store)
  rw [memory_setMemory_eq]
  split
  next hname =>
    obtain rfl := hname
    refine ⟨?_, hmost⟩
    rw [hcount]
    cases (Memory.store.startRead r.record (w.memory r.table.store)).1 <;>
      simp [Except.mapError, Except.isOk, Except.toBool]
  next hname => exact ⟨by simp [Ne.symm hname], le_max_left _ _⟩

theorem reading_finish {r : Reading} {u : Except TableError DecodedRecord}
    (h : finish storeAt r w = (u, w')) {name : String}
    (hpos : r.table.store = name → 0 < (w.memory name).reading) :
    (w'.memory name).reading + (if r.table.store = name then 1 else 0) =
        (w.memory name).reading ∧
      (w'.memory name).mostReading = (w.memory name).mostReading := by
  obtain ⟨-, rfl⟩ := Prod.mk.inj (h.symm.trans (run_finish r w))
  rw [memory_setMemory_eq]
  split
  next hname =>
    obtain rfl := hname
    have hend : (Memory.store.finishRead r.record (w.memory r.table.store)).2.reading =
      (w.memory r.table.store).reading - 1 := rfl
    refine ⟨?_, rfl⟩
    rw [hend, if_pos rfl]
    exact Nat.sub_add_cancel (hpos rfl)
  next hname => exact ⟨by simp [Ne.symm hname], rfl⟩

/-- A turn changes what a store counts as it changes what the worker reads from it. -/
theorem reading_turn {v v' : Worker TableError Reading} {queue queue' : List Reading}
    {new : List (Reading × DecodedRecord)}
    (h : Pool.Turn (start storeAt) (finish storeAt) v queue w v' queue' new w') (name : String)
    (hreading : readsFrom name v = true → 0 < (w.memory name).reading) :
    (w'.memory name).reading + (if readsFrom name v then 1 else 0) =
        (w.memory name).reading + (if readsFrom name v' then 1 else 0) ∧
      (w'.memory name).mostReading ≤ max (w.memory name).mostReading (w'.memory name).reading := by
  cases h with
  | leaves => exact ⟨rfl, le_max_left _ _⟩
  | takes => exact ⟨rfl, le_max_left _ _⟩
  | starts h => simpa [readsFrom, Except.isOk, Except.toBool] using reading_start h name
  | refused h => simpa [readsFrom, Except.isOk, Except.toBool] using reading_start h name
  | finishes h =>
    obtain ⟨hcount, hmost⟩ := reading_finish h (by simpa [readsFrom] using hreading)
    exact ⟨by simpa [readsFrom] using hcount, hmost.le.trans (le_max_left _ _)⟩
  | fails h =>
    obtain ⟨hcount, hmost⟩ := reading_finish h (by simpa [readsFrom] using hreading)
    exact ⟨by simpa [readsFrom] using hcount, hmost.le.trans (le_max_left _ _)⟩

theorem counted_moves {n : Nat} {y : Pool TableError Reading DecodedRecord × Workspace}
    (h : Pool.Moves (start storeAt) (finish storeAt) turns (.ofJobs n jobs, w) y) :
    Counted w n y := by
  refine h.keeps ?_ ⟨List.length_replicate, fun name => ?_, fun name => le_max_left _ _⟩
  · rintro _ _ _ (_ | @⟨before, after, v, v', _, _, _, _, s, s', hturn⟩) hx
    · exact hx
    · obtain ⟨hworkers, hreading, hmost⟩ := hx
      have hlength : (before ++ v' :: after).length = n := by simpa using hworkers
      have hturned := fun name => reading_turn hturn name fun hv => by simp [hreading name, hv]
      have hnext : ∀ name, (s'.memory name).reading =
          (w.memory name).reading + (before ++ v' :: after).countP (readsFrom name) := by
        intro name
        have hcount := hreading name
        have hturn := (hturned name).1
        simp only [List.countP_append, List.countP_cons] at hcount ⊢
        omega
      refine ⟨hlength, hnext, fun name => (hturned name).2.trans (max_le (hmost name) ?_)⟩
      have hle : (before ++ v' :: after).countP (readsFrom name) ≤ n :=
        hlength ▸ List.countP_le_length
      exact le_max_of_le_right (by rw [hnext name]; omega)
  · simp [Pool.ofJobs, List.countP_replicate, readsFrom]

end Load

section Results

/-- The results of all jobs, each that of a fetch on its own. -/
structure Resolved (w : Workspace) (jobs : List Reading)
    (results : List (Reading × DecodedRecord)) : Prop where
  jobs : (results.map Prod.fst).Perm jobs
  fetched : ∀ e ∈ results, fetch w e.1 = .ok e.2

namespace Resolved
variable {results : List (Reading × DecodedRecord)}

theorem exists_result (h : Resolved w jobs results) {r : Reading} (hr : r ∈ jobs) :
    ∃ e, (r, e) ∈ results ∧ fetch w r = .ok e := by
  obtain ⟨x, hx, rfl⟩ := List.mem_map.mp (h.jobs.mem_iff.mpr hr)
  exact ⟨x.2, hx, h.fetched x hx⟩

/-- What is found under a key does not depend on the order of the results. -/
theorem found_eq (h : Resolved w jobs results) (hdistinct : (jobs.map key).Nodup) (table : Nat)
    (record : String) : found results table record =
      (jobs.find? fun r => r.key = (table, record)).bind fun r => (fetch w r).toOption := by
  have hkey : ∀ r : Reading,
      (r.table.id = table && r.record = record) = decide (r.key = (table, record)) := by
    intro r
    simp [key]
  unfold found
  simp only [hkey]
  cases hresult : results.find? fun e => decide (e.1.key = (table, record)) with
  | none =>
    rw [List.find?_eq_none] at hresult
    have hnone : (jobs.find? fun r => decide (r.key = (table, record))) = none := by
      refine List.find?_eq_none.mpr fun r hr => ?_
      obtain ⟨e, he, -⟩ := h.exists_result hr
      exact hresult _ he
    rw [hnone]
    rfl
  | some x =>
    have hx := List.mem_of_find?_eq_some hresult
    have hxkey : x.1.key = (table, record) := by simpa using List.find?_some hresult
    have hxjob : x.1 ∈ jobs := h.jobs.mem_iff.mp (List.mem_map_of_mem hx)
    cases hjob : jobs.find? fun r => decide (r.key = (table, record)) with
    | none =>
      have hne := List.find?_eq_none.mp hjob x.1 hxjob
      simp [hxkey] at hne
    | some r =>
      have hrkey : r.key = (table, record) := by simpa using List.find?_some hjob
      obtain rfl : r = x.1 := List.inj_on_of_nodup_map hdistinct (List.mem_of_find?_eq_some hjob)
        hxjob (hrkey.trans hxkey.symm)
      simp [h.fetched x hx, Except.toOption]

theorem found_of_mem (h : Resolved w jobs results) (hdistinct : (jobs.map key).Nodup) {r : Reading}
    (hr : r ∈ jobs) : ∃ e, found results r.table.id r.record = some e ∧ fetch w r = .ok e := by
  obtain ⟨e, -, hok⟩ := h.exists_result hr
  refine ⟨e, ?_, hok⟩
  rw [h.found_eq hdistinct]
  cases hjob : jobs.find? fun r' => decide (r'.key = (r.table.id, r.record)) with
  | none =>
    have hne := List.find?_eq_none.mp hjob r hr
    simp [key] at hne
  | some r' =>
    have hkey : r'.key = r.key := by simpa [key] using List.find?_some hjob
    obtain rfl : r' = r :=
      List.inj_on_of_nodup_map hdistinct (List.mem_of_find?_eq_some hjob) hr hkey
    simp [hok, Except.toOption]

end Resolved

/-- What becomes of the jobs of readers: how many run at a time, which calls are made, and what the
work comes to. -/
structure Fetched (w : Workspace) (bound : Nat) (jobs : List Reading)
    (out : Except TableError (Pool TableError Reading DecodedRecord) × Workspace) : Prop where
  load : ∀ p, out.1 = .ok p → p.load ≤ max 1 (min bound jobs.length)
  mostReading : ∀ name, (out.2.memory name).mostReading ≤
    max (w.memory name).mostReading ((w.memory name).reading + max 1 (min bound jobs.length))
  data : SameData w out.2
  once : ∃ begun, Begun w begun out.2 ∧ begun.Subperm jobs ∧
    ∀ p, out.1 = .ok p → p.workers.all Worker.isOut = true → begun.Perm jobs
  resolved : ∀ p, out.1 = .ok p → p.workers.all Worker.isOut = true → Resolved w jobs p.results
  failed : ∀ e, out.1 = .error e → ∃ r ∈ jobs, fetch w r = .error e

theorem begun_refl (w : Workspace) : Begun w [] w := fun _ => (List.append_nil _).symm

theorem fetched_scheduled (w : Workspace) (bound : Nat) (jobs : List Reading) (turns : List Nat) :
    Fetched w bound jobs (scheduled bound jobs turns w) := by
  have hreaders := readers_eq bound jobs.length
  obtain ⟨made, p, s, hmoves, hend⟩ := Pool.run_moves (start storeAt) (finish storeAt)
    (notice (readers bound jobs.length)) turns (.ofJobs (readers bound jobs.length) jobs) w
  have hcounted := counted_moves hmoves
  have hfated := hmoves.fated (yields_start w) (yields_finish w) (SameData.refl w)
  obtain ⟨begun, htally, hbegun⟩ := hmoves.keeps
    (I := fun x => ∃ begun, Pool.Tally jobs begun x.1 ∧ Begun w begun x.2)
    (fun _ _ _ hmove hx => hmove.tally (fun _ _ r h => h.start r) (fun _ _ r h => h.finish r) hx)
    ⟨[], Pool.tally_ofJobs _ jobs, begun_refl w⟩
  have hmost := hreaders ▸ hcounted.mostReading
  rcases hend with ⟨e, hfailure, hrun⟩ | ⟨hfailure, hrun, -⟩
  · refine (show scheduled bound jobs turns w = _ from hrun) ▸
      ⟨nofun, hmost, hfated.state, ⟨begun, hbegun, htally.subperm, nofun⟩, nofun, fun e' he => ?_⟩
    obtain ⟨r, hr, hfate⟩ := hfated.workers _ (Pool.failed_mem hfailure)
    exact ⟨r, hr, by rw [← fate_eq_fetch, hfate, Except.error.inj he]⟩
  · have hcomplete := hmoves.complete (by omega) htally hfailure
    refine (show scheduled bound jobs turns w = _ from hrun) ▸
      ⟨fun p' hp => ?_, hmost, hfated.state, ⟨begun, hbegun, htally.subperm, fun p' hp hout => ?_⟩,
        fun p' hp hout => ?_, nofun⟩ <;> obtain rfl := Except.ok.inj hp
    · exact hreaders ▸ hmoves.load_le
    · exact (hcomplete hout).1
    · exact ⟨(hcomplete hout).2, fun e he => (fate_eq_fetch w e.1).symm.trans (hfated.results e he)⟩

/-- Nobody is left who could do more. -/
def Ended (out : Except TableError (Pool TableError Reading DecodedRecord) × Workspace) : Prop :=
  ∀ p, out.1 = .ok p → p.workers.all Worker.isOut = true

/-- Readers that have turns enough come to their end. -/
theorem ended_scheduled (w : Workspace)
    (hturns : ∀ i < readers bound jobs.length, 3 * jobs.length < turns.count i) :
    Ended (scheduled bound jobs turns w) := by
  intro p hp
  obtain ⟨made, p', s, hmoves, ⟨e, -, hrun⟩ | ⟨-, hrun, hmade⟩⟩ := Pool.run_moves (start storeAt)
    (finish storeAt) (notice (readers bound jobs.length)) turns
    (.ofJobs (readers bound jobs.length) jobs) w
  · rw [show scheduled bound jobs turns w = _ from hrun] at hp
    exact nomatch hp
  · rw [show scheduled bound jobs turns w = _ from hrun] at hp
    obtain rfl := Except.ok.inj hp
    rcases hmade with rfl | hout
    · exact hmoves.all_out hturns
    · exact hout

/-- The order in which the readers move does not matter. At no time do more than the bounded number
of them read, no record is read twice, and at the end either every record has been found, each by
its own fetch, or the failure of one of the fetches is all that is left. -/
theorem scheduled_settles (w : Workspace) (bound : Nat) (hdistinct : (jobs.map key).Nodup)
    (turns : List Nat) :
    (∀ p, (scheduled bound jobs turns w).1 = .ok p → p.load ≤ max 1 (min bound jobs.length)) ∧
    (∀ name, ((scheduled bound jobs turns w).2.memory name).mostReading ≤
      max (w.memory name).mostReading
        ((w.memory name).reading + max 1 (min bound jobs.length))) ∧
    (∃ begun, Begun w begun (scheduled bound jobs turns w).2 ∧ begun.Subperm jobs ∧
      (begun.map key).Nodup) ∧
    ((∀ i < readers bound jobs.length, 3 * jobs.length < turns.count i) →
      Ended (scheduled bound jobs turns w)) ∧
    (Ended (scheduled bound jobs turns w) →
      ((∀ r ∈ jobs, ∃ e, fetch w r = .ok e) →
        ∃ p, (scheduled bound jobs turns w).1 = .ok p ∧ Resolved w jobs p.results ∧
          ∀ table record, found p.results table record =
            (jobs.find? fun r => r.key = (table, record)).bind fun r => (fetch w r).toOption) ∧
      ((∃ r ∈ jobs, ∃ e, fetch w r = .error e) →
        ∃ e, (scheduled bound jobs turns w).1 = .error e ∧ ∃ r ∈ jobs, fetch w r = .error e)) := by
  have hfetched := fetched_scheduled w bound jobs turns
  refine ⟨hfetched.load, hfetched.mostReading, ?_, ended_scheduled w, fun hended => ⟨?_, ?_⟩⟩
  · obtain ⟨begun, hbegun, hsub, -⟩ := hfetched.once
    refine ⟨begun, hbegun, hsub, ?_⟩
    obtain ⟨begun', hperm, hsublist⟩ := hsub
    exact (hperm.map key).nodup_iff.mp (hdistinct.sublist (hsublist.map key))
  · intro hall
    cases hout : (scheduled bound jobs turns w).1 with
    | error e =>
      obtain ⟨r, hr, herror⟩ := hfetched.failed e hout
      obtain ⟨e', hok⟩ := hall r hr
      exact nomatch hok.symm.trans herror
    | ok p =>
      have hresolved := hfetched.resolved p hout (hended p hout)
      exact ⟨p, rfl, hresolved, hresolved.found_eq hdistinct⟩
  · rintro ⟨r, hr, e, herror⟩
    cases hout : (scheduled bound jobs turns w).1 with
    | error e' => exact ⟨e', rfl, hfetched.failed e' hout⟩
    | ok p =>
      obtain ⟨d, -, hok⟩ := (hfetched.resolved p hout (hended p hout)).exists_result hr
      exact nomatch hok.symm.trans herror

/-- A store with two records that have no properties. -/
def twoNotes : Workspace :=
  Workspace.empty.setMemory "m"
    { Memory.empty with
      records := ["a", "b"].map fun id => ⟨"ds", id, false, none, none, none, .empty⟩ }

def noteReadings : List Reading :=
  ["a", "b"].map fun id => ⟨⟨1, "Notes", .empty, ⟨"col", "ds"⟩, "m", 0, {}⟩, id⟩

theorem scheduled_settles_notes :
    ∃ p, (scheduled 2 noteReadings (List.replicate 7 [0, 1]).flatten twoNotes).1 = .ok p ∧
      ((found p.results 1 "b").map fun e => e.record.id) = some "b" ∧
      (found p.results 2 "b").isNone := by
  have hdistinct : (noteReadings.map key).Nodup := by decide
  obtain ⟨-, -, -, hended, hsettled⟩ := scheduled_settles twoNotes 2 hdistinct
    (List.replicate 7 [0, 1]).flatten
  have hfetch : ∀ r ∈ noteReadings, ∃ e, fetch twoNotes r = .ok e := by
    intro r hr
    simp only [noteReadings, List.map_cons, List.map_nil, List.mem_cons, List.not_mem_nil,
      or_false] at hr
    rcases hr with rfl | rfl <;> exact ⟨_, rfl⟩
  obtain ⟨p, hp, -, hfound⟩ := (hsettled (hended (by decide))).1 hfetch
  refine ⟨p, hp, ?_, ?_⟩ <;> rw [hfound] <;> rfl

/-- What is read of all records, with what this does to the stores. -/
theorem all_fetched (w : Workspace) (bound : Nat) (jobs : List Reading) :
    SameData w (all storeAt bound jobs w).2 ∧
    (∀ results, (all storeAt bound jobs w).1 = .ok results → Resolved w jobs results ∧
      ∃ begun, begun.Perm jobs ∧ Begun w begun (all storeAt bound jobs w).2) ∧
    (∀ e, (all storeAt bound jobs w).1 = .error e → ∃ r ∈ jobs, fetch w r = .error e) := by
  have hall : all storeAt bound jobs =
      scheduled bound jobs (Pool.inTurn (readers bound jobs.length) jobs.length) >>= fun p =>
        pure p.results := rfl
  have hended : Ended
      (scheduled bound jobs (Pool.inTurn (readers bound jobs.length) jobs.length) w) :=
    ended_scheduled w fun i hi => by
      rw [Pool.count_inTurn hi]
      omega
  have hfetched := fetched_scheduled w bound jobs
    (Pool.inTurn (readers bound jobs.length) jobs.length)
  rw [hall, run_bind]
  rcases hrun : scheduled bound jobs (Pool.inTurn (readers bound jobs.length) jobs.length) w with
    ⟨e | p, w'⟩ <;> rw [hrun] at hended hfetched
  · exact ⟨hfetched.data, nofun, fun e' he => hfetched.failed e' (by rw [Except.error.inj he])⟩
  · have hout := hended p rfl
    refine ⟨hfetched.data, fun results hresults => ?_, nofun⟩
    obtain rfl := Except.ok.inj hresults
    obtain ⟨begun, hbegun, -, hperm⟩ := hfetched.once
    exact ⟨hfetched.resolved p rfl hout, begun, hperm p rfl hout, hbegun⟩

end Results

end Reading
end DocTables
