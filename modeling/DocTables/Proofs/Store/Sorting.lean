import DocTables.Proofs.Predicate.Condition
import DocTables.Proofs.StableSort
import DocTables.Proofs.Store.Edited
import DocTables.Store.Order

/-!
Sort lists. An entry puts lesser values first, or greater ones, and whatever is empty last. Its
comparison is a total preorder of records as long as no two values that it tells apart meet one of
another kind, and then records are sorted by the first entry that tells them apart.
-/
namespace DocTables

namespace Facet
variable {c d e : Facet} {descending : Bool}

/-- The lesser of two values of one kind. -/
def Less (c d : Facet) : Prop := ∃ a b : Scalar, c = a.facet ∧ d = b.facet ∧ a.Less b

/-- Values of one kind that has an order. -/
def Alike (c d : Facet) : Prop := ∃ o, c.compare? d = some o

theorem compare?_lt : c.compare? d = some .lt ↔ c.Less d := by
  constructor
  · intro h
    cases c <;> cases d <;> simp only [compare?, reduceCtorEq] at h
    case text.text s t => exact ⟨.text s, .text t, rfl, rfl, Scalar.compare?_lt.mp h⟩
    case number.number x y => exact ⟨.number x, .number y, rfl, rfl, Scalar.compare?_lt.mp h⟩
    case bool.bool a b => exact ⟨.bool a, .bool b, rfl, rfl, Scalar.compare?_lt.mp h⟩
  · rintro ⟨a, b, rfl, rfl, h⟩
    exact Scalar.compare?_lt.mpr h

theorem compareText_comm (s t : String) : compareText t s = (compareText s t).swap := by
  cases h : compareText s t with
  | lt => exact compareText_gt.mpr (compareText_lt.mp h)
  | eq => exact compareText_eq.mpr (compareText_eq.mp h).symm
  | gt => exact compareText_lt.mpr (compareText_gt.mp h)

theorem compare?_comm (c d : Facet) : d.compare? c = (c.compare? d).map Ordering.swap := by
  cases c <;> cases d <;> try rfl
  case text.text s t => simp [compare?, compareText_comm s t]
  case number.number x y => exact Binary64.compare?_comm x y
  case bool.bool a b => cases a <;> cases b <;> rfl

theorem Alike.symm (h : c.Alike d) : d.Alike c := by
  obtain ⟨o, ho⟩ := h
  exact ⟨o.swap, by rw [compare?_comm c d, ho]; rfl⟩

theorem Less.alike (h : c.Less d) : c.Alike d := ⟨_, compare?_lt.mpr h⟩

theorem Alike.trans (hcd : c.Alike d) (hde : d.Alike e) : c.Alike e := by
  obtain ⟨o, ho⟩ := hcd
  obtain ⟨o', ho'⟩ := hde
  cases c <;> cases d <;> simp only [compare?, reduceCtorEq] at ho <;>
    cases e <;> simp only [compare?, reduceCtorEq] at ho'
  case text.text.text => exact ⟨_, rfl⟩
  case number.number.number x y z =>
    have hx := (Binary64.isNaN_of_compare? ho).1
    have hz := (Binary64.isNaN_of_compare? ho').2
    exact ⟨_, by simp only [compare?, Binary64.compare?, hx, hz]; rfl⟩
  case bool.bool.bool => exact ⟨_, rfl⟩

/-- If `d` is not less than `c` and `e` is not less than `d`, then `e` is not less than `c`. -/
theorem Alike.not_less (hcd : c.Alike d) (hde : d.Alike e) (h : ¬ d.Less c) (h' : ¬ e.Less d) :
    ¬ e.Less c := by
  obtain ⟨o, ho⟩ := hcd
  obtain ⟨o', ho'⟩ := hde
  rw [← compare?_lt] at *
  cases c <;> cases d <;> simp only [compare?, reduceCtorEq] at ho <;>
    cases e <;> simp only [compare?, reduceCtorEq] at ho'
  case text.text.text s t u =>
    simp only [compare?, Option.some.injEq, compareText_lt, not_lt] at *
    exact h.trans h'
  case number.number.number x y z =>
    obtain ⟨hx, hy⟩ := Binary64.isNaN_of_compare? ho
    obtain ⟨-, hz⟩ := Binary64.isNaN_of_compare? ho'
    simp only [compare?, Binary64.compare?_lt, hx, hy, hz, true_and, not_lt] at *
    exact h.trans h'
  case bool.bool.bool a b c =>
    clear ho ho'
    cases a <;> cases b <;> cases c <;> simp_all [compare?, compareBool]

/-- An order puts `c` before `d`: lesser values first, or greater ones, and what is empty last. -/
def Precedes (descending : Bool) (c d : Facet) : Prop :=
  c.isEmpty = false ∧ (d.isEmpty = true ∨ if descending then d.Less c else c.Less d)

/-- Of two values neither of which is empty, the one precedes that the direction puts first. -/
theorem precedes_iff (hc : c.isEmpty = false) (hd : d.isEmpty = false) :
    Precedes descending c d ↔ if descending then d.Less c else c.Less d := by
  simp [Precedes, hc, hd]

theorem getD_compare?_lt : (c.compare? d).getD .eq = .lt ↔ c.Less d := by
  rw [← compare?_lt]
  cases c.compare? d <;> simp

theorem getD_compare?_comm (c d : Facet) :
    (d.compare? c).getD .eq = ((c.compare? d).getD .eq).swap := by
  rw [compare?_comm c d]
  cases c.compare? d <;> rfl

theorem compareFacets_comm (descending : Bool) (c d : Facet) :
    SortRule.compareFacets descending d c = (SortRule.compareFacets descending c d).swap := by
  unfold SortRule.compareFacets
  cases c.isEmpty <;> cases d.isEmpty <;> try rfl
  cases descending <;> simp [getD_compare?_comm c d]

theorem compareFacets_lt :
    SortRule.compareFacets descending c d = .lt ↔ Precedes descending c d := by
  unfold SortRule.compareFacets Precedes
  cases c.isEmpty <;> cases d.isEmpty <;> simp only [reduceCtorEq, true_and, false_and, true_or,
    false_or]
  cases descending
  · simp [getD_compare?_lt]
  · simp [← getD_compare?_comm, getD_compare?_lt]

theorem alike_of_precedes (hc : c.isEmpty = false) (hd : d.isEmpty = false)
    (h : Precedes descending c d) : c.Alike d := by
  rw [precedes_iff hc hd] at h
  cases descending with
  | false => exact Less.alike h
  | true => exact (Less.alike h).symm

/-- If `d` does not precede `c` and `e` does not precede `d`, then `e` does not precede `c`. Only a
`d` of another kind could come between two values that can be told apart. -/
theorem not_precedes_trans (hcd : ¬ Precedes descending d c) (hde : ¬ Precedes descending e d)
    (h : c.isEmpty = false → d.isEmpty = false → e.isEmpty = false → c.Less e ∨ e.Less c →
      d.Alike c) :
    ¬ Precedes descending e c := by
  rintro ⟨he, hec⟩
  have hd : d.isEmpty = false := by
    cases hd : d.isEmpty
    · rfl
    · exact absurd ⟨he, .inl hd⟩ hde
  have hc : c.isEmpty = false := by
    cases hc : c.isEmpty
    · rfl
    · exact absurd ⟨hd, .inl hc⟩ hcd
  rw [precedes_iff hd hc] at hcd
  rw [precedes_iff he hd] at hde
  have hec := (precedes_iff he hc).mp ⟨he, hec⟩
  cases descending with
  | false =>
    have hdc : d.Alike c := h hc hd he (.inr hec)
    exact hdc.symm.not_less (hdc.trans hec.alike.symm) hcd hde hec
  | true =>
    have hdc : d.Alike c := h hc hd he (.inl hec)
    exact (hdc.trans hec.alike).symm.not_less hdc hde hcd hec

theorem ofString?_alike {s t : Option String} (hs : (ofString? s).isEmpty = false)
    (ht : (ofString? t).isEmpty = false) : (ofString? s).Alike (ofString? t) := by
  cases s with
  | none => exact nomatch hs
  | some s =>
    cases t with
    | none => exact nomatch ht
    | some t => exact ⟨_, rfl⟩

/-- Documents hold no NaN, so all numbers in them are of one kind. -/
theorem ofNumber?_alike {i j : Option Json}
    (hi : (ofNumber? (i.bind Json.number?)).isEmpty = false)
    (hj : (ofNumber? (j.bind Json.number?)).isEmpty = false) :
    (ofNumber? (i.bind Json.number?)).Alike (ofNumber? (j.bind Json.number?)) := by
  cases hx : i.bind Json.number? with
  | none => simp [hx, ofNumber?, isEmpty] at hi
  | some x =>
    cases hy : j.bind Json.number? with
    | none => simp [hy, ofNumber?, isEmpty] at hj
    | some y =>
      obtain ⟨_, -, hx⟩ := Option.bind_eq_some_iff.mp hx
      obtain ⟨_, -, hy⟩ := Option.bind_eq_some_iff.mp hy
      simp only [Alike, ofNumber?, compare?, Binary64.compare?, Json.isNaN_of_number? hx,
        Json.isNaN_of_number? hy]
      exact ⟨_, rfl⟩

/-- Payloads of one type are values of one kind, if any, unless the type has no order. -/
theorem ofPayload_alike {t : Option PropertyType} {x y : Option Json}
    (hx : (ofPayload t x).Alike d) (hex : (ofPayload t x).isEmpty = false)
    (hey : (ofPayload t y).isEmpty = false) : (ofPayload t x).Alike (ofPayload t y) := by
  cases t with
  | none => exact ofString?_alike hex hey
  | some t =>
    cases t
    case title | richText | checkbox => exact ⟨_, rfl⟩
    case number | uniqueId => exact ofNumber?_alike hex hey
    case multiSelect | files | people | relation | createdBy | lastEditedBy =>
      exact absurd hx (by simp [Alike, ofPayload, names, compare?])
    all_goals exact ofString?_alike hex hey

end Facet

namespace SortRule
variable {s : SortRule} {ss : List SortRule} {records : List Record} {a b : Record}

/-- The entry puts the first record before the second. -/
def Precedes (s : SortRule) (a b : Record) : Prop :=
  Facet.Precedes s.descending (s.facet a) (s.facet b)

/-- The entry does not tell the records apart. -/
def Ties (s : SortRule) (a b : Record) : Prop := ¬ s.Precedes a b ∧ ¬ s.Precedes b a

/-- The first entry that tells the records apart puts the first one before the second. -/
inductive Before (a b : Record) : List SortRule → Prop where
  | here {s : SortRule} {ss : List SortRule} (h : s.Precedes a b) : Before a b (s :: ss)
  | later {s : SortRule} {ss : List SortRule} (htie : s.Ties a b) (h : Before a b ss) :
    Before a b (s :: ss)

theorem compareBy_single (s : SortRule) (a b : Record) :
    compareBy [s] a b = compareFacets s.descending (s.facet a) (s.facet b) := by
  simp [compareBy]

theorem compareBy_cons (s : SortRule) (ss : List SortRule) (a b : Record) :
    compareBy (s :: ss) a b = (compareBy [s] a b).then (compareBy ss a b) := by
  simp [compareBy]

theorem compareBy_comm (ss : List SortRule) (a b : Record) :
    compareBy ss b a = (compareBy ss a b).swap := by
  induction ss with
  | nil => rfl
  | cons s ss ih =>
    simp only [compareBy, ih, Facet.compareFacets_comm s.descending (s.facet a),
      Ordering.swap_then]

theorem compareBy_self (ss : List SortRule) (a : Record) : compareBy ss a a = .eq := by
  have h := compareBy_comm ss a a
  cases ho : compareBy ss a a <;> simp [ho] at h ⊢

theorem compareBy_single_lt : compareBy [s] a b = .lt ↔ s.Precedes a b := by
  rw [compareBy_single]
  exact Facet.compareFacets_lt

theorem compareBy_single_gt : compareBy [s] a b = .gt ↔ s.Precedes b a := by
  rw [← compareBy_single_lt, compareBy_comm [s] a b]
  cases compareBy [s] a b <;> simp

theorem compareBy_single_eq : compareBy [s] a b = .eq ↔ s.Ties a b := by
  rw [Ties, ← compareBy_single_lt, ← compareBy_single_gt]
  cases compareBy [s] a b <;> simp

theorem compareBy_lt : compareBy ss a b = .lt ↔ Before a b ss := by
  induction ss with
  | nil => exact ⟨nofun, nofun⟩
  | cons s ss ih =>
    rw [compareBy_cons, Ordering.then_eq_lt, compareBy_single_lt, compareBy_single_eq, ih]
    constructor
    · rintro (h | ⟨htie, h⟩)
      · exact .here h
      · exact .later htie h
    · rintro (h | ⟨htie, h⟩)
      · exact .inl h
      · exact .inr ⟨htie, h⟩

theorem compareBy_eq : compareBy ss a b = .eq ↔ ∀ s ∈ ss, s.Ties a b := by
  induction ss with
  | nil => simp [compareBy]
  | cons s ss ih =>
    rw [compareBy_cons, Ordering.then_eq_eq, compareBy_single_eq, ih, List.forall_mem_cons]

/-- Where the entry tells two values apart, all values that it finds are of their kind. -/
def Consistent (s : SortRule) (records : List Record) : Prop :=
  ∀ a ∈ records, ∀ b ∈ records, ∀ c ∈ records, (s.facet a).isEmpty = false →
    (s.facet b).isEmpty = false → (s.facet c).isEmpty = false →
      (s.facet a).Less (s.facet b) → (s.facet c).Alike (s.facet a)

theorem ties_of_not_alike (ha : (s.facet a).isEmpty = false) (hb : (s.facet b).isEmpty = false)
    (h : ¬ (s.facet a).Alike (s.facet b)) : s.Ties a b :=
  ⟨fun hab => h (Facet.alike_of_precedes ha hb hab),
    fun hba => h (Facet.alike_of_precedes hb ha hba).symm⟩

theorem single_totalPreorder : TotalPreorder (compareBy [s]) records ↔ s.Consistent records := by
  constructor
  · intro h a ha b hb c hc hea heb hec hab
    by_contra hca
    have hcb : ¬ (s.facet c).Alike (s.facet b) := fun hcb => hca (hcb.trans hab.alike.symm)
    have htie : s.Ties a b := by
      rw [← compareBy_single_eq]
      apply h.eq_trans ha hc hb
      · exact compareBy_single_eq.mpr (ties_of_not_alike hea hec fun hac => hca hac.symm)
      · exact compareBy_single_eq.mpr (ties_of_not_alike hec heb hcb)
    rw [Ties, Precedes, Precedes, Facet.precedes_iff hea heb, Facet.precedes_iff heb hea] at htie
    cases hd : s.descending
    · exact htie.1 (by simpa [hd] using hab)
    · exact htie.2 (by simpa [hd] using hab)
  · intro h
    refine ⟨fun a _ => compareBy_self [s] a, fun a _ b _ => compareBy_comm [s] a b, ?_⟩
    intro a ha b hb c hc hab hbc
    rw [Ne, compareBy_single_gt] at hab hbc ⊢
    refine Facet.not_precedes_trans hab hbc fun hea heb hec hless => ?_
    rcases hless with hless | hless
    · exact h a ha c hc b hb hea hec heb hless
    · exact (h c hc a ha b hb hec hea heb hless).trans hless.alike

theorem totalPreorder_of_consistent (h : ∀ s ∈ ss, s.Consistent records) :
    TotalPreorder (compareBy ss) records := by
  induction ss with
  | nil => exact TotalPreorder.ties records
  | cons s ss ih =>
    obtain ⟨hs, hss⟩ := List.forall_mem_cons.mp h
    have hcompare : compareBy (s :: ss) = fun a b => (compareBy [s] a b).then (compareBy ss a b) :=
      funext₂ (compareBy_cons s ss)
    rw [hcompare]
    exact (single_totalPreorder.mpr hs).thenBy (ih hss)

/-- The records declare one type at most for the property of the entry. -/
def Uniform (s : SortRule) (records : List Record) : Prop :=
  ∀ name, s.property = some name → ∀ a ∈ records, ∀ b ∈ records, ∀ p q,
    a.properties.get? name = some p → b.properties.get? name = some q →
      ∀ k l, p.declaredType? = some k → q.declaredType? = some l → k = l

/-- An entry reads all records that have something for it as payloads of one type. A time is the
payload of none. -/
theorem Uniform.facet_eq (h : s.Uniform records) (ha : a ∈ records) (hb : b ∈ records)
    (hea : (s.facet a).isEmpty = false) (heb : (s.facet b).isEmpty = false) :
    ∃ t x y, s.facet a = .ofPayload t x ∧ s.facet b = .ofPayload t y := by
  unfold facet at *
  cases ht : s.timestamp with
  | some time =>
    have hpayload (o : Option String) : Facet.ofString? o = .ofPayload none (o.map .string) := by
      cases o <;> rfl
    exact ⟨none, _, _, hpayload _, hpayload _⟩
  | none =>
    simp only [ht] at hea heb ⊢
    cases hpa : s.property.bind a.properties.get? with
    | none => simp [hpa, Facet.isEmpty] at hea
    | some p =>
      cases hpb : s.property.bind b.properties.get? with
      | none => simp [hpb, Facet.isEmpty] at heb
      | some q =>
        obtain ⟨name, hname, hp⟩ := Option.bind_eq_some_iff.mp hpa
        have hq : b.properties.get? name = some q := by simpa [hname] using hpb
        simp only [hpa, hpb] at hea heb ⊢
        cases hk : p.declaredType? with
        | none => simp [hk, Facet.isEmpty] at hea
        | some k =>
          cases hl : q.declaredType? with
          | none => simp [hl, Facet.isEmpty] at heb
          | some l =>
            obtain rfl := h name hname a ha b hb p q hp hq k l hk hl
            exact ⟨_, _, _, rfl, rfl⟩

theorem Uniform.consistent (h : s.Uniform records) : s.Consistent records := by
  intro a ha b hb c hc hea heb hec hab
  obtain ⟨t, x, y, hfa, hfc⟩ := h.facet_eq ha hc hea hec
  rw [hfc] at hec ⊢
  rw [hfa] at hab ⊢
  rw [hfa] at hea
  exact (Facet.ofPayload_alike hab.alike hea hec).symm

theorem less_of_ties (htie : ∀ s ∈ ss, s.Ties a b) : (compareBy ss a b == .lt) = false := by
  rw [compareBy_eq.mpr htie]
  rfl

/-- What sorting does to the records of a store where each property has one type: it keeps them
all, puts one before another as the first entry says that tells them apart, and leaves those that
none tells apart in the order that they had. -/
theorem sortBy_settles (sorts : Json) (records : List Record)
    (h : ∀ s ∈ rules sorts, s.Uniform records) :
    (sortBy sorts records).Perm records ∧
      (sortBy sorts records).Pairwise
        (fun a b => Before a b (rules sorts) ∨ ∀ s ∈ rules sorts, s.Ties a b) ∧
      ∀ p : Record → Bool,
        (∀ a ∈ records, ∀ b ∈ records, p a = true → p b = true → ∀ s ∈ rules sorts, s.Ties a b) →
          (sortBy sorts records).filter p = records.filter p := by
  have hpreorder : TotalPreorder (compareBy (rules sorts)) records :=
    totalPreorder_of_consistent fun s hs => (h s hs).consistent
  refine ⟨sortBy_perm sorts records, ?_⟩
  rw [sortBy_eq]
  refine ⟨(StableSort.pairwise_sort hpreorder).imp fun hab => ?_,
    fun p hp => StableSort.filter_sort fun a ha b hb hpa hpb => ?_⟩
  · cases ho : compareBy (rules sorts) _ _ with
    | lt => exact .inl (compareBy_lt.mp ho)
    | eq => exact .inr (compareBy_eq.mp ho)
    | gt => exact absurd ho hab
  · exact less_of_ties (hp a ha b hb hpa hpb)

/-- A sort list that puts the tasks with the most points first. -/
def byPoints : Json :=
  .array [.ofFields [("property", .string "Points"), ("direction", .string "descending")]]

def task (id : String) (points : Option Int) : Record :=
  ⟨id, false, none, none, none,
    .ofList (points.toList.map fun n => ("Points", Codec.property .number (.int n)))⟩

def tasks : List Record :=
  [task "a" (some 2), task "b" none, task "c" (some 9), task "d" (some 2)]

theorem declaredType?_task {id : String} {points : Option Int} {p : Json}
    (h : (task id points).properties.get? "Points" = some p) : p.declaredType? = some "number" := by
  cases points with
  | none => exact nomatch h
  | some n =>
    obtain rfl := Option.some.inj h
    exact Stamp.declaredType?_property .number (.int n)

theorem uniform_tasks : ∀ s ∈ rules byPoints, s.Uniform tasks := by
  intro s hs name hname a ha b hb p q hp hq k l hk hl
  obtain rfl := List.mem_singleton.mp hs
  obtain rfl : "Points" = name := Option.some.inj hname
  have htask : ∀ r ∈ tasks, ∃ id points, r = task id points := by
    simp [tasks]
  obtain ⟨_, _, rfl⟩ := htask a ha
  obtain ⟨_, _, rfl⟩ := htask b hb
  rw [declaredType?_task hp] at hk
  rw [declaredType?_task hq] at hl
  exact Option.some.inj (hk.symm.trans hl)

/-- The task without points comes last, and the two that have the same points keep their order. -/
theorem sortBy_settles_tasks :
    (sortBy byPoints tasks).map Record.id = ["c", "a", "d", "b"] ∧
      (sortBy byPoints tasks).filter (fun r => r.id = "a" ∨ r.id = "d") =
        [task "a" (some 2), task "d" (some 2)] := by
  obtain ⟨hperm, hsorted, hstable⟩ := sortBy_settles byPoints tasks uniform_tasks
  refine ⟨by decide +kernel, (hstable _ fun a ha b hb hpa hpb => ?_).trans rfl⟩
  have hties : ∀ a ∈ tasks, ∀ b ∈ tasks, decide (a.id = "a" ∨ a.id = "d") = true →
      decide (b.id = "a" ∨ b.id = "d") = true → compareBy (rules byPoints) a b = .eq := by
    decide +kernel
  exact compareBy_eq.mp (hties a ha b hb hpa hpb)

/-- The comparison of a sort list is reflexive and turns around with its records. It is transitive,
ties included, for an entry by itself just if all its values are of one kind wherever it tells two
apart, and for a whole list if this holds of its entries. One declared type is enough for this. -/
theorem compareBy_settles (records : List Record) :
    (∀ ss a b, compareBy ss a a = .eq ∧ compareBy ss b a = (compareBy ss a b).swap) ∧
      (∀ s : SortRule, TotalPreorder (compareBy [s]) records ↔ s.Consistent records) ∧
      (∀ ss : List SortRule, (∀ s ∈ ss, s.Consistent records) →
        TotalPreorder (compareBy ss) records) ∧
      ∀ s : SortRule, s.Uniform records → s.Consistent records :=
  ⟨fun ss a b => ⟨compareBy_self ss a, compareBy_comm ss a b⟩, fun _ => single_totalPreorder,
    fun _ => totalPreorder_of_consistent, fun _ => Uniform.consistent⟩

theorem compareBy_settles_tasks :
    (∀ s ∈ rules byPoints, s.Consistent tasks) ∧
      TotalPreorder (compareBy (rules byPoints)) tasks := by
  obtain ⟨-, -, hlist, huniform⟩ := compareBy_settles tasks
  have hconsistent : ∀ s ∈ rules byPoints, s.Consistent tasks :=
    fun s hs => huniform s (uniform_tasks s hs)
  exact ⟨hconsistent, hlist _ hconsistent⟩

/-- A store with three records that hold a number, an option and a lesser number. -/
def mixedMemory : Memory :=
  let add (m : Memory) (p : Json) : Memory :=
    (Memory.store.run (.addRecord "new-ds-1" (.ofList [("P", p)])) m).2
  let m := (Memory.store.run (.addCollection "page" "Mixed" .empty) .empty).2
  add (add (add m (Codec.property .number (.int 2)))
    (Codec.property .select (.ofFields [("name", .string "a")])))
    (Codec.property .number (.int 1))

/-- The option ties with both numbers, which do not tie. -/
theorem not_forall_totalPreorder :
    ¬ ∀ (m : Memory) (source : String) (ss : List SortRule), m.Reachable →
      TotalPreorder (compareBy ss) (m.live source) := by
  intro hall
  have h := hall mixedMemory "new-ds-1" [⟨none, some "P", false⟩]
    (.call (.call (.call (.call .empty _) _) _) _)
  have hlive : ∃ a b c, mixedMemory.live "new-ds-1" = [a, b, c] ∧
      compareBy [⟨none, some "P", false⟩] a b = .eq ∧
      compareBy [⟨none, some "P", false⟩] b c = .eq ∧
      compareBy [⟨none, some "P", false⟩] a c = .gt :=
    ⟨_, _, _, rfl, rfl, rfl, by decide +kernel⟩
  obtain ⟨a, b, c, hlive, hab, hbc, hac⟩ := hlive
  rw [hlive] at h
  have htie := h.eq_trans (a := a) (b := b) (c := c) (by simp) (by simp) (by simp) hab hbc
  rw [hac] at htie
  exact nomatch htie

end SortRule
end DocTables
