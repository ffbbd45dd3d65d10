/-!
Finite maps with text keys, listed in key order.
A map built by `insert` or `ofList` is `Sorted`; later bindings of a key replace earlier ones.
-/
namespace DocTables

/-- A finite map given by its entries, smallest key first. -/
structure KeyMap (α : Type u) where
  entries : List (String × α)
  deriving DecidableEq

namespace KeyMap
variable {α : Type u} {β : Type v}

def empty : KeyMap α := ⟨[]⟩

instance : EmptyCollection (KeyMap α) := ⟨empty⟩

instance : Inhabited (KeyMap α) := ⟨empty⟩

def lookup (k : String) : List (String × α) → Option α
  | [] => none
  | (k', a) :: es => if k' = k then some a else lookup k es

def insertEntry (k : String) (a : α) : List (String × α) → List (String × α)
  | [] => [(k, a)]
  | (k', a') :: es =>
    if k = k' then (k, a) :: es
    else if k < k' then (k, a) :: (k', a') :: es
    else (k', a') :: insertEntry k a es

def get? (m : KeyMap α) (k : String) : Option α := lookup k m.entries

def contains (m : KeyMap α) (k : String) : Bool := (m.get? k).isSome

def insert (m : KeyMap α) (k : String) (a : α) : KeyMap α := ⟨insertEntry k a m.entries⟩

def erase (m : KeyMap α) (k : String) : KeyMap α := ⟨m.entries.filter fun e => e.1 ≠ k⟩

/-- Inserts the entries of a list from left to right. -/
def insertAll (m : KeyMap α) (es : List (String × α)) : KeyMap α :=
  es.foldl (fun m e => m.insert e.1 e.2) m

def ofList (es : List (String × α)) : KeyMap α := empty.insertAll es

/-- The left map overwritten by the right one. -/
def union (m n : KeyMap α) : KeyMap α := m.insertAll n.entries

def keys (m : KeyMap α) : List String := m.entries.map Prod.fst

def values (m : KeyMap α) : List α := m.entries.map Prod.snd

def size (m : KeyMap α) : Nat := m.entries.length

def isEmpty (m : KeyMap α) : Bool := m.entries.isEmpty

def map (f : α → β) (m : KeyMap α) : KeyMap β := ⟨m.entries.map fun e => (e.1, f e.2)⟩

def filter (p : α → Bool) (m : KeyMap α) : KeyMap α := ⟨m.entries.filter fun e => p e.2⟩

/-- The smallest key whose value satisfies `p`. -/
def findKey? (p : α → Bool) (m : KeyMap α) : Option String :=
  (m.entries.find? fun e => p e.2).map Prod.fst

def Sorted (m : KeyMap α) : Prop := m.entries.Pairwise fun e f => e.1 < f.1

@[simp] theorem get?_empty (k : String) : (empty : KeyMap α).get? k = none := rfl

theorem lookup_insertEntry_self (k : String) (a : α) (es : List (String × α)) :
    lookup k (insertEntry k a es) = some a := by
  induction es with
  | nil => simp [insertEntry, lookup]
  | cons e es ih =>
    simp only [insertEntry]
    split
    · simp [lookup]
    · split
      · simp [lookup]
      · rename_i h _
        simp [lookup, Ne.symm h, ih]

theorem lookup_insertEntry_of_ne {j k : String} (h : j ≠ k) (a : α) (es : List (String × α)) :
    lookup j (insertEntry k a es) = lookup j es := by
  induction es with
  | nil => simp [insertEntry, lookup, Ne.symm h]
  | cons e es ih =>
    obtain ⟨k', a'⟩ := e
    simp only [insertEntry]
    split
    · rename_i hk
      subst hk
      simp [lookup, Ne.symm h]
    · split
      · simp [lookup, Ne.symm h]
      · simp only [lookup, ih]

@[simp] theorem get?_insert_self (m : KeyMap α) (k : String) (a : α) :
    (m.insert k a).get? k = some a := lookup_insertEntry_self k a m.entries

theorem get?_insert_of_ne {j k : String} (h : j ≠ k) (m : KeyMap α) (a : α) :
    (m.insert k a).get? j = m.get? j := lookup_insertEntry_of_ne h a m.entries

theorem get?_insert (m : KeyMap α) (j k : String) (a : α) :
    (m.insert k a).get? j = if j = k then some a else m.get? j := by
  split
  · rename_i h
    subst h
    exact get?_insert_self m j a
  · rename_i h
    exact get?_insert_of_ne h m a

theorem lookup_map (f : α → β) (k : String) (es : List (String × α)) :
    lookup k (es.map fun e => (e.1, f e.2)) = (lookup k es).map f := by
  induction es with
  | nil => rfl
  | cons e es ih =>
    simp only [List.map_cons, lookup]
    split <;> simp_all

@[simp] theorem get?_map (f : α → β) (m : KeyMap α) (k : String) :
    (m.map f).get? k = (m.get? k).map f := lookup_map f k m.entries

end KeyMap
end DocTables
