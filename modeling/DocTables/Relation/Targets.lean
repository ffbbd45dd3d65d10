import DocTables.Table

/-!
The relations of the tables of one context: which table a relation column of a source refers to.
A target counts only while it has a handle. A source is dropped with its last handle.
-/
namespace DocTables

/-- Targets by source table number and column key. -/
structure Relations where
  entries : List (Nat × KeyMap Table)

namespace Relations

def empty : Relations := ⟨[]⟩

def targets (r : Relations) (source : Nat) : KeyMap Table := (r.entries.lookup source).getD .empty

/-- Registers a target and forgets the targets of this source that are gone. -/
def insert (live : Table → Bool) (source : Nat) (key : String) (target : Table) (r : Relations) :
    Relations :=
  let kept := (r.targets source).filter live
  ⟨(source, kept.insert key target) :: r.entries.filter fun e => e.1 ≠ source⟩

def eraseSource (source : Nat) (r : Relations) : Relations :=
  ⟨r.entries.filter fun e => e.1 ≠ source⟩

def target? (live : Table → Bool) (r : Relations) (source : Nat) (key : String) : Option Table :=
  ((r.targets source).get? key).filter live

/-- The relation columns of a source with their targets, in key order. -/
def ofSource (live : Table → Bool) (r : Relations) (source : Nat) : List (String × Table) :=
  ((r.targets source).filter live).entries

/-- How many sources have entries. -/
def size (r : Relations) : Nat := r.entries.length

def isEmpty (r : Relations) : Bool := r.entries.isEmpty

end Relations
end DocTables
