/-! Stable sorting by insertion: what is not less stays behind what came before it. -/
namespace DocTables.StableSort
variable {α : Type u}

/-- Puts `x` behind the last member of `sorted` that it is not less than; `sorted` is given from
its last member on. -/
def insertFromLast (less : α → α → Bool) (x : α) : List α → List α
  | [] => [x]
  | y :: ys => if less x y then y :: insertFromLast less x ys else x :: y :: ys

def sort (less : α → α → Bool) (xs : List α) : List α :=
  (xs.foldl (fun sorted x => insertFromLast less x sorted) []).reverse

end DocTables.StableSort
