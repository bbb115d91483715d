/-!
# Tables

A table holds entries under distinct keys, in the order in which the keys were first written.
`Table.put` changes an entry in its place, or adds it at the end.
-/

namespace MarketEngine

abbrev Table (κ ν : Type) := List (κ × ν)

namespace Table

variable {κ ν : Type} [BEq κ]

def get? (t : Table κ ν) (k : κ) : Option ν := t.lookup k

/-- The table with `v` under `k`. -/
def put : Table κ ν → κ → ν → Table κ ν
  | [], k, v => [(k, v)]
  | (k', v') :: t, k, v => if k' == k then (k', v) :: t else (k', v') :: put t k v

/-- Applies `f` to what stands under `k`, or to `initial` where nothing does. -/
def modify (t : Table κ ν) (k : κ) (initial : ν) (f : ν → ν) : Table κ ν :=
  t.put k (f ((t.get? k).getD initial))

def keys (t : Table κ ν) : List κ := t.map (·.1)

def ofList (entries : List (κ × ν)) : Table κ ν :=
  entries.foldl (fun t e => t.put e.1 e.2) []

/-- What was put under a key is found there, and elsewhere nothing changed. -/
theorem get?_put [LawfulBEq κ] (t : Table κ ν) (k k' : κ) (v : ν) :
    (t.put k v).get? k' = if k' == k then some v else t.get? k' := by
  induction t with
  | nil => grind [put, get?]
  | cons e t ih => grind [put, get?]

/-- What was applied to a key is found there, and elsewhere nothing changed. -/
theorem get?_modify [LawfulBEq κ] (t : Table κ ν) (k k' : κ) (initial : ν) (f : ν → ν) :
    (t.modify k initial f).get? k' =
      if k' == k then some (f ((t.get? k).getD initial)) else t.get? k' :=
  get?_put ..

end Table

end MarketEngine
