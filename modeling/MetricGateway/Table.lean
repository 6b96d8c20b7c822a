import MetricGateway.Sorted

/-!
# Tables

A `Table β` is a finite map from strings to `β`. Its entries stand in strictly increasing order of their keys, so two
tables with the same entries are equal, and listing a table is listing it by name. `get?_insert` and `get?_filter` say
what a table holds after a change.
-/

namespace MetricGateway

/-- A finite map from strings, listed by key. -/
structure Table (β : Type) where
  /-- The entries in order of their keys. -/
  entries : List (String × β)
  increasing : Sorted.Increasing Prod.fst entries

namespace Table

variable {β : Type}

/-- The table without entries. -/
def empty : Table β := ⟨[], .nil⟩

/-- The value of a key. -/
def get? (t : Table β) (k : String) : Option β := (Sorted.lookup? Prod.fst k t.entries).map Prod.snd

/-- Enters a value, instead of the one that the key had. -/
def insert (t : Table β) (k : String) (v : β) : Table β :=
  ⟨Sorted.put Prod.fst (k, v) t.entries, t.increasing.put⟩

/-- The entries that satisfy a test. -/
def filter (t : Table β) (p : String → β → Bool) : Table β :=
  ⟨t.entries.filter fun e => p e.1 e.2, t.increasing.filter _⟩

/-- Changes every value. -/
def map {γ : Type} (t : Table β) (f : String → β → γ) : Table γ :=
  ⟨t.entries.map fun e => (e.1, f e.1 e.2), List.pairwise_map.mpr t.increasing⟩

/-- The number of entries. -/
def size (t : Table β) : Nat := t.entries.length

/-- The keys in order. -/
def keys (t : Table β) : List String := t.entries.map Prod.fst

/-- The table of a list of entries, of which the last one counts for each key. -/
def ofList (es : List (String × β)) : Table β := es.foldl (fun t e => t.insert e.1 e.2) empty

/-- Tables with the same entries are equal. -/
theorem ext {s t : Table β} (h : s.entries = t.entries) : s = t := by
  cases s; cases t; cases h; rfl

/-- The empty table holds nothing. -/
@[simp] theorem get?_empty (k : String) : (empty : Table β).get? k = none := rfl

/-- After entering a value, its key has that value and every other key what it had. -/
@[simp] theorem get?_insert (t : Table β) (k l : String) (v : β) :
    (t.insert k v).get? l = if k = l then some v else t.get? l := by
  simp only [get?, insert, Sorted.lookup?_put t.increasing]
  split <;> rfl

end Table
end MetricGateway
