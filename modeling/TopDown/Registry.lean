import TopDown.Condition
import TopDown.Fault

/-!
# The registry of conditions

A registry keeps conditions under their names. They stand in a row, in the order in which their names
came in, and beside the row there is an index with the place of each name. Whoever will need a
condition again and again keeps its place, which never changes: `TopDown.Registry.enter` puts a new
name at the end of the row, and a condition under a known name in the place of the former one.

The row and the index say the same of names and places (`TopDown.Registry.index_iff`), and so no name
stands in two places.
-/

namespace TopDown

/-- Conditions under their names, in the order of their registration, and an index to them. -/
structure Registry where
  /-- The names and their conditions. -/
  entries : List (String × Condition)
  /-- The places of the names. -/
  index : Table Nat
  /-- The index has the place where a name stands, and no other. -/
  index_iff : ∀ name i, index.lookup name = some i ↔ (entries.map (·.1))[i]? = some name

namespace Registry

/-- The registry without conditions. -/
def empty : Registry where
  entries := []
  index := []
  index_iff _ _ := by simp

instance : Inhabited Registry :=
  ⟨empty⟩

/-! ### Registering -/

/-- The row with another condition in a place, under the name that stands there. -/
def replaceAt (condition : Condition) (i : Nat) (entries : List (String × Condition)) :
    List (String × Condition) :=
  entries.modify i fun e => (e.1, condition)

theorem getElem?_replaceAt (condition : Condition) (i j : Nat)
    (entries : List (String × Condition)) :
    (replaceAt condition i entries)[j]? =
      if i = j then (entries[j]?).map fun e => (e.1, condition) else entries[j]? := by
  rw [replaceAt, List.getElem?_modify]
  split <;> cases entries[j]? <;> rfl

/-- No name moves when a condition is replaced. -/
theorem map_replaceAt (condition : Condition) (i : Nat) (entries : List (String × Condition)) :
    (replaceAt condition i entries).map (·.1) = entries.map (·.1) := by
  refine List.ext_getElem? fun j => ?_
  rw [List.getElem?_map, List.getElem?_map, getElem?_replaceAt]
  split
  · rw [Option.map_map]
    rfl
  · rfl

/-- A name that the index does not have can go to the end of the row. -/
theorem index_iff_append (r : Registry) {name : String} (condition : Condition)
    (hnew : r.index.lookup name = none) (key : String) (i : Nat) :
    (Table.put name r.entries.length r.index).lookup key = some i ↔
      ((r.entries ++ [(name, condition)]).map (·.1))[i]? = some key := by
  have hplace : ((r.entries ++ [(name, condition)]).map (·.1))[i]? = some key ↔
      (r.entries.map (·.1))[i]? = some key ∨ i = r.entries.length ∧ name = key := by
    rw [List.map_append, List.map_singleton, List.getElem?_append, List.length_map]
    split
    · rename_i hi
      simp [Nat.ne_of_lt hi]
    · rename_i hi
      have hnone : (r.entries.map (·.1))[i]? = none :=
        List.getElem?_eq_none (by rw [List.length_map]; omega)
      rw [hnone, List.getElem?_singleton]
      by_cases hlast : i = r.entries.length
      · simp [hlast]
      · rw [if_neg (by omega)]
        simp [hlast]
  rw [hplace, ← r.index_iff, Table.lookup_put]
  split
  · rename_i hkey
    subst hkey
    simp [hnew, eq_comm]
  · rename_i hkey
    simp [Ne.symm hkey]

/-- The registry with a condition under a name, and the place of that name. -/
def enter (r : Registry) (name : String) (condition : Condition) : Registry × Nat :=
  match hplace : r.index.lookup name with
  | some i =>
    ({ r with
      entries := replaceAt condition i r.entries
      index_iff := by
        intro name i
        rw [map_replaceAt]
        exact r.index_iff name i }, i)
  | none =>
    (⟨r.entries ++ [(name, condition)], Table.put name r.entries.length r.index,
      r.index_iff_append condition hplace⟩, r.entries.length)

/-- The registry with a condition under a name. -/
def register (r : Registry) (name : String) (condition : Condition) : Registry :=
  (r.enter name condition).1

/-- The registry with several conditions, one after the other. -/
def registerAll (r : Registry) (conditions : List (String × Condition)) : Registry :=
  conditions.foldl (fun r e => r.register e.1 e.2) r

/-- The registry of the conditions that are known from the start. -/
def builtin : Registry :=
  empty.registerAll Condition.builtins

/-! ### Looking up -/

/-- The names, in the order of their registration. -/
def names (r : Registry) : List String :=
  r.entries.map (·.1)

/-- The number of conditions. -/
def size (r : Registry) : Nat :=
  r.entries.length

/-- The place of a name. -/
def place? (r : Registry) (name : String) : Option Nat :=
  r.index.lookup name

/-- The name is registered. -/
def contains (r : Registry) (name : String) : Bool :=
  r.index.has name

/-- The condition in a place. -/
def at? (r : Registry) (i : Nat) : Option Condition :=
  (r.entries[i]?).map (·.2)

/-- The condition registered under a name. -/
def find? (r : Registry) (name : String) : Option Condition :=
  r.entries.lookup name

/-! ### Checking -/

/-- The verdict of the condition in a place. Every place that a registry has given out has one. -/
def evaluateAt (r : Registry) (i : Nat) (c : Context) : Verdict :=
  match r.at? i with
  | some condition => condition c
  | none => .broken (.outOfBounds r.size i)

/-- The places of some names, unless one of them is unknown. -/
def resolve (r : Registry) : List String → Except Fault (List (String × Nat))
  | [] => .ok []
  | n :: rest =>
    match r.place? n with
    | none => .error (.unknownCondition n [.key "registry"])
    | some i => do return (n, i) :: (← r.resolve rest)

/-- The verdicts of some conditions. All names are looked up before any condition is checked. -/
def evaluate (r : Registry) (c : Context) (names : List String) : Except Fault (Table Verdict) := do
  let places ← r.resolve names
  return Table.ofEntries (places.map fun (n, i) => (n, r.evaluateAt i c))

end Registry

end TopDown
