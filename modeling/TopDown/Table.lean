/-!
# Tables

A table holds values under names, in the order of the names, with no name twice. The fields of a
document, the facts of a symbol, the columns of a bar and the named rules of a book are all tables.

A table is a list of pairs, so that it can be folded and compared like any list;
`TopDown.Table.put` is the only operation that makes one larger. `TopDown.Table.lookup_put` says
that it changes the value of one name and of no other, and `TopDown.Table.Ordered.put` that it keeps
the names in order.
-/

namespace TopDown

/-- Values under names, in the order of the names. -/
abbrev Table (α : Type) := List (String × α)

namespace Table

variable {α β : Type}

/-- The table with one more name, or with a new value for a name that it has. -/
def put (name : String) (value : α) : Table α → Table α
  | [] => [(name, value)]
  | (n, v) :: rest =>
    if name < n then (name, value) :: (n, v) :: rest
    else if name = n then (name, value) :: rest
    else (n, v) :: put name value rest

/-- The table of the given entries. Of several values for a name the last counts. -/
def ofEntries (entries : List (String × α)) : Table α :=
  entries.foldl (fun t e => put e.1 e.2 t) []

/-- The table has a value under the name. -/
def has (t : Table α) (name : String) : Bool :=
  (t.lookup name).isSome

/-- The names of the table, in order. -/
def names (t : Table α) : List String :=
  t.map (·.1)

/-- The table with each value replaced by its image. -/
def mapValues (f : α → β) (t : Table α) : Table β :=
  t.map fun e => (e.1, f e.2)

/-- The names stand in strict order. -/
def Ordered (t : Table α) : Prop :=
  t.names.Pairwise (· < ·)

/-! ### Looking up what was put in -/

/-- Putting a value in sets the value of that name, and of no other. -/
theorem lookup_put (name key : String) (value : α) (t : Table α) :
    (put name value t).lookup key = if key = name then some value else t.lookup key := by
  induction t with
  | nil =>
    by_cases h : key = name
    · subst h; simp [put]
    · have hb : (key == name) = false := by simp [h]
      simp [put, List.lookup_cons, h, hb]
  | cons e rest ih =>
    obtain ⟨n, v⟩ := e
    unfold put
    by_cases h : key = name
    · subst h
      split
      · simp
      · split
        · simp
        · rename_i hne
          have hb : (key == n) = false := by simp [hne]
          simp [List.lookup_cons, hb, ih]
    · have hb : (key == name) = false := by simp [h]
      split
      · simp [List.lookup_cons, hb]
      · split
        · rename_i heq
          subst heq
          simp [List.lookup_cons, hb]
        · cases hn : key == n <;> simp [List.lookup_cons, hn, ih, h]

/-- The value just put in is found. -/
theorem lookup_put_self (name : String) (value : α) (t : Table α) :
    (put name value t).lookup name = some value := by
  simp [lookup_put]

/-- Other names keep their values. -/
theorem lookup_put_of_ne {name key : String} (h : key ≠ name) (value : α) (t : Table α) :
    (put name value t).lookup key = t.lookup key := by
  simp [lookup_put, h]

/-- Replacing values by their images does so for the value of each name. -/
theorem lookup_mapValues (f : α → β) (name : String) (t : Table α) :
    (mapValues f t).lookup name = (t.lookup name).map f := by
  induction t with
  | nil => rfl
  | cons e rest ih =>
    obtain ⟨n, v⟩ := e
    simp only [mapValues, List.map_cons, List.lookup_cons] at ih ⊢
    cases name == n <;> simp [ih]

/-- What is found is an entry. -/
theorem mem_of_lookup {t : Table α} {name : String} {value : α}
    (h : t.lookup name = some value) : (name, value) ∈ t := by
  obtain ⟨before, after, rfl, -⟩ := List.lookup_eq_some_iff.mp h
  simp

/-- The names under which something is found are those of the table. -/
theorem has_iff {t : Table α} {name : String} : t.has name = true ↔ name ∈ t.names := by
  simp [has, names, List.lookup_isSome_iff]

/-! ### The order of the names -/

/-- The names after putting a value in are the old ones and the new one. -/
theorem mem_names_put {name key : String} {value : α} {t : Table α} :
    key ∈ names (put name value t) ↔ key = name ∨ key ∈ names t := by
  induction t with
  | nil => simp [put, names]
  | cons e rest ih =>
    obtain ⟨n, v⟩ := e
    simp only [names] at ih ⊢
    unfold put
    split
    · simp
    · split
      · simp_all
      · simp only [List.map_cons, List.mem_cons, ih]
        grind

/-- Putting a value in keeps the names in order. -/
theorem Ordered.put {t : Table α} (h : Ordered t) (name : String) (value : α) :
    Ordered (Table.put name value t) := by
  induction t with
  | nil => simp [Ordered, Table.put, names]
  | cons e rest ih =>
    obtain ⟨n, v⟩ := e
    have hn : ∀ k ∈ names rest, n < k := (List.pairwise_cons.1 h).1
    have hr : Ordered rest := (List.pairwise_cons.1 h).2
    unfold Table.put
    split
    · rename_i hlt
      refine List.pairwise_cons.2 ⟨?_, h⟩
      intro k hk
      rcases List.mem_cons.1 hk with rfl | hk
      · exact hlt
      · exact String.lt_trans hlt (hn k hk)
    · split
      · rename_i heq
        subst heq
        exact h
      · rename_i hlt hne
        refine List.pairwise_cons.2 ⟨?_, ih hr⟩
        intro k hk
        rcases mem_names_put.1 hk with rfl | hk
        · exact Std.lt_of_le_of_ne (Std.not_lt.1 hlt) (Ne.symm hne)
        · exact hn k hk

/-- The table of some entries is in order. -/
theorem ordered_ofEntries (entries : List (String × α)) : Ordered (ofEntries entries) := by
  suffices h : ∀ t : Table α, Ordered t → Ordered (entries.foldl (fun t e => put e.1 e.2 t) t) from
    h [] List.Pairwise.nil
  induction entries with
  | nil => exact fun _ h => h
  | cons e rest ih => exact fun t h => ih _ (h.put e.1 e.2)

end Table

end TopDown
