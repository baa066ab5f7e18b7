import Mathlib.Data.List.Nodup
import TopDown.Json.Path

/-!
# Looking into documents

The assembly walks down a configuration object by object and takes the fields of each in order, while
a place names a value by the steps from the root. In a document whose objects have no key twice the
two agree: what stands under a key is found under it (`TopDown.Table.lookup_of_mem`), and this holds
of every object inside (`TopDown.Json.ordered_fieldsAt`).
-/

namespace TopDown

/-! ### Tables in order -/

namespace Table

variable {α : Type} {t : Table α}

/-- No name stands twice. -/
theorem Ordered.nodup (h : Ordered t) : t.names.Nodup :=
  h.imp fun {a b} hlt heq => by
    subst heq
    exact String.lt_irrefl a hlt

theorem lookup_cons_of_ne {n key : String} (h : key ≠ n) (value : α) (rest : Table α) :
    List.lookup key ((n, value) :: rest) = rest.lookup key := by
  rw [List.lookup_cons, beq_false_of_ne h]

/-- **What stands under a name is found under it**, if no name stands twice. -/
theorem lookup_of_mem (h : t.names.Nodup) {name : String} {value : α} (hmem : (name, value) ∈ t) :
    t.lookup name = some value := by
  induction t with
  | nil => cases hmem
  | cons e rest ih =>
    obtain ⟨n, v⟩ := e
    obtain ⟨hnew, hrest⟩ := List.nodup_cons.mp h
    rcases List.mem_cons.mp hmem with heq | hbehind
    · cases heq
      exact List.lookup_cons_self
    · have hne : name ≠ n := by
        intro heq
        rw [← heq] at hnew
        exact hnew (List.mem_map.mpr ⟨(name, value), hbehind, rfl⟩)
      rw [lookup_cons_of_ne hne]
      exact ih hrest hbehind

/-- **Tables in which the same is found under every name are the same.** -/
theorem Ordered.ext {t' : Table α} (ht : t.Ordered) (ht' : t'.Ordered)
    (h : ∀ name, t.lookup name = t'.lookup name) : t = t' := by
  have hperm : t.Perm t' := by
    refine (List.perm_ext_iff_of_nodup (.of_map _ ht.nodup) (.of_map _ ht'.nodup)).mpr fun e => ?_
    obtain ⟨name, value⟩ := e
    constructor
    · intro hmem
      refine mem_of_lookup ?_
      rw [← h, lookup_of_mem ht.nodup hmem]
    · intro hmem
      refine mem_of_lookup ?_
      rw [h, lookup_of_mem ht'.nodup hmem]
  refine hperm.eq_of_pairwise ?_ (List.pairwise_map.mp ht) (List.pairwise_map.mp ht')
  intro e e' _ _ hlt hgt
  exact absurd (String.lt_trans hlt hgt) (String.lt_irrefl _)

/-- Of two values for a name the later counts. -/
theorem Ordered.put_put (ht : t.Ordered) (name : String) (first second : α) :
    Table.put name second (Table.put name first t) = Table.put name second t := by
  refine ((ht.put _ _).put _ _).ext (ht.put _ _) fun key => ?_
  simp only [lookup_put]
  split <;> rfl

/-- Values for different names may be put in in either order. -/
theorem Ordered.put_comm (ht : t.Ordered) {name other : String} (hne : name ≠ other)
    (value value' : α) :
    Table.put name value (Table.put other value' t) =
      Table.put other value' (Table.put name value t) := by
  refine ((ht.put _ _).put _ _).ext ((ht.put _ _).put _ _) fun key => ?_
  simp only [lookup_put]
  by_cases hkey : key = name
  · subst hkey
    rw [if_pos rfl, if_neg hne, if_pos rfl]
  · rw [if_neg hkey, if_neg hkey]

end Table

namespace Json

/-! ### Values that are given -/

theorem lookup_of_given? {fields : Table Json} {key : String} {v : Json}
    (h : given? fields key = some v) : fields.lookup key = some v := by
  unfold given? at h
  split at h
  · cases h
  · cases h
  · rw [← h]
    assumption

theorem given?_eq_none {fields : Table Json} {key : String} (h : given? fields key = none) :
    fields.lookup key = none ∨ fields.lookup key = some .null := by
  unfold given? at h
  split at h
  · exact .inl ‹_›
  · exact .inr ‹_›
  · cases h

/-! ### Values at places -/

theorem at?_append (v : Json) (p q : Path) : v.at? (p ++ q) = (v.at? p).bind fun w => w.at? q := by
  induction p generalizing v with
  | nil => rfl
  | cons s p ih =>
    show (v.step? s).bind (fun w => w.at? (p ++ q)) = ((v.step? s).bind fun w => w.at? p).bind _
    rw [Option.bind_assoc]
    exact congrArg _ (funext ih)

/-- The fields of the object at a place; none if there is no object. -/
def fieldsAt (v : Json) (p : Path) : Table Json :=
  match v.at? p with
  | some (.obj fields) => fields
  | _ => []

/-- **A field of an object** stands one step below it. -/
theorem at?_key (v : Json) (p : Path) (name : String) :
    v.at? (p.key name) = (v.fieldsAt p).lookup name := by
  rw [Path.key, at?_append, fieldsAt]
  cases v.at? p with
  | none => rfl
  | some w =>
    cases w with
    | obj fields =>
      exact Option.bind_fun_some _
    | null | bool _ | int _ | real _ | str _ | arr _ => rfl

/-- The fields of an object one step below another one. -/
theorem fieldsAt_key (v : Json) (p : Path) (name : String) :
    v.fieldsAt (p.key name) =
      match (v.fieldsAt p).lookup name with
      | some (.obj fields) => fields
      | _ => [] := by
  rw [fieldsAt, at?_key]

theorem fieldsAt_of_lookup {v : Json} {p : Path} {name : String} {fields : Table Json}
    (h : (v.fieldsAt p).lookup name = some (.obj fields)) : v.fieldsAt (p.key name) = fields := by
  rw [fieldsAt_key, h]

/-- An absent value has no fields. -/
theorem fieldsAt_of_not_given {v : Json} {p : Path} {name : String}
    (h : given? (v.fieldsAt p) name = none) : v.fieldsAt (p.key name) = [] := by
  rw [fieldsAt_key]
  rcases given?_eq_none h with h | h <;> rw [h]

/-! ### Documents in order -/

mutual

/-- Whether a document is ordered can be computed. -/
def decidableOrdered : (v : Json) → Decidable v.Ordered
  | .arr items => decidableOrderedItems items
  | .obj fields =>
    have : Decidable (OrderedFields fields) := decidableOrderedFields fields
    inferInstanceAs (Decidable ((Table.names fields).Pairwise (· < ·) ∧ OrderedFields fields))
  | .null => isTrue trivial
  | .bool _ => isTrue trivial
  | .int _ => isTrue trivial
  | .real _ => isTrue trivial
  | .str _ => isTrue trivial

/-- The same of items. -/
def decidableOrderedItems : (items : List Json) → Decidable (OrderedItems items)
  | [] => isTrue trivial
  | v :: rest =>
    have : Decidable v.Ordered := decidableOrdered v
    have : Decidable (OrderedItems rest) := decidableOrderedItems rest
    inferInstanceAs (Decidable (v.Ordered ∧ OrderedItems rest))

/-- The same of fields. -/
def decidableOrderedFields : (fields : List (String × Json)) → Decidable (OrderedFields fields)
  | [] => isTrue trivial
  | (_, v) :: rest =>
    have : Decidable v.Ordered := decidableOrdered v
    have : Decidable (OrderedFields rest) := decidableOrderedFields rest
    inferInstanceAs (Decidable (v.Ordered ∧ OrderedFields rest))

end

instance (v : Json) : Decidable v.Ordered :=
  decidableOrdered v

theorem OrderedItems.mem {items : List Json} (h : OrderedItems items) {v : Json}
    (hmem : v ∈ items) : v.Ordered := by
  induction items with
  | nil => cases hmem
  | cons w rest ih =>
    rcases List.mem_cons.mp hmem with rfl | hmem
    · exact h.1
    · exact ih h.2 hmem

theorem OrderedFields.mem {fields : Table Json} (h : OrderedFields fields) {name : String}
    {v : Json} (hmem : (name, v) ∈ fields) : v.Ordered := by
  induction fields with
  | nil => cases hmem
  | cons e rest ih =>
    rcases List.mem_cons.mp hmem with rfl | hmem
    · exact h.1
    · exact ih h.2 hmem

theorem Ordered.step? {v w : Json} (h : v.Ordered) {s : Step} (hs : v.step? s = some w) :
    w.Ordered := by
  cases v with
  | arr items =>
    cases s with
    | index i => exact OrderedItems.mem h (List.mem_of_getElem? hs)
    | key _ => cases hs
  | obj fields =>
    cases s with
    | key name => exact OrderedFields.mem h.2 (Table.mem_of_lookup hs)
    | index _ => cases hs
  | null | bool _ | int _ | real _ | str _ => cases s <;> cases hs

/-- **Every part of an ordered document is ordered.** -/
theorem Ordered.at? {v w : Json} (h : v.Ordered) {p : Path} (hp : v.at? p = some w) :
    w.Ordered := by
  induction p generalizing v with
  | nil =>
    cases hp
    exact h
  | cons s p ih =>
    obtain ⟨u, hu, hp⟩ := Option.bind_eq_some_iff.mp hp
    exact ih (h.step? hu) hp

theorem ordered_fieldsAt {v : Json} (h : v.Ordered) (p : Path) : Table.Ordered (v.fieldsAt p) := by
  unfold fieldsAt
  split
  · rename_i fields hp
    exact (h.at? hp).1
  · exact List.Pairwise.nil

end Json

end TopDown
