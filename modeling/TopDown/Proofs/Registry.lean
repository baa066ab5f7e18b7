import Mathlib.Data.List.Nodup
import TopDown.Registry

/-!
# Places in a registry

A place that a registry has given out stays the place of its name, however many conditions are
registered after it, and a condition is found in its place as it is found under its name.

What registering does is said once, for a name that is known (`TopDown.Registry.enter_of_known`) and
for one that is new (`TopDown.Registry.enter_of_new`). From then on a registry is described by what it
answers: the place of a name (`TopDown.Registry.place?_register_eq`), the names in their order
(`TopDown.Registry.names_register`) and the condition under a name
(`TopDown.Registry.find?_register`).
-/

namespace TopDown

namespace Registry

variable {r : Registry} {name key : String} {condition : Condition} {i : Nat}

/-! ### Names and places -/

/-- **The place of a name is where it stands.** -/
theorem place?_eq_some_iff : r.place? name = some i ↔ r.names[i]? = some name :=
  r.index_iff name i

theorem place?_isSome : (r.place? name).isSome = true ↔ name ∈ r.names := by
  rw [Option.isSome_iff_exists, List.mem_iff_getElem?]
  exact exists_congr fun _ => place?_eq_some_iff

theorem place?_eq_none_iff : r.place? name = none ↔ name ∉ r.names := by
  rw [← place?_isSome, Option.not_isSome_iff_eq_none]

theorem lt_size_of_place? (h : r.place? name = some i) : i < r.size := by
  obtain ⟨hi, -⟩ := List.getElem?_eq_some_iff.mp (place?_eq_some_iff.mp h)
  rwa [names, List.length_map] at hi

/-- No two names have one place. -/
theorem place?_inj (h : r.place? name = some i) (h' : r.place? key = some i) : name = key :=
  Option.some.inj ((place?_eq_some_iff.mp h).symm.trans (place?_eq_some_iff.mp h'))

/-- No name stands in two places. -/
theorem nodup_names (r : Registry) : r.names.Nodup := by
  refine List.nodup_iff_injective_getElem.mpr fun i j hij => Fin.ext ?_
  have hi : r.place? r.names[i] = some i := place?_eq_some_iff.mpr (by simp)
  have hj : r.place? r.names[i] = some j := place?_eq_some_iff.mpr (by simp [hij])
  exact Option.some.inj (hi.symm.trans hj)

/-! ### Registering -/

/-- **A known name** keeps its place, and another condition stands there. -/
theorem enter_of_known (h : r.place? name = some i) (condition : Condition) :
    (r.enter name condition).2 = i ∧ (r.register name condition).index = r.index ∧
      (r.register name condition).entries = replaceAt condition i r.entries := by
  unfold register enter
  split
  · rename_i j hj
    obtain rfl : j = i := Option.some.inj (hj.symm.trans h)
    exact ⟨rfl, rfl, rfl⟩
  · rename_i hj
    cases hj.symm.trans h

/-- **A new name** goes to the end. -/
theorem enter_of_new (h : r.place? name = none) (condition : Condition) :
    (r.enter name condition).2 = r.size ∧
      (r.register name condition).index = Table.put name r.size r.index ∧
      (r.register name condition).entries = r.entries ++ [(name, condition)] := by
  unfold register enter
  split
  · rename_i j hj
    cases hj.symm.trans h
  · exact ⟨rfl, rfl, rfl⟩

/-- Registering gives a name the place that it has, or the next one. -/
theorem enter_place (r : Registry) (name : String) (condition : Condition) :
    (r.enter name condition).2 = (r.place? name).getD r.size := by
  cases h : r.place? name with
  | some i => exact (enter_of_known h condition).1
  | none => exact (enter_of_new h condition).1

/-- **Registering gives a place to one name**, and leaves the others in theirs. -/
theorem place?_register_eq (r : Registry) (name key : String) (condition : Condition) :
    (r.register name condition).place? key =
      if key = name then some (r.enter name condition).2 else r.place? key := by
  unfold place?
  cases h : r.place? name with
  | some i =>
    obtain ⟨hplace, hindex, -⟩ := enter_of_known h condition
    rw [hindex, hplace]
    split
    · rename_i hkey
      rw [hkey]
      exact h
    · rfl
  | none =>
    obtain ⟨hplace, hindex, -⟩ := enter_of_new h condition
    rw [hindex, hplace, Table.lookup_put]

/-- **A place is given out for good.** -/
theorem place?_register (h : r.place? key = some i) :
    (r.register name condition).place? key = some i := by
  rw [place?_register_eq]
  split
  · rename_i hkey
    rw [enter_place, ← hkey, h]
    rfl
  · exact h

/-- A new name is the last one; a known one changes nothing. -/
theorem names_register (r : Registry) (name : String) (condition : Condition) :
    (r.register name condition).names = if name ∈ r.names then r.names else r.names ++ [name] := by
  cases h : r.place? name with
  | some i =>
    obtain ⟨-, -, hentries⟩ := enter_of_known h condition
    rw [if_pos (place?_isSome.mp (by rw [h]; rfl)), names, hentries, map_replaceAt]
    rfl
  | none =>
    obtain ⟨-, -, hentries⟩ := enter_of_new h condition
    rw [if_neg (place?_eq_none_iff.mp h), names, hentries, List.map_append]
    rfl

theorem mem_names_register :
    key ∈ (r.register name condition).names ↔ key ∈ r.names ∨ key = name := by
  rw [names_register]
  split
  · rename_i h
    refine ⟨.inl, fun hk => ?_⟩
    rcases hk with hk | rfl
    · exact hk
    · exact h
  · simp

/-- Registering brings no other entry than the new one. -/
theorem mem_register {r : Registry} {name : String} {condition : Condition} {e : String × Condition}
    (h : e ∈ (r.register name condition).entries) : e = (name, condition) ∨ e ∈ r.entries := by
  cases hplace : r.place? name with
  | some i =>
    rw [(enter_of_known hplace condition).2.2] at h
    obtain ⟨j, hj⟩ := List.mem_iff_getElem?.mp h
    rw [getElem?_replaceAt] at hj
    split at hj
    · rename_i hi
      obtain ⟨e', he', rfl⟩ := Option.map_eq_some_iff.mp hj
      have hname : r.names[j]? = some name := hi ▸ place?_eq_some_iff.mp hplace
      rw [names, List.getElem?_map, he'] at hname
      obtain rfl : e'.1 = name := Option.some.inj hname
      exact .inl rfl
    · exact .inr (List.mem_of_getElem? hj)
  | none =>
    rw [(enter_of_new hplace condition).2.2] at h
    exact (List.mem_append.mp h).symm.imp_left List.mem_singleton.mp

theorem mem_registerAll {r : Registry} {conditions : List (String × Condition)}
    {e : String × Condition} (h : e ∈ (r.registerAll conditions).entries) :
    e ∈ conditions ∨ e ∈ r.entries := by
  induction conditions generalizing r with
  | nil => exact .inr h
  | cons first rest ih =>
    rcases ih h with h | h
    · exact .inl (List.mem_cons_of_mem _ h)
    · rcases mem_register h with rfl | h
      · exact .inl List.mem_cons_self
      · exact .inr h

/-! ### Conditions in their places -/

/-- The names under which a condition is found are those of the registry. -/
theorem find?_isSome : (r.find? name).isSome = true ↔ name ∈ r.names :=
  Table.has_iff

/-- **The condition in the place of a name is the one under that name.** -/
theorem at?_of_place? (h : r.place? name = some i) : r.at? i = r.find? name := by
  have hname := place?_eq_some_iff.mp h
  rw [names, List.getElem?_map] at hname
  obtain ⟨⟨n, condition⟩, hentry, rfl⟩ := Option.map_eq_some_iff.mp hname
  obtain ⟨hi, hat⟩ := List.getElem?_eq_some_iff.mp hentry
  rw [at?, hentry, Option.map_some, find?, eq_comm, List.lookup_eq_some_iff]
  refine ⟨r.entries.take i, r.entries.drop (i + 1), ?_, fun e he => ?_⟩
  · rw [← hat, List.getElem_cons_drop, List.take_append_drop]
  · -- the name does not stand in an earlier place
    obtain ⟨j, hj, rfl⟩ := List.mem_take_iff_getElem.mp he
    rw [bne_iff_ne]
    intro heq
    have hj' : r.names[j]? = some n := by
      rw [names, List.getElem?_map, List.getElem?_eq_getElem (by omega), Option.map_some, ← heq]
    have hsame := h.symm.trans (place?_eq_some_iff.mpr hj')
    have : i = j := Option.some.inj hsame
    omega

theorem find?_eq_bind (r : Registry) (name : String) :
    r.find? name = (r.place? name).bind r.at? := by
  cases h : r.place? name with
  | some i => exact (at?_of_place? h).symm
  | none =>
    have hfind := mt find?_isSome.mp (place?_eq_none_iff.mp h)
    rwa [Option.not_isSome_iff_eq_none] at hfind

/-- **Registering puts a condition in the place of its name**, and leaves the other places alone. -/
theorem at?_register (r : Registry) (name : String) (condition : Condition) (i : Nat) :
    (r.register name condition).at? i =
      if i = (r.enter name condition).2 then some condition else r.at? i := by
  unfold at?
  cases h : r.place? name with
  | some j =>
    obtain ⟨hplace, -, hentries⟩ := enter_of_known h condition
    rw [hplace, hentries, getElem?_replaceAt]
    by_cases hi : i = j
    · subst hi
      rw [if_pos rfl, if_pos rfl, List.getElem?_eq_getElem (lt_size_of_place? h)]
      rfl
    · rw [if_neg hi, if_neg (Ne.symm hi)]
  | none =>
    obtain ⟨hplace, -, hentries⟩ := enter_of_new h condition
    rw [hplace, hentries, List.getElem?_append]
    by_cases hi : i = r.size
    · subst hi
      simp [size]
    · rw [if_neg hi]
      split
      · rfl
      · rename_i hge
        have hbeyond : r.size < i := by
          rw [size] at hi ⊢
          omega
        rw [List.getElem?_eq_none (by simp [size] at hbeyond ⊢; omega),
          List.getElem?_eq_none (Nat.le_of_lt hbeyond)]

/-- Registering sets the condition of a name, and of no other. -/
theorem find?_register (r : Registry) (name key : String) (condition : Condition) :
    (r.register name condition).find? key =
      if key = name then some condition else r.find? key := by
  have hplace (key : String) := place?_register_eq r name key condition
  rw [find?_eq_bind, hplace key]
  split
  · rw [Option.bind_some, at?_register, if_pos rfl]
  · rename_i hkey
    rw [find?_eq_bind]
    cases h : r.place? key with
    | none => rfl
    | some i =>
      rw [Option.bind_some, at?_register, if_neg, Option.bind_some]
      rintro rfl
      have hname := hplace name
      have hother := hplace key
      rw [if_pos rfl] at hname
      rw [if_neg hkey, h] at hother
      exact hkey (place?_inj hother hname)

end Registry

/-! ### The conditions that are known from the start -/

/-- **What holds of each kind of condition holds of those that are known from the start.** No key that
a condition on a field asks for ends in the letter that the keys of thresholds end in. -/
theorem Condition.forall_builtins {P : String → Condition → Prop}
    (hfield : ∀ name fields default compare,
      (fields.all fun key => key.toList.getLast? ≠ some 'd') = true →
        P name (onField name fields default compare))
    (hrange : ∀ name, P name (atrBelow name))
    (haligned : ∀ name above, P name (averagesAligned name above))
    (haverage : ∀ name above, P name (priceBesideAverage name above))
    (hvwap : ∀ name above, P name (priceBesideVwap above)) :
    ∀ e ∈ builtins, P e.1 e.2 := by
  intro e he
  rcases List.mem_append.mp he with he | he
  · simp only [onFields, List.mem_cons, List.not_mem_nil, or_false] at he
    rcases he with rfl | rfl | rfl | rfl | rfl | rfl | rfl | rfl <;>
    · dsimp only
      exact hfield _ _ _ _ (by decide)
  · simp only [List.mem_cons, List.not_mem_nil, or_false] at he
    rcases he with rfl | rfl | rfl | rfl | rfl | rfl | rfl
    · exact hrange _
    · exact haligned _ true
    · exact haligned _ false
    · exact haverage _ true
    · exact haverage _ false
    · exact hvwap _ true
    · exact hvwap _ false

end TopDown
