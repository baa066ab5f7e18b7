/-!
# Computations that may stop

A computation that succeeds has succeeded in each of its parts. `TopDown.bind_eq_ok` opens the
results of such computations one part after the other.
-/

namespace TopDown

variable {ε α β : Type}

/-- A composed computation succeeds exactly when both parts do. -/
theorem bind_eq_ok {x : Except ε α} {f : α → Except ε β} {b : β} :
    (x >>= f) = .ok b ↔ ∃ a, x = .ok a ∧ f a = .ok b := by
  cases x with
  | error e =>
    constructor
    · intro h
      cases h
    · rintro ⟨a, h, -⟩
      cases h
  | ok a =>
    constructor
    · exact fun h => ⟨a, rfl, h⟩
    · rintro ⟨a', h, hf⟩
      cases h
      exact hf

/-- A composed computation stops where one of its parts does. -/
theorem bind_eq_error {x : Except ε α} {f : α → Except ε β} {e : ε} :
    (x >>= f) = .error e ↔ x = .error e ∨ ∃ a, x = .ok a ∧ f a = .error e := by
  cases x with
  | error e' =>
    constructor
    · intro h
      cases h
      exact .inl rfl
    · rintro (h | ⟨a, h, -⟩)
      · cases h
        rfl
      · cases h
  | ok a =>
    constructor
    · exact fun h => .inr ⟨a, rfl, h⟩
    · rintro (h | ⟨a', h, hf⟩)
      · cases h
      · cases h
        exact hf

/-- What is made of a result comes from one. -/
theorem map_eq_ok {x : Except ε α} {f : α → β} {b : β} :
    x.map f = .ok b ↔ ∃ a, x = .ok a ∧ f a = b := by
  cases x with
  | error e =>
    constructor
    · intro h
      cases h
    · rintro ⟨a, h, -⟩
      cases h
  | ok a =>
    constructor
    · intro h
      cases h
      exact ⟨a, rfl, rfl⟩
    · rintro ⟨a', h, rfl⟩
      cases h
      rfl

theorem map_eq_error {x : Except ε α} {f : α → β} {e : ε} : x.map f = .error e ↔ x = .error e := by
  cases x with
  | error e' =>
    constructor
    · intro h
      cases h
      rfl
    · intro h
      cases h
      rfl
  | ok a =>
    constructor
    · intro h
      cases h
    · intro h
      cases h

/-- **Several computations** succeed together exactly when each of them does. -/
theorem mapM_id_eq_ok {xs : List (Except ε α)} {as : List α} :
    xs.mapM id = .ok as ↔ xs = as.map .ok := by
  induction xs generalizing as with
  | nil =>
    constructor
    · intro h
      cases h
      rfl
    · intro h
      rw [List.map_eq_nil_iff.mp h.symm]
      rfl
  | cons x rest ih =>
    rw [List.mapM_cons, id, bind_eq_ok]
    simp only [bind_eq_ok, ih]
    constructor
    · rintro ⟨a, rfl, as', rfl, h⟩
      cases h
      rfl
    · intro h
      obtain ⟨a, as', rfl, hx, hrest⟩ := List.map_eq_cons_iff.mp h.symm
      exact ⟨a, hx.symm, as', hrest.symm, rfl⟩

/-- Making something of each element succeeds where it does for all of them. -/
theorem mapM_eq_ok {f : β → Except ε α} {l : List β} {as : List α} :
    l.mapM f = .ok as ↔ l.map f = as.map .ok := by
  rw [← mapM_id_eq_ok, List.mapM_map]
  rfl

theorem exists_mapM_id {xs : List (Except ε α)} :
    (∃ as, xs.mapM id = .ok as) ↔ ∀ x ∈ xs, ∃ a, x = .ok a := by
  constructor
  · rintro ⟨as, h⟩ x hx
    rw [mapM_id_eq_ok.mp h] at hx
    obtain ⟨a, -, rfl⟩ := List.mem_map.mp hx
    exact ⟨a, rfl⟩
  · intro h
    induction xs with
    | nil => exact ⟨[], rfl⟩
    | cons x rest ih =>
      obtain ⟨a, rfl⟩ := h x List.mem_cons_self
      obtain ⟨as, has⟩ := ih fun y hy => h y (List.mem_cons_of_mem _ hy)
      refine ⟨a :: as, mapM_id_eq_ok.mpr ?_⟩
      rw [mapM_id_eq_ok.mp has]
      rfl

/-- A computation has the result that it leaves when its errors are forgotten. -/
theorem toOption_eq_some {x : Except ε α} {a : α} : x.toOption = some a ↔ x = .ok a := by
  cases x with
  | error e =>
    constructor
    · intro h
      cases h
    · intro h
      cases h
  | ok a' =>
    constructor
    · intro h
      cases h
      rfl
    · intro h
      cases h
      rfl

end TopDown
