import TopDown.Json.Reader
import TopDown.Proofs.Bind
import TopDown.Proofs.Document

/-!
# Documents that are read are in order

Proofs about configurations suppose that no object has a key twice. The reader sees to it: it puts
the fields of an object in order as soon as the closing brace is read, and of several values for a
key it keeps the last. `TopDown.Json.ordered_of_parse` says so for every text.
-/

namespace TopDown

namespace Table

variable {α : Type} {t : Table α}

/-- An entry of a table that a value was put in is new or an old one. -/
theorem mem_put {name : String} {value : α} {e : String × α} (h : e ∈ Table.put name value t) :
    e = (name, value) ∨ e ∈ t := by
  induction t with
  | nil => exact .inl (List.mem_singleton.mp h)
  | cons e' rest ih =>
    obtain ⟨n, v⟩ := e'
    unfold Table.put at h
    split at h
    · exact List.mem_cons.mp h
    · split at h
      · rcases List.mem_cons.mp h with h | h
        · exact .inl h
        · exact .inr (List.mem_cons_of_mem _ h)
      · rcases List.mem_cons.mp h with rfl | h
        · exact .inr List.mem_cons_self
        · exact (ih h).imp_right (List.mem_cons_of_mem _)

/-- The entries of a table are among those it is made of. -/
theorem mem_of_mem_ofEntries {entries : List (String × α)} {e : String × α}
    (h : e ∈ Table.ofEntries entries) : e ∈ entries := by
  suffices hfold : ∀ t : Table α, e ∈ entries.foldl (fun t e => Table.put e.1 e.2 t) t →
      e ∈ entries ∨ e ∈ t from (hfold [] h).resolve_right List.not_mem_nil
  clear h
  induction entries with
  | nil => exact fun t h => .inr h
  | cons e' rest ih =>
    intro t h
    rcases ih _ h with h | h
    · exact .inl (List.mem_cons_of_mem _ h)
    · rcases mem_put h with rfl | h
      · exact .inl List.mem_cons_self
      · exact .inr h

/-- The names of a table are those of the entries it is made of. -/
theorem mem_names_ofEntries {entries : List (String × α)} {key : String} :
    key ∈ (ofEntries entries).names ↔ ∃ v, (key, v) ∈ entries := by
  have hfold (t : Table α) : key ∈ (entries.foldl (fun t e => put e.1 e.2 t) t).names ↔
      (∃ v, (key, v) ∈ entries) ∨ key ∈ t.names := by
    induction entries generalizing t with
    | nil => simp
    | cons e rest ih =>
      obtain ⟨n, v⟩ := e
      rw [List.foldl_cons, ih, mem_names_put]
      simp only [List.mem_cons, Prod.mk.injEq, exists_or, exists_eq_right]
      tauto
  exact (hfold []).trans (or_iff_left List.not_mem_nil)

end Table

namespace Json

theorem orderedFields_of_forall {fields : Table Json} (h : ∀ e ∈ fields, e.2.Ordered) :
    OrderedFields fields := by
  induction fields with
  | nil => exact trivial
  | cons e rest ih =>
    exact ⟨h e List.mem_cons_self, ih fun e' he' => h e' (List.mem_cons_of_mem _ he')⟩

/-- An object of ordered values is ordered, however its fields are given. -/
theorem ordered_ofFields {fields : List (String × Json)} (h : ∀ e ∈ fields, e.2.Ordered) :
    (ofFields fields).Ordered :=
  ⟨Table.ordered_ofEntries fields,
    orderedFields_of_forall fun e he => h e (Table.mem_of_mem_ofEntries he)⟩

/-! ### Numbers and words -/

theorem ordered_wholeNumber (negative : Bool) (ds : List Char) :
    (wholeNumber negative ds).Ordered := by
  unfold wholeNumber
  dsimp only
  split
  · split <;> exact trivial
  · split <;> exact trivial

theorem ordered_of_readNumber {s r : List Char} {v : Json} (h : readNumber s = .ok (v, r)) :
    v.Ordered := by
  unfold readNumber at h
  dsimp only at h
  obtain ⟨⟨whole, r₁⟩, -, h⟩ := bind_eq_ok.mp h
  obtain ⟨⟨fraction, r₂⟩, -, h⟩ := bind_eq_ok.mp h
  obtain ⟨⟨exponent, r₃⟩, -, h⟩ := bind_eq_ok.mp h
  dsimp only at h
  split at h
  · split at h
    · cases h
      split
      · exact ordered_wholeNumber _ _
      · exact trivial
    · cases h
  · cases h
    split
    · exact ordered_wholeNumber _ _
    · exact trivial

theorem ordered_of_readLiteral {s r : List Char} {v : Json} (h : readLiteral s = .ok (v, r)) :
    v.Ordered := by
  unfold readLiteral at h
  split at h
  · cases h
    exact trivial
  · cases h
    exact trivial
  · cases h
    exact trivial
  · cases h

/-! ### Documents -/

/-- A reader with so much fuel returns ordered documents only. -/
structure ReadsOrdered (fuel : Nat) : Prop where
  /-- As values. -/
  value : ∀ depth s v r, readValue fuel depth s = .ok (v, r) → v.Ordered
  /-- As items. -/
  items : ∀ depth s vs r, readItems fuel depth s = .ok (vs, r) → OrderedItems vs
  /-- As fields. -/
  fields : ∀ depth s fs r, readFields fuel depth s = .ok (fs, r) → ∀ e ∈ fs, e.2.Ordered

section Step

variable {fuel depth : Nat} (ih : ReadsOrdered fuel)
include ih

theorem ordered_of_readValue {s r : List Char} {v : Json}
    (h : readValue (fuel + 1) depth s = .ok (v, r)) : v.Ordered := by
  unfold readValue at h
  split at h
  · cases h
  · obtain ⟨⟨t, r'⟩, -, h⟩ := map_eq_ok.mp h
    cases h
    exact trivial
  · -- a list, which may have no items
    split at h
    · cases h
    · split at h
      · cases h
        exact trivial
      · obtain ⟨⟨vs, r'⟩, hvs, h⟩ := map_eq_ok.mp h
        cases h
        exact ih.items _ _ _ _ hvs
  · -- an object, which may have no fields
    split at h
    · cases h
    · split at h
      · cases h
        exact ⟨List.Pairwise.nil, trivial⟩
      · obtain ⟨⟨fs, r'⟩, hfs, h⟩ := map_eq_ok.mp h
        cases h
        exact ordered_ofFields (ih.fields _ _ _ _ hfs)
  · split at h
    · exact ordered_of_readNumber h
    · exact ordered_of_readLiteral h

theorem ordered_of_readItems {s r : List Char} {vs : List Json}
    (h : readItems (fuel + 1) depth s = .ok (vs, r)) : OrderedItems vs := by
  obtain ⟨⟨v, r'⟩, hv, h⟩ := bind_eq_ok.mp h
  dsimp only at h
  split at h
  · obtain ⟨⟨vs', r''⟩, hvs, h⟩ := bind_eq_ok.mp h
    cases h
    exact ⟨ih.value _ _ _ _ hv, ih.items _ _ _ _ hvs⟩
  · cases h
    exact ⟨ih.value _ _ _ _ hv, trivial⟩
  · cases h

theorem ordered_of_readFields {s r : List Char} {fs : List (String × Json)}
    (h : readFields (fuel + 1) depth s = .ok (fs, r)) : ∀ e ∈ fs, e.2.Ordered := by
  intro e he
  unfold readFields at h
  split at h
  · obtain ⟨⟨k, r₁⟩, -, h⟩ := bind_eq_ok.mp h
    dsimp only at h
    split at h
    · obtain ⟨⟨v, r₂⟩, hv, h⟩ := bind_eq_ok.mp h
      dsimp only at h
      split at h
      · obtain ⟨⟨fs', r₃⟩, hfs, h⟩ := bind_eq_ok.mp h
        cases h
        rcases List.mem_cons.mp he with rfl | he
        · exact ih.value _ _ _ _ hv
        · exact ih.fields _ _ _ _ hfs e he
      · cases h
        rw [List.mem_singleton.mp he]
        exact ih.value _ _ _ _ hv
      · cases h
    · cases h
  · cases h

end Step

/-- However much fuel there is, the documents are ordered. -/
theorem readsOrdered (fuel : Nat) : ReadsOrdered fuel := by
  induction fuel with
  | zero =>
    constructor
    · intro depth s v r h
      cases h
    · intro depth s vs r h
      cases h
    · intro depth s fs r h
      cases h
  | succ fuel ih =>
    exact ⟨fun _ _ _ _ h => ordered_of_readValue ih h, fun _ _ _ _ h => ordered_of_readItems ih h,
      fun _ _ _ _ h => ordered_of_readFields ih h⟩

/-- **A document that has been read is ordered.** -/
theorem ordered_of_parse {text : String} {v : Json} (h : parse text = .ok v) : v.Ordered := by
  unfold parse at h
  dsimp only at h
  split at h
  · rename_i r hread
    cases h
    obtain ⟨⟨v', r'⟩, hv, hread⟩ := bind_eq_ok.mp hread
    dsimp only at hread
    split at hread
    · cases hread
      exact (readsOrdered _).value _ _ _ _ hv
    · cases hread
  · cases h

end Json

end TopDown
