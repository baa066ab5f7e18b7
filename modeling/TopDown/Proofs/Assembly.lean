import TopDown.Book.Compile
import TopDown.Proofs.Bind

/-!
# Steps of the assembly

What each step of the assembly does to the part of the book that is ready, as an equation or as a
splitting of a step that has succeeded. Proofs about the assembly use these and look into no step.
Steps that read a setting have nothing to do with the book (`TopDown.Assemble.Settles`): they return a
value or refuse one, whatever is ready.
-/

namespace TopDown

namespace Assemble

variable {α β : Type} {a a' : Assembly}

/-- **A sequence of steps succeeds** when both steps do, the second after the first. -/
theorem bind_eq_ok {x : Assemble α} {f : α → Assemble β} {b : β} :
    (x >>= f) a = .ok (b, a') ↔ ∃ r a₁, x a = .ok (r, a₁) ∧ f r a₁ = .ok (b, a') := by
  refine TopDown.bind_eq_ok.trans ⟨?_, ?_⟩
  · rintro ⟨⟨r, a₁⟩, hx, hf⟩
    exact ⟨r, a₁, hx, hf⟩
  · rintro ⟨r, a₁, hx, hf⟩
    exact ⟨(r, a₁), hx, hf⟩

/-- After a step that has succeeded the next one is taken. -/
theorem bind_run_ok {x : Assemble α} {f : α → Assemble β} {r : α} (h : x a = .ok (r, a')) :
    (x >>= f) a = f r a' := by
  show (x a >>= fun e => f e.1 e.2) = _
  rw [h]
  rfl

/-- A step that stops, stops a sequence. -/
theorem bind_run_error {x : Assemble α} {f : α → Assemble β} {e : Stop} (h : x a = .error e) :
    (x >>= f) a = .error e := by
  show (x a >>= fun e => f e.1 e.2) = _
  rw [h]
  rfl

theorem pure_eq_ok {r s : α} : (pure r : Assemble α) a = .ok (s, a') ↔ s = r ∧ a' = a := by
  refine ⟨fun h => ?_, ?_⟩
  · cases h
    exact ⟨rfl, rfl⟩
  · rintro ⟨rfl, rfl⟩
    rfl

theorem fail_ne_ok {f : Fault} {r : α} : (fail f : Assemble α) a ≠ .ok (r, a') :=
  fun h => by cases h

theorem get_bind_run (f : Assembly → Assemble α) (a : Assembly) : (get >>= f) a = f a a := rfl

theorem push_run (node : Node) (a : Assembly) :
    push node a = .ok (a.nodes.size, { a with nodes := a.nodes.push node }) := rfl

theorem enrol_run (name : String) (check : Check) (a : Assembly) :
    enrol name check a =
      .ok ((), { a with registry := a.registry.register name fun c => check.evaluate name c }) :=
  rfl

theorem record_run (name : String) (isGroup : Bool) (id : Node.Id) (a : Assembly) :
    record name isGroup id a = .ok ((),
      { a with
        nodes := if isGroup then a.nodes.modify id (Node.relabel name) else a.nodes
        named := Table.put name id a.named }) := rfl

theorem leaf_run (name : String) (threshold : Option Float) (p : Path) (a : Assembly) :
    leaf name threshold p a =
      match a.registry.place? name with
      | some place => push (.leaf name place threshold) a
      | none => fail (.unknownCondition name p) a := by
  show (match a.registry.place? name with
    | some place => push (.leaf name place threshold)
    | none => fail (.unknownCondition name p) : Assemble Node.Id) a = _
  cases a.registry.place? name <;> rfl

/-- A leaf that has been added stands last, with the condition in the place of its name. -/
theorem leaf_eq_ok {name : String} {threshold : Option Float} {p : Path} {id : Node.Id} :
    leaf name threshold p a = .ok (id, a') ↔ ∃ place, a.registry.place? name = some place ∧
      id = a.nodes.size ∧ a' = { a with nodes := a.nodes.push (.leaf name place threshold) } := by
  rw [leaf_run]
  cases a.registry.place? name with
  | none => exact ⟨fun h => absurd h fail_ne_ok, fun ⟨_, h, _⟩ => by cases h⟩
  | some place =>
    simp only [push_run]
    refine ⟨fun h => ?_, ?_⟩
    · cases h
      exact ⟨place, rfl, rfl, rfl⟩
    · rintro ⟨_, h, rfl, rfl⟩
      cases h
      rfl

end Assemble

open Assemble

/-! ### Rules -/

/-- A reference to the name becomes a leaf. -/
def IsLeafName (rules : Table Rule) (name : String) : Prop :=
  ∀ r, rules.lookup name = some r → ∃ k, r = .check k

theorem assembleRule_leaf {named : String → Path → Assemble Node.Id} {rules : Table Rule}
    {p : Path} {name : String} {threshold : Option Threshold} (h : IsLeafName rules name) :
    assembleRule named rules p (.reference name threshold) =
      leaf name (threshold.bind Threshold.number?) p := by
  unfold assembleRule
  cases hr : rules.lookup name with
  | none => rfl
  | some r =>
    obtain ⟨k, rfl⟩ := h r hr
    rfl

theorem assembleRule_named {named : String → Path → Assemble Node.Id} {rules : Table Rule}
    {p : Path} {name : String} {threshold : Option Threshold} (h : ¬IsLeafName rules name) :
    assembleRule named rules p (.reference name threshold) = named name p := by
  unfold assembleRule
  cases hr : rules.lookup name with
  | none => exact absurd (fun r h' => by rw [hr] at h'; cases h') h
  | some r =>
    cases r with
    | check k => exact absurd (fun r' h' => by rw [hr] at h'; cases h'; exact ⟨k, rfl⟩) h
    | reference _ _ => rfl
    | group _ _ => rfl

/-- **The node of a named rule**: the one it has, or else a new one. -/
theorem assembleNamed_run (rules : Table Rule) (left : Nat) (entered : List String) (name : String)
    (p : Path) (a : Assembly) :
    assembleNamed rules left entered name p a =
      match a.named.lookup name with
      | some id => .ok (id, a)
      | none =>
        if name ∈ entered then fail (.circularReference name p) a
        else
          match rules.lookup name, left with
          | none, _ => fail (.unknownCondition name p) a
          | some _, 0 => fail (.circularReference name p) a
          | some (.check _), _ => (do
              let id ← leaf name none p
              record name false id
              return id : Assemble Node.Id) a
          | some rule, left + 1 => (do
              let id ← assembleRule (assembleNamed rules left (name :: entered)) rules
                (rulePath name) rule
              record name rule.isGroup id
              return id : Assemble Node.Id) a := by
  rw [assembleNamed.eq_def]
  dsimp only
  rw [get_bind_run]
  cases hnamed : a.named.lookup name with
  | some id => rfl
  | none =>
    by_cases hmem : name ∈ entered
    · simp [hmem]
    · simp only [List.contains_iff_mem, hmem, if_false]
      cases rules.lookup name with
      | none => rfl
      | some r => cases left <;> cases r <;> rfl

/-- **How a named rule gets its node**: it has one, or it is entered, becomes a leaf or the node of
its body, and is recorded. -/
theorem assembleNamed_cases {rules : Table Rule} {left : Nat} {entered : List String}
    {name : String} {p : Path} {a a' : Assembly} {id : Node.Id}
    (h : assembleNamed rules left entered name p a = .ok (id, a')) :
    (a.named.lookup name = some id ∧ a' = a) ∨
      ∃ rule left' a₁, rules.lookup name = some rule ∧ left = left' + 1 ∧
        record name rule.isGroup id a₁ = .ok ((), a') ∧
        ((∃ k, rule = .check k ∧ leaf name none p a = .ok (id, a₁)) ∨
          (rule.isCheck = false ∧ assembleRule (assembleNamed rules left' (name :: entered)) rules
            (rulePath name) rule a = .ok (id, a₁))) := by
  rw [assembleNamed_run] at h
  cases hn : a.named.lookup name with
  | some id' =>
    simp only [hn] at h
    cases h
    exact .inl ⟨rfl, rfl⟩
  | none =>
    simp only [hn] at h
    split at h
    · exact absurd h fail_ne_ok
    · cases hr : rules.lookup name with
      | none =>
        simp only [hr] at h
        exact absurd h fail_ne_ok
      | some rule =>
        simp only [hr] at h
        cases left with
        | zero => exact absurd h fail_ne_ok
        | succ left =>
          refine .inr ⟨rule, left, ?_⟩
          cases rule with
          | check k =>
            obtain ⟨id', a₁, hleaf, h⟩ := Assemble.bind_eq_ok.mp h
            obtain ⟨_, a₂, hrecord, h⟩ := Assemble.bind_eq_ok.mp h
            obtain ⟨rfl, rfl⟩ := pure_eq_ok.mp h
            exact ⟨a₁, rfl, rfl, hrecord, .inl ⟨k, rfl, hleaf⟩⟩
          | reference _ _ | group _ _ =>
            obtain ⟨id', a₁, hrule, h⟩ := Assemble.bind_eq_ok.mp h
            obtain ⟨_, a₂, hrecord, h⟩ := Assemble.bind_eq_ok.mp h
            obtain ⟨rfl, rfl⟩ := pure_eq_ok.mp h
            exact ⟨a₁, rfl, rfl, hrecord, .inr ⟨rfl, hrule⟩⟩

/-- A named rule that has been made has its node on record. -/
theorem assembleNamed_recorded {rules : Table Rule} {left : Nat} {entered : List String}
    {name : String} {p : Path} {a a' : Assembly} {id : Node.Id}
    (h : assembleNamed rules left entered name p a = .ok (id, a')) :
    a'.named.lookup name = some id := by
  rcases assembleNamed_cases h with ⟨hn, rfl⟩ | ⟨rule, -, a₁, -, -, hrecord, -⟩
  · exact hn
  · rw [record_run] at hrecord
    cases hrecord
    exact Table.lookup_put_self _ _ _

/-- A named rule that has to be made is not entered. -/
theorem not_mem_entered {rules : Table Rule} {left : Nat} {entered : List String} {name : String}
    {p : Path} {a a' : Assembly} {id : Node.Id} (hn : a.named.lookup name = none)
    (h : assembleNamed rules left entered name p a = .ok (id, a')) : name ∉ entered := by
  intro hmem
  rw [assembleNamed_run, hn] at h
  dsimp only at h
  rw [if_pos hmem] at h
  exact fail_ne_ok h

/-! ### Named rules are read -/

theorem names_of_parseNamed {fields : Table Json} {rules : Table Rule}
    (h : parseNamed fields = .ok rules) : rules.names = fields.names := by
  induction fields generalizing rules with
  | nil =>
    cases h
    rfl
  | cons e rest ih =>
    obtain ⟨name, v⟩ := e
    obtain ⟨r, -, h⟩ := bind_eq_ok.mp h
    obtain ⟨rs, hrs, h⟩ := bind_eq_ok.mp h
    cases h
    rw [Table.names, Table.names, List.map_cons, List.map_cons]
    exact congrArg _ (ih hrs)

/-! ### Settings -/

namespace Assemble

variable {α β : Type}

/-- **The step settles something**: it takes a value from the document or refuses it, and has nothing to
do with the book. -/
def Settles (x : Assemble α) : Prop :=
  (∃ r, x = pure r) ∨ ∃ area key reason, x = refuse area key reason

theorem Settles.pure (r : α) : Settles (pure r : Assemble α) :=
  .inl ⟨r, rfl⟩

theorem Settles.refuse (area key : String) (reason : Refusal) :
    Settles (refuse area key reason : Assemble α) :=
  .inr ⟨area, key, reason, rfl⟩

theorem Settles.bind {x : Assemble α} {f : α → Assemble β} (hx : Settles x)
    (hf : ∀ r, Settles (f r)) : Settles (x >>= f) := by
  rcases hx with ⟨r, rfl⟩ | ⟨area, key, reason, rfl⟩
  · rw [pure_bind]
    exact hf r
  · exact .refuse area key reason

theorem Settles.timeframe (area key : String) (v : Json) : Settles (timeframe area key v) := by
  unfold Assemble.timeframe
  split
  · exact .pure _
  · exact .refuse _ _ _

/-- Where it succeeds, it has changed nothing. -/
theorem Settles.still {x : Assemble α} (h : Settles x) {a a' : Assembly} {r : α}
    (hx : x a = .ok (r, a')) : a' = a := by
  rcases h with ⟨s, rfl⟩ | ⟨area, key, reason, rfl⟩
  · exact (pure_eq_ok.mp hx).2
  · exact absurd hx fail_ne_ok

/-- What has been read is what the reader returns. -/
theorem ofParsed_eq_ok {x : Rule.Parsed α} {r : α} {a a' : Assembly}
    (h : ofParsed x a = .ok (r, a')) : x = .ok r ∧ a' = a := by
  cases x with
  | ok r' =>
    obtain ⟨rfl, rfl⟩ := pure_eq_ok.mp h
    exact ⟨rfl, rfl⟩
  | error e => exact absurd h fail_ne_ok

/-- A timeframe that has been read from a key is the one that the key spells. -/
theorem timeframe_eq_ok {area name key : String} {tf : Timeframe} {a a' : Assembly}
    (h : Assemble.timeframe area name (.str key) a = .ok (tf, a')) :
    Timeframe.parse? key = some tf ∧ a' = a := by
  unfold Assemble.timeframe at h
  simp only [Json.asText?, Option.bind_some] at h
  cases hv : Timeframe.parse? key with
  | none =>
    rw [hv] at h
    exact absurd h fail_ne_ok
  | some tf' =>
    rw [hv] at h
    obtain ⟨rfl, rfl⟩ := pure_eq_ok.mp h
    exact ⟨rfl, rfl⟩

end Assemble

theorem settles_minBarsOf (p : Path) (block : Table Json) : Settles (minBarsOf p block) := by
  unfold minBarsOf
  split
  · exact .pure _
  · split
    · split
      · exact .refuse _ _ _
      · exact .pure _
    · exact .refuse _ _ _

theorem settles_graceOf (p : Path) (block : Table Json) : Settles (graceOf p block) := by
  unfold graceOf
  split
  · exact .pure _
  · split
    · exact .pure _
    · exact .refuse _ _ _

theorem settles_startOf (fields : Table Json) : Settles (startOf fields) := by
  unfold startOf
  split
  · exact .pure _
  · exact .timeframe _ _ _

theorem settles_defaultOf (selector : Table Json) : Settles (defaultOf selector) := by
  unfold defaultOf
  split
  · exact .pure _
  · refine (Settles.timeframe _ _ _).bind fun tf => ?_
    split
    · exact .pure _
    · exact .refuse _ _ _

theorem settles_orderItems (items : List Json) : Settles (orderItems items) := by
  induction items with
  | nil => exact .pure _
  | cons v rest ih =>
    exact (Settles.timeframe _ _ v).bind fun tf => ih.bind fun order => .pure _

theorem settles_orderOf (selector : Table Json) : Settles (orderOf selector) := by
  unfold orderOf
  split
  · exact .pure _
  · exact settles_orderItems _
  · exact .refuse _ _ _

theorem settles_selectorOf (root : Table Json) : Settles (selectorOf root) := by
  unfold selectorOf
  split
  · exact .pure _
  · exact .pure _
  · exact .refuse _ _ _

end TopDown
