import TopDown.Review.Check

/-!
# What the sections of a review remark on

Two flaws belong to the rules of a configuration as a whole: that they refer to each other in a circle,
and that nothing refers to one of them. All other flaws can be told from one place
(`TopDown.Flaw.isLocal`). A review reads the sections one after the other and looks at the rules as a
whole in the end, so whatever it remarks on a section is local: `TopDown.Review.local_namedRules`,
`TopDown.Review.local_validation` and `TopDown.Review.local_selection`. What a report says about circles
or about unused rules can therefore come from nowhere else but the remarks on circles or on unused
rules.
-/

namespace TopDown

/-- The flaw can be told from one place. -/
def Flaw.isLocal : Flaw → Bool
  | .circle _ | .unused _ => false
  | _ => true

/-- The flaw that is remarked on, if any, can be told from one place. -/
def Remark.Local : Remark → Prop
  | .error f | .warning f => f.flaw.isLocal = true
  | .lookup _ => True

namespace Review

/-- **All remarks are local.** -/
def AllLocal (remarks : List Remark) : Prop :=
  ∀ r ∈ remarks, r.Local

@[simp] theorem local_nil : AllLocal [] :=
  fun _ h => absurd h List.not_mem_nil

@[simp] theorem local_append {a b : List Remark} :
    AllLocal (a ++ b) ↔ AllLocal a ∧ AllLocal b :=
  List.forall_mem_append

@[simp] theorem local_flatMap {α : Type} {xs : List α} {f : α → List Remark} :
    AllLocal (xs.flatMap f) ↔ ∀ x ∈ xs, AllLocal (f x) := by
  simp only [AllLocal, List.mem_flatMap]
  exact ⟨fun h x hx r hr => h r ⟨x, hx, hr⟩, fun h r ⟨x, hx, hr⟩ => h x hx r hr⟩

@[simp] theorem local_singleton {r : Remark} : AllLocal [r] ↔ r.Local :=
  List.forall_mem_singleton

theorem local_error {p : Path} {flaw : Flaw} (h : flaw.isLocal = true) : AllLocal (error p flaw) :=
  local_singleton.mpr h

theorem local_warning {p : Path} {flaw : Flaw} (h : flaw.isLocal = true) :
    AllLocal (warning p flaw) :=
  local_singleton.mpr h

@[simp] theorem local_mistake {rule : Option String} {e : RuleError} : AllLocal (mistake rule e) :=
  local_singleton.mpr rfl

/-! ### Rules -/

variable {w : Review} {rule : Option String}

theorem local_reference {p : Path} {name : String} {threshold : Option Threshold} :
    AllLocal (w.reference rule p name threshold) := by
  unfold reference
  refine local_append.mpr ⟨local_append.mpr ⟨local_singleton.mpr trivial, ?_⟩, ?_⟩
  · split
    · exact local_nil
    · exact local_singleton.mpr rfl
  · split
    · split
      · exact local_singleton.mpr rfl
      · exact local_nil
    · exact local_nil

theorem local_leaf {p : Path} {parsed : Rule.Parsed Rule} : AllLocal (w.leaf rule p parsed) := by
  unfold leaf
  split
  · exact local_reference
  · exact local_nil
  · exact local_mistake

mutual

theorem local_expression (w : Review) (rule : Option String) (p : Path) :
    (v : Json) → AllLocal (w.expression rule p v)
  | .arr items => by
    rw [expression]
    exact local_members w rule p items
  | .obj [(key, value)] => by
    unfold expression
    split
    · exact local_leaf
    · split
      · exact local_members w rule (p.key key) _
      · exact local_mistake
  | .obj [] => by
    simp only [expression]
    split
    · exact local_mistake
    · exact local_leaf
  | .obj (e :: e' :: rest) => by
    simp only [expression]
    split
    · exact local_mistake
    · exact local_leaf
  | .null | .bool _ | .int _ | .real _ | .str _ => by
    simp only [expression]
    exact local_leaf

theorem local_members (w : Review) (rule : Option String) (p : Path) :
    (items : List Json) → AllLocal (w.members rule p items)
  | [] => local_mistake
  | v :: rest => local_append.mpr
    ⟨local_expression w rule (p.index 0) v, local_items w rule p 1 rest⟩

theorem local_items (w : Review) (rule : Option String) (p : Path) (i : Nat) :
    (items : List Json) → AllLocal (w.items rule p i items)
  | [] => local_nil
  | v :: rest => local_append.mpr
    ⟨local_expression w rule (p.index i) v, local_items w rule p (i + 1) rest⟩

end

@[simp] theorem local_listAt {p : Path} {fields : Table Json} {key : String} :
    AllLocal (w.listAt p fields key) := by
  unfold listAt list
  split
  · exact local_nil
  · exact local_nil
  · exact local_items w none _ 0 _
  · exact local_error rfl

/-- **The remarks on the named rules are local.** -/
theorem local_namedRules {root : Table Json} : AllLocal (w.namedRules root) := by
  unfold namedRules
  split
  · exact local_nil
  · exact local_flatMap.mpr fun e _ => local_expression w _ _ e.2
  · exact local_error rfl

/-! ### Timeframes -/

@[simp] theorem local_timeframe {p : Path} {v : Json} : AllLocal (timeframe p v) := by
  unfold timeframe
  split
  · exact local_nil
  · exact local_error rfl

theorem local_minBars {p : Path} {block : Table Json} : AllLocal (minBars p block) := by
  unfold minBars
  split
  · exact local_nil
  · split
    · split
      · exact local_error rfl
      · exact local_nil
    · exact local_error rfl

theorem local_grace {p : Path} {block : Table Json} : AllLocal (grace p block) := by
  unfold grace
  split
  · exact local_nil
  · split
    · exact local_nil
    · exact local_error rfl

theorem local_block {p : Path} {v : Json} : AllLocal (w.block p v) := by
  unfold block
  split
  · simp only [local_append, local_flatMap]
    refine ⟨⟨⟨⟨⟨fun k _ => local_warning rfl, local_listAt⟩, local_listAt⟩, ?_⟩, local_minBars⟩,
      local_grace⟩
    split
    · exact local_warning rfl
    · exact local_nil
  · exact local_error rfl

theorem local_blocks {start : Option Timeframe} {fields : Table Json} :
    AllLocal (w.blocks start fields) := by
  unfold blocks
  simp only [local_append, local_flatMap]
  refine ⟨fun e _ => ⟨local_timeframe, local_block⟩, ?_⟩
  split
  · exact local_flatMap.mpr fun tf _ => local_warning rfl
  · exact local_nil

/-- **The remarks on the section of the timeframes are local.** -/
theorem local_validation {root : Table Json} : AllLocal (w.validation root) := by
  unfold validation
  dsimp only
  split
  · exact local_error rfl
  · refine local_append.mpr ⟨?_, ?_⟩
    · split
      · exact local_nil
      · exact local_timeframe
    · split
      · exact local_blocks
      · exact local_error rfl
      · exact local_error rfl
  · exact local_error rfl

/-! ### The choice of the timeframe to enter on -/

theorem local_allowance {selector : Table Json} : AllLocal (w.allowance selector) := by
  unfold allowance
  dsimp only
  split
  · exact local_nil
  · simp only [local_append]
    refine ⟨⟨?_, local_listAt⟩, ?_⟩
    · split
      · exact local_nil
      · exact local_nil
      · exact local_error rfl
    · split
      · exact local_warning rfl
      · exact local_nil
  · exact local_error rfl

theorem local_default {selector : Table Json} : AllLocal (default selector) := by
  unfold default
  dsimp only
  split
  · exact local_nil
  · split
    · exact local_timeframe
    · split
      · exact local_nil
      · exact local_error rfl

theorem local_order {selector : Table Json} : AllLocal (order selector) := by
  unfold order
  dsimp only
  split
  · exact local_nil
  · exact local_flatMap.mpr fun e _ => local_timeframe
  · exact local_error rfl

theorem local_groupsKey {p : Path} {key : String} : AllLocal (groupsKey p key) := by
  unfold groupsKey
  split
  · exact local_timeframe
  · split
    · exact local_nil
    · exact local_warning rfl

theorem local_groups {p : Path} {v : Json} : AllLocal (w.groups p v) := by
  unfold groups
  split
  · simp only [local_append, local_flatMap]
    exact ⟨fun k _ => local_warning rfl, fun k _ => local_listAt⟩
  · exact local_error rfl

theorem local_layout {selector : Table Json} : AllLocal (w.layout selector) := by
  unfold layout
  dsimp only
  split
  · exact local_flatMap.mpr fun key _ => local_listAt
  · simp only [local_append, local_flatMap]
    exact ⟨⟨local_order, fun k _ => local_warning rfl⟩, fun e _ => ⟨local_groupsKey, local_groups⟩⟩
  · exact local_error rfl

/-- **The remarks on the section of the choice are local.** -/
theorem local_selection {root : Table Json} : AllLocal (w.selection root) := by
  unfold selection
  refine local_append.mpr ⟨local_listAt, ?_⟩
  split
  · exact local_nil
  · simp only [local_append]
    exact ⟨⟨⟨local_listAt, local_allowance⟩, local_default⟩, local_layout⟩
  · exact local_error rfl

/-! ### The rules as a whole -/

/-- **A section is warned of local flaws only**, and circles are errors. -/
theorem isLocal_of_warning {root : Table Json} {f : Finding}
    (hf : Remark.warning f ∈ w.sections root) : f.flaw.isLocal = true := by
  rw [sections, List.mem_append, List.mem_append, List.mem_append] at hf
  rcases hf with ((hf | hf) | hf) | hf
  · exact local_namedRules _ hf
  · exact local_validation _ hf
  · exact local_selection _ hf
  · obtain ⟨rules, -, hf⟩ := List.mem_flatMap.mp hf
    cases rules with
    | nil => cases hf
    | cons first rest => cases List.mem_singleton.mp hf

end Review

end TopDown
