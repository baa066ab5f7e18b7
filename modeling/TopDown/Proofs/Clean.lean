import TopDown.Proofs.Walks

/-!
# Reviews without errors

What the review passes, the reader of rules accepts. We say that remarks are clean
(`TopDown.Review.Clean`) if there is no error among them, and follow the review down the tree of a
rule: where its remarks are clean, `TopDown.Rule.parse` returns a rule, and every name in that rule
means something (`TopDown.Review.expression_clean`). Lists of rules and the table of named rules
come after it.

Each reader walks the document on its own, so the statements speak of both walks at the same place.
-/

namespace TopDown

namespace Review

/-- There is no error among the remarks. -/
def Clean (remarks : List Remark) : Prop :=
  ∀ f, Remark.error f ∉ remarks

@[simp] theorem clean_nil : Clean [] :=
  fun _ => List.not_mem_nil

theorem Clean.mono {a b : List Remark} (h : Clean b) (hsub : a ⊆ b) : Clean a :=
  fun f hf => h f (hsub hf)

@[simp] theorem clean_append {a b : List Remark} : Clean (a ++ b) ↔ Clean a ∧ Clean b := by
  simp [Clean, forall_and]

@[simp] theorem clean_flatMap {α : Type} {xs : List α} {f : α → List Remark} :
    Clean (xs.flatMap f) ↔ ∀ x ∈ xs, Clean (f x) := by
  simp only [Clean, List.mem_flatMap]
  exact ⟨fun h x hx e he => h e ⟨x, hx, he⟩, fun h e ⟨x, hx, he⟩ => h x hx e he⟩

@[simp] theorem not_clean_error {p : Path} {flaw : Flaw} : ¬Clean (error p flaw) :=
  fun h => h _ List.mem_cons_self

@[simp] theorem not_clean_mistake {rule : Option String} {e : RuleError} :
    ¬Clean (mistake rule e) :=
  fun h => h _ List.mem_cons_self

/-- A report without errors comes of clean remarks. -/
theorem clean_of_report {remarks : List Remark} (h : (report remarks).errors = []) :
    Clean remarks := by
  intro f hf
  have hmem : f ∈ (report remarks).errors := List.mem_filterMap.mpr ⟨.error f, hf, rfl⟩
  rw [h] at hmem
  cases hmem

/-! ### Leaves -/

variable {w : Review} {rule : Option String}

/-- Where the remarks on a reference are clean, its name is known. -/
theorem reference_clean {p : Path} {name : String} {threshold : Option Threshold}
    (h : Clean (w.reference rule p name threshold)) : w.knows name = true := by
  unfold reference at h
  by_cases hk : w.knows name = true
  · exact hk
  · rw [if_neg hk] at h
    exact absurd (List.mem_append_left _ (List.mem_append_right _ List.mem_cons_self)) (h _)

/-- The names in a rule are known. -/
def Understands (w : Review) (r : Rule) : Prop :=
  ∀ n ∈ r.references, w.knows n = true

/-- Where the remarks on a leaf are clean, it was read, and its name is known. -/
theorem leaf_clean {p : Path} {v : Json} {parsed : Rule.Parsed Rule}
    (hshape : ∀ r, parsed = .ok r → Rule.ReadAsLeaf p v r)
    (h : Clean (w.leaf rule p parsed)) : ∃ r, parsed = .ok r ∧ w.Understands r := by
  cases parsed with
  | error e => exact absurd h not_clean_mistake
  | ok r =>
    refine ⟨r, rfl, ?_⟩
    rcases hshape r rfl with ⟨name, threshold, rfl, -⟩ | ⟨_, k, -, -, rfl⟩
    · intro n hn
      rw [List.mem_singleton.mp hn]
      exact reference_clean h
    · intro n hn
      cases hn

/-! ### Rules -/

mutual

/-- **Where the remarks on a rule are clean, it can be read**, and every name in it is known. -/
theorem expression_clean (w : Review) (rule : Option String) (p : Path) :
    (v : Json) → Clean (w.expression rule p v) →
      ∃ r, Rule.parse p v = .ok r ∧ w.Understands r
  | .arr items, h => by
    obtain ⟨rs, hrs, hnames⟩ := members_clean w rule p items h
    exact ⟨.group .all rs, by rw [Rule.parse, hrs]; rfl, hnames⟩
  | .obj [(key, value)], h => by
    unfold expression at h
    unfold Rule.parse
    cases hq : Rule.quantifierOf? key with
    | none =>
      simp only [hq] at h
      exact leaf_clean (fun _ => Rule.parseObject_ok) h
    | some q =>
      cases value with
      | arr items =>
        simp only [hq] at h
        obtain ⟨rs, hrs, hnames⟩ := members_clean w rule (p.key key) items h
        exact ⟨.group q rs, by simp only [hrs]; rfl, hnames⟩
      | null | bool _ | int _ | real _ | str _ | obj _ =>
        simp only [hq] at h
        exact absurd h not_clean_mistake
  | .obj [], h => by
    simp only [expression, Rule.parse] at h ⊢
    have hg : ¬Rule.isGroupObject [] = true := by decide
    rw [if_neg hg] at h ⊢
    exact leaf_clean (fun _ => Rule.parseObject_ok) h
  | .obj (e :: e' :: rest), h => by
    simp only [expression, Rule.parse] at h ⊢
    by_cases hg : Rule.isGroupObject (e :: e' :: rest) = true
    · rw [if_pos hg] at h
      exact absurd h not_clean_mistake
    · rw [if_neg hg] at h ⊢
      exact leaf_clean (fun _ => Rule.parseObject_ok) h
  | .null, h | .bool _, h | .int _, h | .real _, h | .str _, h => by
    simp only [expression, Rule.parse] at h ⊢
    exact leaf_clean (fun _ => Rule.parseLeaf_ok) h

/-- The same for the members of a group. -/
theorem members_clean (w : Review) (rule : Option String) (p : Path) :
    (items : List Json) → Clean (w.members rule p items) →
      ∃ rs, Rule.parseMembers p items = .ok rs ∧
        ∀ n ∈ Rule.referencesOfAll rs, w.knows n = true
  | [], h => absurd h not_clean_mistake
  | v :: rest, h => by
    obtain ⟨hv, hrest⟩ := clean_append.mp h
    obtain ⟨r, hr, hnames⟩ := expression_clean w rule (p.index 0) v hv
    obtain ⟨rs, hrs, hnames'⟩ := items_clean w rule p 1 rest hrest
    refine ⟨r :: rs, by rw [Rule.parseMembers, hr, hrs]; rfl, fun n hn => ?_⟩
    rcases List.mem_append.mp hn with hn | hn
    · exact hnames n hn
    · exact hnames' n hn

/-- The same for the items of a list. -/
theorem items_clean (w : Review) (rule : Option String) (p : Path) (i : Nat) :
    (items : List Json) → Clean (w.items rule p i items) →
      ∃ rs, Rule.parseItems p i items = .ok rs ∧
        ∀ n ∈ Rule.referencesOfAll rs, w.knows n = true
  | [], _ => ⟨[], rfl, fun _ hn => by cases hn⟩
  | v :: rest, h => by
    obtain ⟨hv, hrest⟩ := clean_append.mp h
    obtain ⟨r, hr, hnames⟩ := expression_clean w rule (p.index i) v hv
    obtain ⟨rs, hrs, hnames'⟩ := items_clean w rule p (i + 1) rest hrest
    refine ⟨r :: rs, by rw [Rule.parseItems, hr, hrs]; rfl, fun n hn => ?_⟩
    rcases List.mem_append.mp hn with hn | hn
    · exact hnames n hn
    · exact hnames' n hn

end

/-- **Where the remarks on a list are clean, it can be read.** -/
theorem list_clean {p : Path} {v : Json} (h : Clean (w.list p (some v))) :
    ∃ rs, Rule.parseList p v = .ok rs ∧ ∀ n ∈ Rule.referencesOfAll rs, w.knows n = true := by
  cases v with
  | null => exact ⟨[], rfl, fun _ hn => by cases hn⟩
  | arr items => exact items_clean w none p 0 items h
  | bool _ | int _ | real _ | str _ | obj _ => exact absurd h not_clean_error

/-! ### Settings -/

/-- Where the remarks on a timeframe are clean, it is one. -/
theorem timeframe_clean {p : Path} {v : Json} (h : Clean (timeframe p v)) :
    ∃ tf, timeframe? v = some tf := by
  unfold timeframe at h
  split at h
  · exact Option.isSome_iff_exists.mp ‹_›
  · exact absurd h not_clean_error

/-- Where the remarks on the key of a timeframe that has groups are clean, it is one. -/
theorem groupsKey_clean {p : Path} {key : String} (h : Clean (groupsKey p key)) :
    ∃ tf, timeframe? (.str key) = some tf := by
  unfold groupsKey at h
  split at h
  · exact timeframe_clean h
  · rename_i tf htf
    exact ⟨tf, by simp only [timeframe?, Json.asText?, Option.bind_some, htf]⟩

/-- Where the remarks on the least number of bars are clean, it is positive. -/
theorem minBars_clean {p : Path} {block : Table Json} (h : Clean (minBars p block)) :
    Json.given? block "min_bars" = none ∨
      ∃ v n, Json.given? block "min_bars" = some v ∧ v.asCount? = some n ∧ n ≠ 0 := by
  unfold minBars at h
  split at h
  · exact .inl ‹_›
  · rename_i v hv
    split at h
    · rename_i n hn
      split at h
      · exact absurd h not_clean_error
      · exact .inr ⟨v, n, hv, hn, ‹_›⟩
    · exact absurd h not_clean_error

/-- Where the remarks on the grace window are clean, it is a count. -/
theorem grace_clean {p : Path} {block : Table Json} (h : Clean (grace p block)) :
    Json.given? block "grace_window_secs" = none ∨
      ∃ v n, Json.given? block "grace_window_secs" = some v ∧ v.asCount? = some n := by
  unfold grace at h
  split at h
  · exact .inl ‹_›
  · rename_i v hv
    split at h
    · obtain ⟨n, hn⟩ := Option.isSome_iff_exists.mp ‹_›
      exact .inr ⟨v, n, hv, hn⟩
    · exact absurd h not_clean_error

/-- Where the remarks on the default timeframe are clean, it is one to enter on. -/
theorem default_clean {selector : Table Json} (h : Clean (default selector)) :
    Json.given? selector "default_timeframe" = none ∨
      ∃ v tf, Json.given? selector "default_timeframe" = some v ∧ timeframe? v = some tf ∧
        tf.isExecution = true := by
  unfold default at h
  split at h
  · exact .inl ‹_›
  · rename_i v hv
    split at h
    · rename_i hnone
      obtain ⟨tf, htf⟩ := timeframe_clean h
      rw [hnone] at htf
      cases htf
    · rename_i tf htf
      split at h
      · exact .inr ⟨v, tf, hv, htf, ‹_›⟩
      · exact absurd h not_clean_error

/-- Where the remarks on the order are clean, its items are timeframes. -/
theorem order_clean {selector : Table Json} (h : Clean (order selector)) :
    Json.given? selector "execution_timeframes" = none ∨
      ∃ items, Json.given? selector "execution_timeframes" = some (.arr items) ∧
        ∀ v ∈ items, ∃ tf, timeframe? v = some tf := by
  unfold order at h
  split at h
  · exact .inl ‹_›
  · rename_i items hitems
    refine .inr ⟨items, hitems, fun v hv => ?_⟩
    obtain ⟨i, hi⟩ := List.mem_iff_getElem?.mp hv
    exact timeframe_clean (clean_flatMap.mp h (v, i) (List.mk_mem_zipIdx_iff_getElem?.mpr hi))
  · exact absurd h not_clean_error

end Review

end TopDown
