import TopDown.Proofs.Clean

/-!
# A review and the reader of rules agree

A rule is read twice. `TopDown.Rule.parse` stops at its first mistake, and
`TopDown.Review.expression` goes on and notes every one. The two walks share only what they do at a
leaf, so nothing but their shape keeps them together.

What they share is that both go through the document from left to right. Reading two parts in a row
fails with the mistake of the first part that has one, and noting two parts in a row has that same
mistake at the head. So the relation `TopDown.Review.Mirrors`, between remarks and the outcome of a
reading, passes from the parts to the whole (`TopDown.Review.Mirrors.seq`), and an induction on the
document carries it up from the leaves. Names that mean nothing are errors of a review and no concern
of the reader; the relation keeps them apart from the mistakes, and says that there are no other
errors.
-/

namespace TopDown

/-- The kind is one of those that mistakes in rules have. -/
def FlawKind.isRule : FlawKind → Bool
  | .rule _ => true
  | _ => false

namespace Review

/-- The mistakes in the spelling of rules that some remarks report. -/
def mistakes (remarks : List Remark) : List Finding :=
  (remarks.filterMap Remark.error?).filter fun f => f.flaw.kind.isRule

/-- The names that some remarks remember. -/
def lookups (remarks : List Remark) : List String :=
  remarks.filterMap Remark.name?

theorem mistakes_append (a b : List Remark) : mistakes (a ++ b) = mistakes a ++ mistakes b := by
  rw [mistakes, List.filterMap_append, List.filter_append]
  rfl

theorem lookups_append (a b : List Remark) : lookups (a ++ b) = lookups a ++ lookups b :=
  List.filterMap_append

/-- Every error is a mistake in the spelling of a rule, or about a name that means nothing. -/
def Sorted (noted : List Remark) : Prop :=
  ∀ f, Remark.error f ∈ noted → f.flaw.kind.isRule = true ∨ f.flaw.kind = .missingReference

variable {α β γ : Type} {names : α → List String} {rule : Option String}

/-- What remarks say of a reading: where it succeeds, they report no mistake and remember the names
of what was read, and where it fails, its mistake is the first that they report. -/
def Tells (names : α → List String) (rule : Option String) (noted : List Remark) :
    Rule.Parsed α → Prop
  | .ok a => mistakes noted = [] ∧ lookups noted = names a
  | .error e => (mistakes noted).head? = some ⟨.rule e.defect, e.path, rule⟩

/-- **Remarks mirror a reading.** -/
structure Mirrors (names : α → List String) (rule : Option String) (noted : List Remark)
    (x : Rule.Parsed α) : Prop where
  /-- There are mistakes and unknown names among the errors, and nothing else. -/
  sorted : Sorted noted
  /-- The mistakes and the names are those of the reading. -/
  tells : Tells names rule noted x

/-! ### From the parts to the whole -/

theorem mirrors_mistake {e : RuleError} : Mirrors names rule (mistake rule e) (.error e) where
  sorted f hf := by
    cases List.mem_singleton.mp hf
    exact .inl rfl
  tells := rfl

/-- A result may be wrapped, if its names stay. -/
theorem Mirrors.map {names' : β → List String} {noted : List Remark} {x : Rule.Parsed α}
    {f : α → β} (hf : ∀ a, names' (f a) = names a) (h : Mirrors names rule noted x) :
    Mirrors names' rule noted (x.map f) := by
  refine ⟨h.sorted, ?_⟩
  cases x with
  | error e => exact h.tells
  | ok a => exact ⟨h.tells.1, h.tells.2.trans (hf a).symm⟩

/-- **Two parts in a row.** The second part is noted in any case, and read only after the first. -/
theorem Mirrors.seq {names' : β → List String} {names'' : γ → List String}
    {noted noted' : List Remark} {x : Rule.Parsed α} {y : Rule.Parsed β} {f : α → β → γ}
    (hf : ∀ a b, names'' (f a b) = names a ++ names' b)
    (hx : Mirrors names rule noted x) (hy : Mirrors names' rule noted' y) :
    Mirrors names'' rule (noted ++ noted') (do
      let a ← x
      let b ← y
      return f a b) := by
  refine ⟨fun e he => (List.mem_append.mp he).elim (hx.sorted e) (hy.sorted e), ?_⟩
  cases x with
  | error e =>
    have hhead : (mistakes noted).head? = some ⟨.rule e.defect, e.path, rule⟩ := hx.tells
    change (mistakes (noted ++ noted')).head? = _
    rw [mistakes_append, List.head?_append, hhead]
    rfl
  | ok a =>
    obtain ⟨hnone, hnames⟩ := hx.tells
    cases y with
    | error e =>
      change (mistakes (noted ++ noted')).head? = _
      rw [mistakes_append, hnone]
      exact hy.tells
    | ok b =>
      refine ⟨?_, ?_⟩
      · rw [mistakes_append, hnone, hy.tells.1]
        rfl
      · rw [lookups_append, hnames, hy.tells.2, hf]

/-! ### Leaves -/

/-- A reference is no mistake, whether its name is known or not. -/
theorem mirrors_reference (w : Review) (p : Path) (name : String) (threshold : Option Threshold) :
    Mirrors Rule.references rule (w.reference rule p name threshold)
      (.ok (.reference name threshold)) := by
  unfold reference
  -- no finding at all, an unknown name, or a warning
  split <;> split <;> try split
  all_goals
    refine ⟨fun f hf => ?_, rfl, rfl⟩
    simp only [List.mem_append, List.mem_cons, List.not_mem_nil, reduceCtorEq, Remark.error.injEq,
      or_false, false_or] at hf
  -- what is left are the two cases of an unknown name
  all_goals
    subst hf
    exact .inr rfl

/-- The remarks on a leaf mirror its reading, given that it is no group. -/
theorem mirrors_leaf (w : Review) (p : Path) {v : Json} {x : Rule.Parsed Rule}
    (hleaf : ∀ {r}, x = .ok r → Rule.ReadAsLeaf p v r) :
    Mirrors Rule.references rule (w.leaf rule p x) x := by
  cases x with
  | error e => exact mirrors_mistake
  | ok r =>
    obtain ⟨name, threshold, rfl, -⟩ | ⟨_, k, -, -, rfl⟩ := hleaf rfl
    · exact mirrors_reference w p name threshold
    · exact ⟨fun _ hf => absurd hf List.not_mem_nil, rfl, rfl⟩

/-! ### The walk -/

mutual

/-- **The remarks on a document mirror its reading.** -/
theorem mirrors_expression (w : Review) (rule : Option String) (p : Path) :
    (v : Json) → Mirrors Rule.references rule (w.expression rule p v) (Rule.parse p v)
  | .arr items => by
    rw [expression, Rule.parse]
    exact (mirrors_members w rule p items).map fun rs => by rw [Rule.references]
  | .obj [(key, value)] => by
    unfold expression Rule.parse
    cases hq : Rule.quantifierOf? key with
    | none => exact mirrors_leaf w p Rule.parseObject_ok
    | some q =>
      cases value with
      | arr items =>
        exact (mirrors_members w rule (p.key key) items).map fun rs => by rw [Rule.references]
      | null | bool _ | int _ | real _ | str _ | obj _ => exact mirrors_mistake
  | .obj [] => by
    simp only [expression, Rule.parse]
    have hg : ¬Rule.isGroupObject [] = true := by decide
    rw [if_neg hg, if_neg hg]
    exact mirrors_leaf w p Rule.parseObject_ok
  | .obj (e :: e' :: rest) => by
    simp only [expression, Rule.parse]
    by_cases hg : Rule.isGroupObject (e :: e' :: rest) = true
    · rw [if_pos hg, if_pos hg]
      exact mirrors_mistake
    · rw [if_neg hg, if_neg hg]
      exact mirrors_leaf w p Rule.parseObject_ok
  | .null | .bool _ | .int _ | .real _ | .str _ => by
    simp only [expression, Rule.parse]
    exact mirrors_leaf w p Rule.parseLeaf_ok

/-- The same for the members of a group. -/
theorem mirrors_members (w : Review) (rule : Option String) (p : Path) :
    (items : List Json) →
      Mirrors Rule.referencesOfAll rule (w.members rule p items) (Rule.parseMembers p items)
  | [] => mirrors_mistake
  | v :: rest => by
    rw [members, Rule.parseMembers]
    exact (mirrors_expression w rule (p.index 0) v).seq (fun r rs => by rw [Rule.referencesOfAll])
      (mirrors_items w rule p 1 rest)

/-- The same for the items of a list. -/
theorem mirrors_items (w : Review) (rule : Option String) (p : Path) (i : Nat) :
    (items : List Json) →
      Mirrors Rule.referencesOfAll rule (w.items rule p i items) (Rule.parseItems p i items)
  | [] => ⟨fun _ hf => absurd hf List.not_mem_nil, rfl, rfl⟩
  | v :: rest => by
    rw [items, Rule.parseItems]
    exact (mirrors_expression w rule (p.index i) v).seq (fun r rs => by rw [Rule.referencesOfAll])
      (mirrors_items w rule p (i + 1) rest)

end

/-! ### Agreement -/

/-- **A review and the reader agree on every document.** Every error is a mistake in the spelling or
an unknown name. There are mistakes exactly where the reader fails, the first of them is then the
reader's, and where it succeeds the names that are looked up are, in order, the references of the
rule. -/
theorem expression_agrees (w : Review) (rule : Option String) (p : Path) (v : Json) :
    (∀ f, Remark.error f ∈ w.expression rule p v →
      f ∈ mistakes (w.expression rule p v) ∨ f.flaw.kind = .missingReference) ∧
    (mistakes (w.expression rule p v) ≠ [] ↔ ∃ e, Rule.parse p v = .error e) ∧
    (∀ e, Rule.parse p v = .error e →
      ∃ f, (mistakes (w.expression rule p v)).head? = some f ∧
        f.flaw.kind = .rule e.defect.kind ∧ f.path = e.path ∧
        f.flaw.message = e.defect.message) ∧
    (∀ r, Rule.parse p v = .ok r →
      lookups (w.expression rule p v) = r.references) := by
  obtain ⟨hsorted, htells⟩ := mirrors_expression w rule p v
  refine ⟨fun f hf => ?_, ?_, fun e he => ?_, fun r hr => ?_⟩
  · refine (hsorted f hf).imp_left fun hkind => ?_
    have herror : f ∈ (w.expression rule p v).filterMap Remark.error? :=
      List.mem_filterMap.mpr ⟨.error f, hf, rfl⟩
    exact List.mem_filter.mpr ⟨herror, hkind⟩
  · cases hparse : Rule.parse p v with
    | error e =>
      rw [hparse] at htells
      refine ⟨fun _ => ⟨e, rfl⟩, fun _ hnil => ?_⟩
      rw [Tells, hnil] at htells
      cases htells
    | ok r =>
      rw [hparse] at htells
      refine ⟨fun hne => absurd htells.1 hne, fun ⟨e, he⟩ => ?_⟩
      cases he
  · rw [he] at htells
    exact ⟨_, htells, rfl, rfl, rfl⟩
  · rw [hr] at htells
    exact htells.2

/-- In a list of a group that is no list and a blank name, the review notes two mistakes and the
reader stops at the first; in a list of two names, both come to these names. -/
theorem expression_agrees_on_lists :
    ((mistakes (Review.expression ⟨[], []⟩ none []
        (.arr [.obj [("all_of", .int 1)], .str ""]))).length = 2 ∧
      ∃ f, (mistakes (Review.expression ⟨[], []⟩ none []
          (.arr [.obj [("all_of", .int 1)], .str ""]))).head? = some f ∧
        f.flaw.kind = .rule .type ∧ f.path = [.index 0, .key "all_of"] ∧
        f.flaw.message = "all_of must be a list") ∧
    lookups (Review.expression ⟨[], []⟩ none []
      (.arr [.str "b", .obj [("a", .bool true)]])) = ["b", "a"] := by
  refine ⟨⟨by decide +kernel, ?_⟩, ?_⟩
  · exact (expression_agrees ⟨[], []⟩ none [] (.arr [.obj [("all_of", .int 1)], .str ""])).2.2.1
      ⟨[.index 0, .key "all_of"], .membersNotList "all_of"⟩ rfl
  · exact (expression_agrees ⟨[], []⟩ none [] (.arr [.str "b", .obj [("a", .bool true)]])).2.2.2
      (.group .all [.reference "b" none, .reference "a" (some (.flag true))]) rfl

end Review

end TopDown
