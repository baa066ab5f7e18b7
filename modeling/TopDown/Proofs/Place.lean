import TopDown.Book.Compile
import TopDown.Proofs.Path
import TopDown.Review.Check

/-!
# Where rules stand

A configuration spells rules in lists, in the bodies of named rules, and in groups within those.
`TopDown.ListPlace` says where lists may stand and `TopDown.Occurs` which rule stands at which place;
a member of a group stands where the assembly puts it, under the name of the quantifier.

No two rules stand at one place (`TopDown.Occurs.unique`). A place begins with that of a whole rule,
of a list or a named one, whose length can be told from its first two steps, and the steps behind it
lead down through groups (`TopDown.Rule.sub?`).
-/

namespace TopDown

/-! ### Lists and named rules -/

/-- **Where lists of rules may stand.** -/
inductive ListPlace : Path → Prop
  /-- The rules of a timeframe for one side. -/
  | block {key side : String} (hkey : (Timeframe.parse? key).isSome = true)
      (hside : side ∈ ["long", "short"]) :
      ListPlace [.key "validation", .key "timeframe", .key key, .key side]
  /-- The rules none of which may fail, beside the selection. -/
  | filters : ListPlace [.key "filters_mandatory"]
  /-- The same within the selection, and the groups of the flat layout. -/
  | selector {key : String} (hkey : key ∈ "filters_mandatory" :: Review.flatKeys) :
      ListPlace [.key selectorKey, .key key]
  /-- The rules that let one minute be chosen. -/
  | minute : ListPlace [.key selectorKey, .key "allow_1m_only_for", .key "conditions"]
  /-- The groups of a timeframe. -/
  | groups {key group : String} (hkey : (Timeframe.parse? key).isSome = true)
      (hgroup : group ∈ Review.groupKeys) :
      ListPlace [.key selectorKey, .key "per_timeframe", .key key, .key group]

/-- The rules that a configuration lists at a place; none where nothing stands. -/
def rulesAt (root : Table Json) (p : Path) : Option (List Rule) :=
  match (Json.obj root).at? p with
  | none => some []
  | some v => (Rule.parseList p v).toOption

/-- **A whole rule of a configuration**: an item of a list, or the body of a named rule. -/
inductive Whole (root : Table Json) (rules : Table Rule) : Path → Rule → Prop
  /-- An item of a list. -/
  | item {p : Path} {rs : List Rule} {i : Nat} {r : Rule} (hp : ListPlace p)
      (hrs : rulesAt root p = some rs) (hr : rs[i]? = some r) : Whole root rules (p.index i) r
  /-- The body of a named rule. -/
  | body {name : String} {r : Rule} (hr : rules.lookup name = some r) :
      Whole root rules (rulePath name) r

/-- **A rule of a configuration**: a whole rule or a member of a group. -/
inductive Occurs (root : Table Json) (rules : Table Rule) : Path → Rule → Prop
  /-- A whole rule. -/
  | whole {p : Path} {r : Rule} (h : Whole root rules p r) : Occurs root rules p r
  /-- A member of a group. -/
  | member {p : Path} {q : Quantifier} {rs : List Rule} {i : Nat} {r : Rule}
      (h : Occurs root rules p (.group q rs)) (hr : rs[i]? = some r) :
      Occurs root rules ((p.key q.key).index i) r

/-! ### Down into a rule -/

/-- The rule that some steps down from a rule lead to. -/
def Rule.sub? : Rule → Path → Option Rule
  | r, [] => some r
  | .group q rs, .key k :: .index i :: p => if k = q.key then (rs[i]?).bind fun r => r.sub? p else none
  | _, _ => none

/-- One group further down. -/
theorem Rule.sub?_member {r₀ : Rule} {p : Path} {q : Quantifier} {rs : List Rule} {i : Nat}
    {r : Rule} (h : r₀.sub? p = some (.group q rs)) (hr : rs[i]? = some r) :
    r₀.sub? (p ++ [.key q.key, .index i]) = some r := by
  induction r₀, p using Rule.sub?.induct with
  | case1 r₀ =>
    simp only [sub?, Option.some.injEq] at h
    subst h
    simp [sub?, hr]
  | case2 q' rs' j p ih =>
    simp only [sub?, if_true] at h
    cases hj : rs'[j]? with
    | none => simp [hj] at h
    | some r₁ =>
      simp only [hj, Option.bind_some] at h
      simp only [List.cons_append, sub?, if_true, hj, Option.bind_some]
      exact ih r₁ h
  | case3 q' rs' k j p hk =>
    simp only [sub?, if_neg hk] at h
    cases h
  | case4 p r₀ hnil hcons =>
    rw [sub?] at h
    · cases h
    · exact hnil
    · exact hcons

variable {root : Table Json} {rules : Table Rule}

/-- Every rule stands below a whole one. -/
theorem Occurs.exists_whole {p : Path} {r : Rule} (h : Occurs root rules p r) :
    ∃ base r₀ suffix, Whole root rules base r₀ ∧ p = base ++ suffix ∧ r₀.sub? suffix = some r := by
  induction h with
  | @whole p r h => exact ⟨p, r, [], h, (List.append_nil p).symm, rfl⟩
  | @member p q rs i r _ hr ih =>
    obtain ⟨base, r₀, suffix, hwhole, rfl, hsub⟩ := ih
    refine ⟨base, r₀, suffix ++ [.key q.key, .index i], hwhole, ?_, Rule.sub?_member hsub hr⟩
    simp [Path.key, Path.index]

/-! ### One rule at a place -/

/-- The number of steps that lead to the whole rule, told from the first two. -/
def wholeLength : Path → Nat
  | .key first :: .key second :: _ =>
    if first = "validation" then 5
    else if first = selectorKey then
      if second = "per_timeframe" then 5 else if second = "allow_1m_only_for" then 4 else 3
    else 2
  | _ => 2

theorem Whole.length_eq {base : Path} {r : Rule} (h : Whole root rules base r) (suffix : Path) :
    wholeLength (base ++ suffix) = base.length := by
  cases h with
  | item hp _ _ =>
    cases hp with
    | block _ _ => rfl
    | filters => rfl
    | selector hkey =>
      simp only [Review.flatKeys, List.mem_cons, List.not_mem_nil, or_false] at hkey
      rcases hkey with rfl | rfl | rfl | rfl <;> rfl
    | minute => rfl
    | groups _ _ => rfl
  | body _ => rfl

theorem index_ne_rulePath (p : Path) (i : Nat) (name : String) : p.index i ≠ rulePath name := by
  intro h
  have hlast := congrArg List.getLast? h
  simp [Path.index, rulePath] at hlast

theorem Whole.unique {base : Path} {r r' : Rule} (h : Whole root rules base r)
    (h' : Whole root rules base r') : r = r' := by
  cases h with
  | @item p rs i r hp hrs hr =>
    generalize hb : p.index i = base at h'
    cases h' with
    | @item p' rs' i' r' hp' hrs' hr' =>
      obtain ⟨rfl, hi⟩ := List.append_inj' hb rfl
      rw [hrs, Option.some.injEq] at hrs'
      simp only [List.cons.injEq, Step.index.injEq, and_true] at hi
      subst hi hrs'
      rw [hr, Option.some.injEq] at hr'
      exact hr'
    | @body name r' _ => exact absurd hb (index_ne_rulePath p i name)
  | @body name r hr =>
    generalize hb : rulePath name = base at h'
    cases h' with
    | @item p i _ _ _ _ _ => exact absurd hb.symm (index_ne_rulePath _ _ _)
    | @body name' r' hr' =>
      simp only [rulePath, List.cons.injEq, Step.key.injEq, true_and, and_true] at hb
      subst hb
      rw [hr, Option.some.injEq] at hr'
      exact hr'

/-- **No two rules stand at one place.** -/
theorem Occurs.unique {p : Path} {r r' : Rule} (h : Occurs root rules p r)
    (h' : Occurs root rules p r') : r = r' := by
  obtain ⟨base, r₀, suffix, hwhole, rfl, hsub⟩ := h.exists_whole
  obtain ⟨base', r₀', suffix', hwhole', heq, hsub'⟩ := h'.exists_whole
  have hlength : base.length = base'.length := by
    rw [← hwhole.length_eq suffix, heq, hwhole'.length_eq suffix']
  obtain ⟨rfl, rfl⟩ := List.append_inj heq hlength
  rw [hwhole.unique hwhole', hsub', Option.some.injEq] at hsub
  exact hsub.symm

/-! ### How places are shown -/

/-- The names of the rules are plain. -/
def PlainNames (rules : Table Rule) : Prop :=
  ∀ name ∈ rules.names, Plain name

/-- The steps of a place that begins with the key of a section are plain if the others are. -/
theorem legible_cons {name : String} {p : Path} (hname : name ≠ "" ∧ Plain name)
    (hp : ∀ k, Step.key k ∈ p → Plain k) : Path.Legible (.key name :: p) :=
  ⟨hname.1, hname.2, hp⟩

theorem ListPlace.legible {p : Path} (h : ListPlace p) : p.Legible := by
  have hplain {key : String} (hkey : (Timeframe.parse? key).isSome = true) : Plain key := by
    obtain ⟨tf, htf⟩ := Option.isSome_iff_exists.mp hkey
    exact Timeframe.plain_of_parse? htf
  cases h with
  | block hkey hside =>
    refine legible_cons (by decide) fun k hk => ?_
    simp only [List.mem_cons, Step.key.injEq, List.not_mem_nil, or_false] at hk hside
    rcases hk with rfl | rfl | rfl
    · decide
    · exact hplain hkey
    · rcases hside with rfl | rfl <;> decide
  | filters => exact legible_cons (by decide) fun k hk => absurd hk List.not_mem_nil
  | selector hkey =>
    refine legible_cons (by decide) fun k hk => ?_
    simp only [Review.flatKeys, List.mem_cons, Step.key.injEq, List.not_mem_nil, or_false] at hk hkey
    subst hk
    rcases hkey with rfl | rfl | rfl | rfl <;> decide
  | minute =>
    refine legible_cons (by decide) fun k hk => ?_
    simp only [List.mem_cons, Step.key.injEq, List.not_mem_nil, or_false] at hk
    rcases hk with rfl | rfl <;> decide
  | groups hkey hgroup =>
    refine legible_cons (by decide) fun k hk => ?_
    simp only [Review.groupKeys, List.mem_cons, Step.key.injEq, List.not_mem_nil,
      or_false] at hk hgroup
    rcases hk with rfl | rfl | rfl
    · decide
    · exact hplain hkey
    · rcases hgroup with rfl | rfl | rfl <;> decide

theorem ListPlace.ne_nil {p : Path} (h : ListPlace p) : p ≠ [] := by
  cases h <;> exact List.cons_ne_nil _ _

theorem plain_quantifierKey (q : Quantifier) : Plain q.key := by
  cases q <;> decide

/-- **Every place of a rule is legible**, and has more than one step. -/
theorem Occurs.legible (hnames : PlainNames rules) {p : Path} {r : Rule}
    (h : Occurs root rules p r) : p.Legible ∧ 2 ≤ p.length := by
  induction h with
  | whole h =>
    cases h with
    | @item p _ i _ hp _ _ =>
      refine ⟨hp.legible.append fun k hk => ?_, ?_⟩
      · cases List.mem_singleton.mp hk
      · have hpos := List.length_pos_iff.mpr hp.ne_nil
        simp only [Path.index, List.length_append, List.length_singleton]
        omega
    | @body name _ hr =>
      refine ⟨legible_cons (by decide) fun k hk => ?_, Nat.le_refl 2⟩
      rw [List.mem_singleton, Step.key.injEq] at hk
      subst hk
      exact hnames k (Table.has_iff.mp (by rw [Table.has, hr]; rfl))
  | @member p q _ i _ _ _ ih =>
    obtain ⟨hlegible, hlen⟩ := ih
    have heq : (p.key q.key).index i = p ++ [.key q.key, .index i] := by
      simp [Path.key, Path.index]
    rw [heq]
    refine ⟨hlegible.append fun k hk => ?_, by rw [List.length_append]; omega⟩
    simp only [List.mem_cons, Step.key.injEq, List.not_mem_nil, or_false, reduceCtorEq] at hk
    subst hk
    exact plain_quantifierKey q

/-- A place of a rule is not shown as a plain text. -/
theorem Occurs.not_plain (hnames : PlainNames rules) {p : Path} {r : Rule}
    (h : Occurs root rules p r) : ¬Plain p.render :=
  (h.legible hnames).1.not_plain (h.legible hnames).2

/-- **Two rules whose places are shown alike are one rule at one place.** -/
theorem Occurs.eq_of_render (hnames : PlainNames rules) {p p' : Path} {r r' : Rule}
    (h : Occurs root rules p r) (h' : Occurs root rules p' r') (heq : p.render = p'.render) :
    p = p' ∧ r = r' := by
  obtain rfl := Path.render_injective (h.legible hnames).1 (h'.legible hnames).1 heq
  exact ⟨rfl, h.unique h'⟩

end TopDown
