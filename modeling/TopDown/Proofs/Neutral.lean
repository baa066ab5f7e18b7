import TopDown.Proofs.Thresholds

/-!
# Missing data are neutral

A condition whose data are missing is neither held against a rule nor for it. In a flat group this is
plain from the definition; but groups are nested and shared, and a group of undecided members must
itself drop out of the group above it, at any depth, without counting as a failure there.

What it means to drop out is said with trees. The rules below a node unfold into a
`TopDown.Expression`, with the verdicts of the conditions at its leaves (`TopDown.Book.Unfolds`).
`TopDown.Expression.prune` deletes the undecided leaves and the groups that are left without members,
and `TopDown.Expression.holds` reads what remains in two-valued logic: `all_of` is conjunction, and
`any_of` disjunction.

The step is `TopDown.Quantifier.combine_reads`: if each member has the verdict of its expression, so
has the group. Members stand before their group, so by strong induction on places the verdict of
every node is that of its expression (`TopDown.Book.evaluate_neutral`).
-/

namespace TopDown

/-! ### Expressions -/

/-- A rule whose conditions have been checked. -/
inductive Expression where
  /-- The verdict of a condition. -/
  | leaf (v : Verdict)
  /-- A group of expressions. -/
  | group (quantifier : Quantifier) (members : List Expression)

/-- The quantifier in two-valued logic. -/
def Quantifier.plain : Quantifier → List Bool → Bool
  | .all, bs => bs.all id
  | .any, bs => bs.any id

namespace Expression

mutual

/-- The expression without its undecided leaves and without groups that are left empty; nothing if
this deletes the whole. -/
def prune : Expression → Option Expression
  | leaf v => if v.missing then none else some (leaf v)
  | group q members =>
    match pruneAll members with
    | [] => none
    | kept => some (group q kept)

/-- What is left of several expressions. -/
def pruneAll : List Expression → List Expression
  | [] => []
  | e :: rest => e.prune.toList ++ pruneAll rest

end

mutual

/-- The value of an expression in two-valued logic. -/
def holds : Expression → Bool
  | leaf v => v.passed
  | group q members => q.plain (values members)

/-- The values of several expressions. -/
def values : List Expression → List Bool
  | [] => []
  | e :: rest => e.holds :: values rest

end

/-- A group is deleted when nothing is left of its members. -/
theorem prune_group_eq_none {q : Quantifier} {es : List Expression} :
    (group q es).prune = none ↔ pruneAll es = [] := by
  rw [prune]
  split
  · rename_i h
    exact iff_of_true rfl h
  · rename_i h
    exact iff_of_false (Option.some_ne_none _) h

theorem prune_group_eq_some {q : Quantifier} {es : List Expression} {kept : Expression}
    (h : (group q es).prune = some kept) : pruneAll es ≠ [] ∧ kept = group q (pruneAll es) := by
  rw [prune] at h
  split at h
  · cases h
  · rename_i hne
    exact ⟨hne, (Option.some.inj h).symm⟩

end Expression

/-! ### Verdicts of expressions -/

/-- **A verdict reads an expression**: it is undecided if the expression is deleted, and else it has
passed if what is left of the expression holds. -/
structure Verdict.Reads (v : Verdict) (e : Expression) : Prop where
  /-- The verdict is undecided when nothing is left. -/
  missing_iff : v.missing = true ↔ e.prune = none
  /-- The verdict is the value of what is left. -/
  passed_eq : ∀ kept, e.prune = some kept → v.passed = kept.holds

namespace Verdict

variable {v : Verdict} {vs : List Verdict} {e : Expression} {es : List Expression}

theorem reads_leaf (v : Verdict) : v.Reads (.leaf v) := by
  constructor
  · rw [Expression.prune]
    split <;> simp_all
  · intro kept h
    rw [Expression.prune] at h
    split at h
    · cases h
    · cases h
      rfl

/-- A verdict either drops out together with its expression, or has the value of what is left. -/
theorem Reads.cases (h : v.Reads e) : (v.missing = true ∧ e.prune = none) ∨
    ∃ kept, v.missing = false ∧ e.prune = some kept ∧ v.passed = kept.holds := by
  cases hprune : e.prune with
  | none => exact .inl ⟨h.missing_iff.mpr hprune, rfl⟩
  | some kept =>
    refine .inr ⟨kept, ?_, rfl, h.passed_eq kept hprune⟩
    rw [← Bool.not_eq_true, h.missing_iff, hprune]
    exact Option.some_ne_none kept

/-- No verdict is decided when nothing is left of the expressions. -/
theorem decidedCount_eq_zero_iff (h : List.Forall₂ Reads vs es) :
    decidedCount vs = 0 ↔ Expression.pruneAll es = [] := by
  induction h with
  | nil => exact iff_of_true rfl rfl
  | cons hv _ ih =>
    rw [decidedCount] at ih ⊢
    rw [Expression.pruneAll]
    rcases hv.cases with ⟨hmissing, hprune⟩ | ⟨kept, hdecided, hprune, -⟩
    · simpa [hmissing, hprune] using ih
    · simp [hdecided, hprune]

/-- Among the decided verdicts there is a failure when not all that is left holds. -/
theorem any_fails (h : List.Forall₂ Reads vs es) :
    vs.any fails = !(Quantifier.all.plain (Expression.values (Expression.pruneAll es))) := by
  induction h with
  | nil => rfl
  | cons hv _ ih =>
    rw [List.any_cons, ih, Expression.pruneAll, fails]
    rcases hv.cases with ⟨hmissing, hprune⟩ | ⟨kept, hdecided, hprune, hpassed⟩
    · simp [hmissing, hprune]
    · simp [hdecided, hprune, hpassed, Expression.values, Quantifier.plain]

/-- Among the decided verdicts there is a pass when something that is left holds. -/
theorem any_holds (h : List.Forall₂ Reads vs es) :
    vs.any holds = Quantifier.any.plain (Expression.values (Expression.pruneAll es)) := by
  induction h with
  | nil => rfl
  | cons hv _ ih =>
    rw [List.any_cons, ih, Expression.pruneAll, holds]
    rcases hv.cases with ⟨hmissing, hprune⟩ | ⟨kept, hdecided, hprune, hpassed⟩
    · simp [hmissing, hprune]
    · simp [hdecided, hprune, hpassed, Expression.values, Quantifier.plain]

/-- Where something is left, a quantifier is satisfied by verdicts as it is by what is left. -/
theorem satisfied_eq (q : Quantifier) (h : List.Forall₂ Reads vs es)
    (hleft : Expression.pruneAll es ≠ []) :
    q.satisfied vs = q.plain (Expression.values (Expression.pruneAll es)) := by
  cases q with
  | any => exact any_holds h
  | all =>
    have hdecided : vs.any (fun v => !v.missing) = true := by
      rw [List.any_eq_true]
      have hcount : 0 < decidedCount vs :=
        Nat.pos_of_ne_zero fun h0 => hleft ((decidedCount_eq_zero_iff h).mp h0)
      exact List.countP_pos_iff.mp hcount
    rw [Quantifier.satisfied, allPassed, hdecided, any_fails h, Bool.true_and, Bool.not_not]

end Verdict

namespace Quantifier

variable {q : Quantifier} {members : List Labelled}

theorem combine_missing_iff :
    (q.combine members).missing = true ↔ Verdict.decidedCount (members.map (·.verdict)) = 0 := by
  rw [combine]
  split
  · rename_i hnone
    exact iff_of_true rfl hnone
  · rename_i hsome
    exact iff_of_false Bool.false_ne_true hsome

/-- An undecided group has not passed. -/
theorem passed_of_combine_missing (h : (q.combine members).missing = true) :
    (q.combine members).passed = false := by
  rw [combine, if_pos (combine_missing_iff.mp h)]
  rfl

/-- **A group reads the group of the expressions that its members read.** -/
theorem combine_reads {es : List Expression}
    (h : List.Forall₂ Verdict.Reads (members.map (·.verdict)) es) :
    (q.combine members).Reads (.group q es) := by
  have hcount := Verdict.decidedCount_eq_zero_iff h
  constructor
  · rw [combine_missing_iff, hcount, Expression.prune_group_eq_none]
  · intro kept hkept
    obtain ⟨hleft, rfl⟩ := Expression.prune_group_eq_some hkept
    rw [combine, if_neg (hcount.not.mpr hleft), Expression.holds]
    exact Verdict.satisfied_eq q h hleft

end Quantifier

/-! ### The rules below a node -/

/-- **The rules below a node unfold** into an expression. A leaf becomes the verdict of the condition
of its name; a node that several groups share is written out under each of them. -/
inductive Book.Unfolds (b : Book) (c : Context) : Node.Id → Expression → Prop
  /-- A leaf. -/
  | leaf {id : Node.Id} {name : String} {place : Nat} {threshold : Option Float} {k : Condition}
      (hnode : b.nodes[id]? = some (.leaf name place threshold))
      (hk : b.registry.find? name = some k) : Unfolds b c id (.leaf (k c))
  /-- A group. -/
  | group {id : Node.Id} {q : Quantifier} {label : String} {ids : List Node.Id}
      {es : List Expression} (hnode : b.nodes[id]? = some (.group q label ids))
      (hes : List.Forall₂ (Unfolds b c) ids es) : Unfolds b c id (.group q es)

/-- **A verdict is reported below a node**: it is that of the condition of a leaf that the node
reaches. -/
def Book.Reports (b : Book) (c : Context) (id : Node.Id) (v : Verdict) : Prop :=
  ∃ l name place threshold k, b.Reaches [id] l ∧ b.nodes[l]? = some (.leaf name place threshold) ∧
    b.registry.find? name = some k ∧ v = k c

section Nodes

variable {b : Book} {c : Context} {id : Node.Id}

/-- A node reaches itself and what its members reach. -/
theorem Book.reaches_singleton_iff {node : Node} (hnode : b.nodes[id]? = some node) {l : Node.Id} :
    b.Reaches [id] l ↔ l = id ∨ ∃ m ∈ node.members, b.Reaches [m] l := by
  constructor
  · intro h
    induction h with
    | root h => exact .inl (List.mem_singleton.mp h)
    | @member parent m node' _ hparent hm ih =>
      right
      rcases ih with rfl | ⟨m', hm', hreach⟩
      · rw [hnode, Option.some.injEq] at hparent
        subst hparent
        exact ⟨m, hm, .root (List.mem_singleton_self m)⟩
      · exact ⟨m', hm', .member hreach hparent hm⟩
  · rintro (rfl | ⟨m, hm, h⟩)
    · exact .root (List.mem_singleton_self l)
    · induction h with
      | root h =>
        rw [List.mem_singleton.mp h]
        exact .member (.root (List.mem_singleton_self id)) hnode hm
      | member _ hparent hm' ih => exact .member ih hparent hm'

/-- A leaf reports the verdict of its condition. -/
theorem Book.reports_leaf_iff {name : String} {place : Nat} {threshold : Option Float} {k : Condition}
    (hnode : b.nodes[id]? = some (.leaf name place threshold))
    (hk : b.registry.find? name = some k) {v : Verdict} : b.Reports c id v ↔ v = k c := by
  constructor
  · rintro ⟨l, name', place', threshold', k', hreach, hl, hk', rfl⟩
    rcases (reaches_singleton_iff hnode).mp hreach with rfl | ⟨m, hm, -⟩
    · rw [hnode] at hl
      cases hl
      rw [hk, Option.some.injEq] at hk'
      rw [hk']
    · cases hm
  · rintro rfl
    exact ⟨id, name, place, threshold, k, .root (List.mem_singleton_self id), hnode, hk, rfl⟩

/-- A group reports what its members report. -/
theorem Book.reports_group_iff {q : Quantifier} {label : String} {ids : List Node.Id}
    (hnode : b.nodes[id]? = some (.group q label ids)) {v : Verdict} :
    b.Reports c id v ↔ ∃ m ∈ ids, b.Reports c m v := by
  constructor
  · rintro ⟨l, name, place, threshold, k, hreach, hl, hk⟩
    rcases (reaches_singleton_iff hnode).mp hreach with rfl | ⟨m, hm, hreach⟩
    · rw [hnode] at hl
      cases hl
    · exact ⟨m, hm, l, name, place, threshold, k, hreach, hl, hk⟩
  · rintro ⟨m, hm, l, name, place, threshold, k, hreach, hl, hk⟩
    exact ⟨l, name, place, threshold, k,
      (reaches_singleton_iff hnode).mpr (.inr ⟨m, hm, hreach⟩), hl, hk⟩

/-- A node of a coherent book is a leaf whose name has a condition, or a group whose members stand
before it. -/
theorem Book.Coherent.node_cases (hb : b.Coherent) (hid : id < b.nodes.size) :
    (∃ name place threshold k, b.nodes[id]? = some (.leaf name place threshold) ∧
      b.registry.find? name = some k ∧ ∀ c, b.evaluate c id = k c) ∨
    ∃ q label ids, b.nodes[id]? = some (.group q label ids) ∧
      (∀ m ∈ ids, m < id ∧ m < b.nodes.size) ∧
      ∀ c, b.evaluate c id = q.combine (ids.map fun m => ⟨b.label m, b.evaluate c m⟩) := by
  have hnode : b.nodes[id]? = some b.nodes[id] := Array.getElem?_eq_getElem hid
  cases hn : b.nodes[id] with
  | leaf name place threshold =>
    rw [hn] at hnode
    obtain ⟨k, hk, heval⟩ := hb.evaluate_leaf hnode
    exact .inl ⟨name, place, threshold, k, hnode, hk, heval⟩
  | group q label ids =>
    rw [hn] at hnode
    refine .inr ⟨q, label, ids, hnode, fun m hm => ?_, hb.evaluate_group hnode⟩
    have hlt := hb.members id q label ids hnode m hm
    exact ⟨hlt, hlt.trans hid⟩

/-- Every node unfolds. -/
theorem Book.Coherent.exists_unfolds (hb : b.Coherent) (c : Context) (hid : id < b.nodes.size) :
    ∃ e, b.Unfolds c id e := by
  induction id using Nat.strong_induction_on with
  | _ id ih =>
    rcases hb.node_cases hid with ⟨name, place, threshold, k, hnode, hk, -⟩ |
      ⟨q, label, ids, hnode, hids, -⟩
    · exact ⟨_, .leaf hnode hk⟩
    · have hall : ∀ m ∈ ids, ∃ e, b.Unfolds c m e := fun m hm =>
        ih m (hids m hm).1 (hids m hm).2
      have hes : ∃ es, List.Forall₂ (b.Unfolds c) ids es := by
        clear hnode hids
        induction ids with
        | nil => exact ⟨[], .nil⟩
        | cons m rest ihrest =>
          obtain ⟨e, he⟩ := hall m List.mem_cons_self
          obtain ⟨es, hes⟩ := ihrest fun m' hm' => hall m' (List.mem_cons_of_mem _ hm')
          exact ⟨e :: es, .cons he hes⟩
      obtain ⟨es, hes⟩ := hes
      exact ⟨_, .group hnode hes⟩

/-- **The verdict of a node reads its expression.** -/
theorem Book.Coherent.evaluate_reads (hb : b.Coherent) (hid : id < b.nodes.size) {e : Expression}
    (he : b.Unfolds c id e) : (b.evaluate c id).Reads e := by
  induction id using Nat.strong_induction_on generalizing e with
  | _ id ih =>
    rcases hb.node_cases hid with ⟨name, place, threshold, k, hnode, hk, heval⟩ |
      ⟨q, label, ids, hnode, hids, heval⟩
    · cases he with
      | leaf hnode' hk' =>
        rw [hnode] at hnode'
        cases hnode'
        rw [hk] at hk'
        cases hk'
        rw [heval]
        exact Verdict.reads_leaf _
      | group hnode' _ =>
        rw [hnode] at hnode'
        cases hnode'
    · cases he with
      | leaf hnode' _ =>
        rw [hnode] at hnode'
        cases hnode'
      | group hnode' hes =>
        rw [hnode] at hnode'
        cases hnode'
        rw [heval]
        refine Quantifier.combine_reads ?_
        rw [List.map_map, List.forall₂_map_left_iff]
        refine List.forall₂_iff_get.mpr ⟨hes.length_eq, fun i h₁ h₂ => ?_⟩
        have hm := hids _ (List.get_mem ids ⟨i, h₁⟩)
        exact ih _ hm.1 hm.2 (hes.get h₁ h₂)

/-- **A verdict is undecided when all that are reported below it are**, and it breaks down when one of
them does. -/
theorem Book.Coherent.evaluate_reports (hb : b.Coherent) (c : Context) (hid : id < b.nodes.size) :
    ((b.evaluate c id).missing = true ↔ ∀ v, b.Reports c id v → v.missing = true) ∧
      ((b.evaluate c id).crash = none ↔ ∀ v, b.Reports c id v → v.crash = none) := by
  induction id using Nat.strong_induction_on with
  | _ id ih =>
    rcases hb.node_cases hid with ⟨name, place, threshold, k, hnode, hk, heval⟩ |
      ⟨q, label, ids, hnode, hids, heval⟩
    · simp only [heval, reports_leaf_iff hnode hk, forall_eq, and_self]
    · have hmember {P : Verdict → Prop} :
          (∀ v, b.Reports c id v → P v) ↔ ∀ m ∈ ids, ∀ v, b.Reports c m v → P v := by
        simp only [reports_group_iff hnode]
        exact ⟨fun h m hm v hv => h v ⟨m, hm, hv⟩, fun h v ⟨m, hm, hv⟩ => h m hm v hv⟩
      rw [heval, hmember, hmember]
      constructor
      · have hcount : (q.combine (ids.map fun m => ⟨b.label m, b.evaluate c m⟩)).missing = true ↔
            ∀ m ∈ ids, (b.evaluate c m).missing = true := by
          rw [Quantifier.combine_missing_iff]
          simp [Verdict.decidedCount]
        rw [hcount]
        exact forall₂_congr fun m hm => (ih m (hids m hm).1 (hids m hm).2).1
      · have hcrash : (q.combine (ids.map fun m => ⟨b.label m, b.evaluate c m⟩)).crash = none ↔
            ∀ m ∈ ids, (b.evaluate c m).crash = none := by
          show Verdict.firstCrash _ = none ↔ _
          simp [Verdict.firstCrash_eq_none]
        rw [hcrash]
        exact forall₂_congr fun m hm => (ih m (hids m hm).1 (hids m hm).2).2

end Nodes

/-- **Missing data are neutral, at every depth.** A node of a book is undecided when every leaf that it
reaches is; an undecided group has not passed; and where some reached leaf is decided, the node has
passed if its expression holds in two-valued logic, once its undecided leaves and the groups left
empty are deleted. The check of a node breaks down only where a condition that it reaches does. -/
theorem Book.evaluate_neutral {base : Registry} {config : Json} {b : Book}
    (h : compile base config = .ok b) (c : Context) {id : Node.Id} (hid : id < b.nodes.size) :
    ((b.evaluate c id).missing = true ↔ ∀ v, b.Reports c id v → v.missing = true) ∧
      (∀ q label ids, b.nodes[id]? = some (.group q label ids) →
        (b.evaluate c id).missing = true → (b.evaluate c id).passed = false) ∧
      (∃ e, b.Unfolds c id e) ∧
      (∀ e, b.Unfolds c id e → (∃ v, b.Reports c id v ∧ v.missing = false) →
        ∃ kept, e.prune = some kept ∧ (b.evaluate c id).passed = kept.holds) ∧
      ((b.evaluate c id).crash = none ↔ ∀ v, b.Reports c id v → v.crash = none) := by
  have hb : b.Coherent := compile_coherent h
  obtain ⟨hmissing, hcrash⟩ := hb.evaluate_reports c hid
  refine ⟨hmissing, fun q label ids hnode hm => ?_, hb.exists_unfolds c hid, ?_, hcrash⟩
  · rw [hb.evaluate_group hnode] at hm ⊢
    exact Quantifier.passed_of_combine_missing hm
  · rintro e he ⟨v, hv, hdecided⟩
    rcases (hb.evaluate_reads hid he).cases with ⟨hall, -⟩ | ⟨kept, -, hkept, hpassed⟩
    · have hv := hmissing.mp hall v hv
      rw [hdecided] at hv
      cases hv
    · exact ⟨kept, hkept, hpassed⟩

/-- The named rule stands in a group and again in a group below it. -/
def sharedTrend : Table Json :=
  [("rules", .obj [("trend", .obj [("any_of", .arr [.str "adx_trending"])])]),
    ("validation", .obj [("timeframe", .obj [("1h", .obj [("long", .arr [.obj [("all_of", .arr [
      .str "trend", .str "rsi_bullish",
      .obj [("any_of", .arr [.str "trend", .str "rsi_bullish"])]])]])])])])]

/-- An index, and nothing about the trend. -/
def indexAlone : Context :=
  .ofFacts "BTCUSDT" .h1 [("rsi", .number 55.0)]

/-- The undecided group drops out of both groups above it, and the outer one passes. -/
theorem Book.evaluate_sharedTrend : ∃ b e kept,
    Book.compile .builtin (.obj sharedTrend) = .ok b ∧
    (b.evaluate indexAlone 1).missing = true ∧ (b.evaluate indexAlone 5).passed = true ∧
    b.Unfolds indexAlone 5 e ∧ e.prune = some kept ∧ kept.holds = true := by
  have hrun : ((Book.compile .builtin (.obj sharedTrend)).toOption.map fun b =>
      ((b.evaluate indexAlone 1).missing, (b.evaluate indexAlone 5).missing,
        (b.evaluate indexAlone 5).passed, b.nodes.size)) = some (true, false, true, 6) := by
    decide +kernel
  obtain ⟨b, hb, hrun⟩ := Option.map_eq_some_iff.mp hrun
  simp only [Prod.mk.injEq] at hrun
  obtain ⟨hinner, hmissing, hpassed, hsize⟩ := hrun
  have hcompile := toOption_eq_some.mp hb
  have hid : 5 < b.nodes.size := by
    rw [hsize]
    decide
  obtain ⟨hiff, -, ⟨e, he⟩, hkept, -⟩ := Book.evaluate_neutral hcompile indexAlone hid
  have hdecided : ∃ v, b.Reports indexAlone 5 v ∧ v.missing = false := by
    by_contra hnone
    rw [hiff.mpr fun v hv => by by_contra h; exact hnone ⟨v, hv, Bool.eq_false_iff.mpr h⟩] at hmissing
    cases hmissing
  obtain ⟨kept, hprune, heq⟩ := hkept e he hdecided
  exact ⟨b, e, kept, hcompile, hinner, hpassed, he, hprune, heq.symm.trans hpassed⟩

end TopDown
