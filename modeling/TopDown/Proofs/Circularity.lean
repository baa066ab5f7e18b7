import TopDown.Proofs.Circle
import TopDown.Proofs.Integrity
import TopDown.Proofs.Remarks

/-!
# Circles are found twice

Rules that refer to each other in a circle are noticed in two places. The review searches the
references of all rules that it can read and reports circles; the assembly gives up when it comes upon
a rule that it has entered already. The two keep their books differently, and neither looks at the
other. Here we show that they agree, and that both are right: `TopDown.circles_exact`.

On the side of the review this is `TopDown.circles`, of which we know everything from
`TopDown.Proofs.Circle`, since no other part of a review reports a circle
(`TopDown.Review.AllLocal`). On the side of the assembly it is two statements. A configuration that
compiles has no circles (`TopDown.Book.compile_grounded`); and one whose review has nothing but
circles to complain about can stop for no other reason, because its sections are safe where circles
are allowed (`TopDown.assembleSections_safe`).
-/

namespace TopDown

/-! ### The walks in a report -/

/-- The walk that a finding shows, if it is about a circle. -/
def Finding.walk? (f : Finding) : Option (List String) :=
  match f.flaw with
  | .circle walk => some walk
  | _ => none

/-- The walks that a report shows. -/
def Report.walks (r : Report) : List (List String) :=
  r.errors.filterMap Finding.walk?

/-- A walk is shown exactly where the kind of the finding is that of a circle. -/
theorem Finding.walk?_isSome {f : Finding} :
    f.walk?.isSome = true ↔ f.flaw.kind = .circularReference := by
  obtain ⟨flaw, p, rule⟩ := f
  cases flaw <;> simp [walk?, Flaw.kind]

/-- A flaw that can be told from one place shows no walk. -/
theorem Finding.walk?_of_local {f : Finding} (h : f.flaw.isLocal = true) : f.walk? = none := by
  obtain ⟨flaw, p, rule⟩ := f
  cases flaw with
  | circle walk => cases h
  | _ => rfl

/-- What the rules of a configuration refer to, as far as they can be read. -/
def Json.references : Json → References
  | .obj root => Review.references (ruleBodies root)
  | _ => []

/-- The circle with its first rule once more at the end. -/
def closeCircle : List String → List String
  | [] => []
  | first :: rest => first :: rest ++ [first]

/-- **A closed walk**: different rules, each of which refers to the next, and the first one again at
the end. -/
structure IsClosedWalk (refs : References) (walk : List String) : Prop where
  /-- The walk begins and ends with the same rule, and the rules before the end are different. -/
  closed : ∃ first rest, walk = first :: rest ++ [first] ∧ (first :: rest).Nodup
  /-- Each rule refers to the next. -/
  linked : List.IsChain (fun name next => Refers refs next name) walk

theorem IsCircle.isClosedWalk {refs : References} {c : List String} (h : IsCircle refs c) :
    IsClosedWalk refs (closeCircle c) := by
  obtain ⟨first, rest, rfl, hchain⟩ := h.around
  exact ⟨⟨first, rest, rfl, h.nodup⟩, hchain⟩

/-- The walk around a circle comes past the same rules. -/
theorem mem_closeCircle {c : List String} {n : String} : n ∈ closeCircle c ↔ n ∈ c := by
  cases c with
  | nil => rfl
  | cons first rest =>
    simp only [closeCircle, List.mem_append, List.mem_cons, List.not_mem_nil, or_false]
    tauto

/-! ### What the review reports -/

namespace Review

/-- The walks that some remarks show. -/
def walksOf (remarks : List Remark) : List (List String) :=
  remarks.filterMap fun r => r.error?.bind Finding.walk?

theorem walks_report (remarks : List Remark) : (report remarks).walks = walksOf remarks :=
  List.filterMap_filterMap

theorem walksOf_append (a b : List Remark) : walksOf (a ++ b) = walksOf a ++ walksOf b :=
  List.filterMap_append

/-- Remarks that are local show no walks. -/
theorem walksOf_eq_nil {remarks : List Remark} (h : AllLocal remarks) : walksOf remarks = [] := by
  refine List.filterMap_eq_nil_iff.mpr fun r hr => ?_
  cases r with
  | error f => exact Finding.walk?_of_local (h _ hr)
  | warning f => rfl
  | lookup name => rfl

/-- The remarks on unused rules are warnings. -/
theorem walksOf_unused (w : Review) (names : List String) : walksOf (w.unused names) = [] := by
  refine List.filterMap_eq_nil_iff.mpr fun r hr => ?_
  obtain ⟨n, -, rfl⟩ := List.mem_map.mp hr
  rfl

/-- The remarks on circles show the walks around them. -/
theorem walksOf_circles (cs : List (List String)) (h : ∀ c ∈ cs, c ≠ []) :
    walksOf (cs.flatMap circle) = cs.map closeCircle := by
  induction cs with
  | nil => rfl
  | cons c rest ih =>
    obtain ⟨first, others, rfl⟩ := List.exists_cons_of_ne_nil (h c List.mem_cons_self)
    rw [List.flatMap_cons, walksOf_append, ih fun d hd => h d (List.mem_cons_of_mem _ hd)]
    rfl

end Review

/-- **The walks that a review shows are those around the circles.** -/
theorem review_walks (base : Registry) (config : Json) :
    (review base config).walks = (circles config.references).map closeCircle := by
  cases config with
  | obj root =>
    unfold review
    rw [Review.walks_report, Review.remarks, Review.walksOf_append, Review.sections,
      Review.walksOf_append, Review.walksOf_append, Review.walksOf_append,
      Review.walksOf_eq_nil Review.local_namedRules, Review.walksOf_eq_nil Review.local_validation,
      Review.walksOf_eq_nil Review.local_selection, Review.walksOf_unused, List.append_nil]
    exact Review.walksOf_circles _ fun _ => circles_proper
  | null | bool _ | int _ | real _ | str _ | arr _ => rfl

/-! ### The assembly is not cut short -/

section Counting

variable {rules : Table Rule}

mutual

/-- A rule becomes the same node wherever the named rules in it do. -/
theorem assembleRule_congr {named named' : String → Path → Assemble Node.Id} (p : Path) :
    (r : Rule) → (∀ n ∈ r.references, ¬IsLeafName rules n → ∀ q, named n q = named' n q) →
      assembleRule named rules p r = assembleRule named' rules p r
  | .reference name threshold, h => by
    by_cases hname : IsLeafName rules name
    · rw [assembleRule_leaf hname, assembleRule_leaf hname]
    · rw [assembleRule_named hname, assembleRule_named hname]
      exact h name (List.mem_singleton_self name) hname p
  | .group q members, h => by
    rw [assembleRule, assembleRule, assembleMembers_congr _ 0 members h]
  | .check k, _ => by
    rw [assembleRule, assembleRule]

theorem assembleMembers_congr {named named' : String → Path → Assemble Node.Id} (p : Path)
    (i : Nat) : (rs : List Rule) →
      (∀ n ∈ Rule.referencesOfAll rs, ¬IsLeafName rules n → ∀ q, named n q = named' n q) →
      assembleMembers named rules p i rs = assembleMembers named' rules p i rs
  | [], _ => by
    rw [assembleMembers, assembleMembers]
  | r :: rest, h => by
    rw [assembleMembers, assembleMembers,
      assembleRule_congr _ r fun n hn => h n (List.mem_append_left _ hn),
      assembleMembers_congr p (i + 1) rest fun n hn => h n (List.mem_append_right _ hn)]

end

/-- **Counting further changes nothing**: the count never runs out before the rules do. -/
theorem assembleNamed_more {left : Nat} {entered : List String}
    (hway : Way rules.names left entered) (more : Nat) (name : String) (p : Path) :
    assembleNamed rules (left + more) entered name p = assembleNamed rules left entered name p := by
  induction left generalizing entered name p with
  | zero =>
    funext a
    rw [assembleNamed_run, assembleNamed_run]
    cases a.named.lookup name with
    | some id => rfl
    | none =>
      by_cases hmem : name ∈ entered
      · simp only [if_pos hmem]
      · simp only [if_neg hmem, hway.lookup_eq_none hmem]
  | succ left ih =>
    have hcount : left + 1 + more = left + more + 1 := by omega
    funext a
    rw [hcount, assembleNamed_run, assembleNamed_run]
    cases a.named.lookup name with
    | some id => rfl
    | none =>
      by_cases hmem : name ∈ entered
      · simp only [if_pos hmem]
      · simp only [if_neg hmem]
        cases hrule : rules.lookup name with
        | none => rfl
        | some rule =>
          have hway' : Way rules.names left (name :: entered) :=
            hway.cons (Table.has_iff.mp (Option.isSome_iff_exists.mpr ⟨rule, hrule⟩)) hmem
          have hrest : assembleRule (assembleNamed rules (left + more) (name :: entered)) rules
              (rulePath name) rule = assembleRule (assembleNamed rules left (name :: entered)) rules
                (rulePath name) rule :=
            assembleRule_congr _ rule fun n _ _ q => ih hway' n q
          cases rule with
          | check k => rfl
          | reference _ _ | group _ _ => simp only [hrest]

end Counting

/-! ### Both agree -/

/-- Where a review has nothing but circles to complain about, its sections are clean. -/
theorem clean_of_circular {base : Registry} {root : Table Json}
    (h : ∀ f ∈ (review base (.obj root)).errors, f.walk?.isSome = true) {remarks : List Remark}
    (hsub : remarks ⊆ Review.sections ⟨ruleBodies root, base.names⟩ root)
    (hlocal : Review.AllLocal remarks) : Review.Clean remarks := by
  intro f hf
  have hmem : f ∈ (review base (.obj root)).errors :=
    List.mem_filterMap.mpr ⟨.error f, List.mem_append_left _ (hsub hf), rfl⟩
  have hsome := h f hmem
  rw [Finding.walk?_of_local (hlocal _ hf)] at hsome
  cases hsome

/-- A rule that leads back to itself keeps a configuration from being compiled. -/
theorem compile_ne_ok {base : Registry} {config : Json} {name : String} {b : Book}
    (h : Relation.TransGen (Refers config.references) name name) :
    Book.compile base config ≠ .ok b := by
  intro hok
  cases config with
  | obj root =>
    exact (Book.compile_grounded hok).transGen.irrefl.irrefl name h
  | null | bool _ | int _ | real _ | str _ | arr _ => cases hok

/-- **Nothing but circles stops the compilation** where the review complains about nothing else. -/
theorem compile_circular {base : Registry} {config : Json}
    (hfits : ∀ root, config = .obj root → GraceFits root)
    (hsome : (review base config).errors ≠ [])
    (honly : ∀ f ∈ (review base config).errors, f.walk?.isSome = true) :
    ∃ name p, Book.compile base config = .error (.fault (.circularReference name p)) := by
  cases config with
  | obj root =>
    -- some error shows a walk, so there is a circle and the configuration is not compiled
    obtain ⟨f, hf⟩ := List.exists_mem_of_ne_nil _ hsome
    obtain ⟨walk, hwalk⟩ := Option.isSome_iff_exists.mp (honly f hf)
    have hmem : walk ∈ (review base (.obj root)).walks := List.mem_filterMap.mpr ⟨f, hf, hwalk⟩
    rw [review_walks] at hmem
    obtain ⟨c, hc, -⟩ := List.mem_map.mp hmem
    obtain ⟨first, rest, rfl⟩ := List.exists_cons_of_ne_nil (circles_proper hc)
    have hjoined := (isCircle_of_mem hc).joined List.mem_cons_self List.mem_cons_self
    have hnot (b : Book) : Book.compile base (.obj root) ≠ .ok b :=
      compile_ne_ok (Relation.transGen_swap.mp hjoined.1)
    -- what is not about circles is clean, so nothing else can stop it
    have hsafe : (∃ r a', assembleSections root ⟨base, #[], []⟩ = .ok (r, a')) ∨
        ∃ e, assembleSections root ⟨base, #[], []⟩ = .error e ∧
          ∃ name p, e = .fault (.circularReference name p) := by
      refine assembleSections_safe rfl ?_ ?_ ?_ ((hfits root rfl).safe _)
        (.inr fun name p => ⟨name, p, rfl⟩)
      · refine clean_of_circular honly ?_ Review.local_namedRules
        exact fun _ h => List.mem_append_left _ (List.mem_append_left _ (List.mem_append_left _ h))
      · refine clean_of_circular honly ?_ Review.local_validation
        exact fun _ h => List.mem_append_left _ (List.mem_append_left _ (List.mem_append_right _ h))
      · refine clean_of_circular honly ?_ Review.local_selection
        exact fun _ h => List.mem_append_left _ (List.mem_append_right _ h)
    rcases hsafe with ⟨⟨start, blocks, selection⟩, a, hok⟩ | ⟨e, he, name, p, rfl⟩
    · have hcompile : Book.compile base (.obj root) = .ok
          { registry := a.registry, nodes := a.nodes, named := a.named, blocks, selection, start } :=
        bind_eq_ok.mpr ⟨_, hok, rfl⟩
      exact absurd hcompile (hnot _)
    · refine ⟨name, p, ?_⟩
      rw [Book.compile, he]
      rfl
  | null | bool _ | int _ | real _ | str _ | arr _ =>
    have hcircle := honly _ List.mem_cons_self
    cases hcircle

/-- **Circles are found exactly, and twice.** For every configuration and every registry:

* the review does not give up early; every walk that it shows is a closed walk of references; no two
  walks come past the same rules; and every rule that leads back to itself is joined, there and back,
  to all rules of some walk;
* the assembly does not give up early; a configuration in which a rule leads back to itself is never
  compiled; and if the review has errors, but only such as are about circles, then the compilation
  stops at a circle, provided that the grace windows can be counted. -/
theorem circles_exact (base : Registry) (config : Json) :
    (∀ more, (config.references.names.foldl (fun s name =>
      searchCircles config.references (config.references.length + more) [] name s) ⟨[], []⟩).found =
        circles config.references) ∧
    (∀ walk ∈ (review base config).walks, IsClosedWalk config.references walk) ∧
    ((review base config).walks.Pairwise fun v w => ¬∀ n, n ∈ v ↔ n ∈ w) ∧
    (∀ name, Relation.TransGen (Refers config.references) name name →
      ∃ walk ∈ (review base config).walks, ∀ n ∈ walk,
        Relation.TransGen (Refers config.references) n name ∧
          Relation.TransGen (Refers config.references) name n) ∧
    (∀ (rules : Table Rule) more,
      assembleNamed rules (rules.length + more) [] = assembleNamed rules rules.length []) ∧
    (∀ name b, Relation.TransGen (Refers config.references) name name →
      Book.compile base config ≠ .ok b) ∧
    ((∀ root, config = .obj root → GraceFits root) → (review base config).errors ≠ [] →
      (∀ f ∈ (review base config).errors, f.flaw.kind = .circularReference) →
        ∃ name p, Book.compile base config = .error (.fault (.circularReference name p))) := by
  rw [review_walks]
  refine ⟨fun more => ?_, fun walk hwalk => ?_, ?_, fun name hname => ?_, fun rules more => ?_,
    fun name b hname => compile_ne_ok hname, fun hfits hsome honly => ?_⟩
  · simp only [searchCircles_more (Way.start config.references) more]
    rfl
  · obtain ⟨c, hc, rfl⟩ := List.mem_map.mp hwalk
    exact (isCircle_of_mem hc).isClosedWalk
  · refine List.pairwise_map.mpr (circles_distinct.imp fun {c d} hcd hsame => hcd fun n => ?_)
    rw [← mem_closeCircle, hsame n, mem_closeCircle]
  · obtain ⟨c, hc, hjoined⟩ := exists_circle (Relation.transGen_swap.mpr hname)
    refine ⟨closeCircle c, List.mem_map_of_mem hc, fun n hn => ?_⟩
    obtain ⟨hto, hfrom⟩ := hjoined n (mem_closeCircle.mp hn)
    exact ⟨Relation.transGen_swap.mp hfrom, Relation.transGen_swap.mp hto⟩
  · funext name p
    exact assembleNamed_more (Way.start rules) more name p
  · exact compile_circular hfits hsome fun f hf => Finding.walk?_isSome.mpr (honly f hf)

/-! ### Two circles that share a rule -/

/-- A configuration in which `a` refers to `b` and `c`, which both refer back to `a`, and `d` to
itself. -/
def knottedConfig : Table Json :=
  [("rules", .obj [
      ("a", .obj [("all_of", .arr [.str "b", .str "c"])]),
      ("b", .obj [("any_of", .arr [.str "a"])]),
      ("c", .obj [("any_of", .arr [.str "a"])]),
      ("d", .obj [("any_of", .arr [.str "d", .str "c"])])]),
    ("validation", .obj [("timeframe", .obj [])])]

/-- The review shows all three walks, and the compilation stops at one of them. -/
theorem circles_exact_knotted :
    (review .builtin (.obj knottedConfig)).walks = [["a", "b", "a"], ["a", "c", "a"], ["d", "d"]] ∧
      ∃ name p, Book.compile .builtin (.obj knottedConfig) =
        .error (.fault (.circularReference name p)) := by
  have hwalks : (review .builtin (.obj knottedConfig)).walks =
      [["a", "b", "a"], ["a", "c", "a"], ["d", "d"]] := by decide +kernel
  have hsome : ((review .builtin (.obj knottedConfig)).errors.isEmpty) = false := by decide +kernel
  have honly : ((review .builtin (.obj knottedConfig)).errors.all
      fun f => f.flaw.kind = .circularReference) = true := by decide +kernel
  obtain ⟨-, -, -, -, -, -, hstops⟩ := circles_exact .builtin (.obj knottedConfig)
  refine ⟨hwalks, hstops ?_ ?_ ?_⟩
  · intro root hroot validation blocks key block seconds hv hb hmem hs
    cases hroot
    have hv' : knottedConfig.lookup "validation" = some (.obj [("timeframe", .obj [])]) := rfl
    rw [hv', Option.some.injEq, Json.obj.injEq] at hv
    subst hv
    cases hb
    exact absurd hmem List.not_mem_nil
  · intro hnil
    rw [hnil] at hsome
    cases hsome
  · intro f hf
    exact of_decide_eq_true (List.all_eq_true.mp honly f hf)

end TopDown
