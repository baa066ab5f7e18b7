import TopDown.Proofs.Compile
import TopDown.Proofs.Load

/-!
# Where an unknown name is reported

The assembly stops at the first name that means nothing, and says at which place it stands. The
review reports every such name, and says where, too. They come to the name each on its own way, and
their places are not made alike. A place in the review counts the steps into the document. A place
in the assembly counts the steps into the rules: below a group stands the key of its quantifier,
also where the document spells the group as a bare list, which has no keys. `TopDown.AssembledAt`
tells which place of the assembly belongs to a place of the document, and how many bare lists stand
for groups on the way.

The two walks go through the sections together (`TopDown.Proofs.Passage`), this time where the review
has errors. Stopping at an unknown name is allowed if the review has noted the name at the place that
belongs to it (`TopDown.Blames`), and whatever the assembly makes has been read from a value on which
the remarks are noted (`TopDown.Remarked`). It follows that the review reports each name at which the
compilation stops, at the node that refers to it (`TopDown.Book.compile_unknown`). The place that
the compilation tells is the same, and one of the document at all, exactly if no bare list stands
for a group on the way.
-/

namespace TopDown

open Assemble

/-! ### Places of the document and places of the assembly -/

/-- **A rule stands at one place and is assembled at another**, of the document and of the assembly;
the number is that of the bare lists on the way that stand for groups. -/
inductive AssembledAt (config : Json) : Nat → Path → Path → Prop
  /-- An item of a list of rules. -/
  | item {p : Path} (hp : ListPlace p) (i : Nat) : AssembledAt config 0 (p.index i) (p.index i)
  /-- The body of a named rule. -/
  | body (name : String) : AssembledAt config 0 (rulePath name) (rulePath name)
  /-- A member of a group that is spelt with its quantifier. -/
  | member {lists : Nat} {q p : Path} {k : Quantifier} {items : List Json}
      (h : AssembledAt config lists q p) (hq : config.at? q = some (.obj [(k.key, .arr items)]))
      (i : Nat) : AssembledAt config lists ((q.key k.key).index i) ((p.key k.key).index i)
  /-- An item of a bare list that stands for a group. -/
  | bare {lists : Nat} {q p : Path} {items : List Json} (h : AssembledAt config lists q p)
      (hq : config.at? q = some (.arr items)) (i : Nat) :
      AssembledAt config (lists + 1) (q.index i) ((p.key Quantifier.all.key).index i)

namespace AssembledAt

variable {config : Json} {lists : Nat} {q p : Path}

/-- Without bare lists the places are the same. -/
theorem eq_of_zero (h : AssembledAt config lists q p) (hlists : lists = 0) : p = q := by
  induction h with
  | item | body => rfl
  | member _ _ i ih => rw [ih hlists]
  | bare _ _ i _ => exact absurd hlists (Nat.succ_ne_zero _)

/-- **Behind a bare list the place of the assembly leads nowhere** in the document: the list has no
key. -/
theorem at?_eq_none (h : AssembledAt config lists q p) (hlists : 0 < lists) :
    config.at? p = none := by
  induction h with
  | item | body => exact absurd hlists (Nat.lt_irrefl 0)
  | member _ _ i ih =>
    rw [Path.index, Path.key, List.append_assoc, Json.at?_append, ih hlists]
    rfl
  | @bare lists q p items h hq i ih =>
    rw [Path.index, Path.key, List.append_assoc, Json.at?_append]
    rcases Nat.eq_zero_or_pos lists with hzero | hpos
    · rw [h.eq_of_zero hzero, hq]
      rfl
    · rw [ih hpos]
      rfl

end AssembledAt

/-! ### What the review has noted -/

/-- **The review has noted the name** at the place of the document that belongs to a place of the
assembly, where there is a value that refers to the name. -/
def NotedAt (config : Json) (noted : List Remark) (name : String) (p : Path) : Prop :=
  ∃ lists q v rule, AssembledAt config lists q p ∧ config.at? q = some v ∧ v.RefersTo name ∧
    Remark.error ⟨.unresolved name, q, rule⟩ ∈ noted

/-- **It is allowed to stop** at a name that the review has noted, and for any other reason. -/
def Blames (config : Json) (noted : List Remark) : Stop → Prop
  | .fault (.unknownCondition name p) => NotedAt config noted name p
  | _ => True

/-- **The rule is remarked on**: it has been read from the value at the place of the document that
belongs to a place of the assembly, and the remarks on that value are noted. -/
def Remarked (w : Review) (config : Json) (noted : List Remark) (p : Path) (r : Rule) : Prop :=
  ∃ lists q v rule, AssembledAt config lists q p ∧ config.at? q = some v ∧
    Rule.parse q v = .ok r ∧ w.expression rule q v ⊆ noted

namespace Remarked

variable {w : Review} {config : Json} {noted : List Remark} {p : Path}

/-- The members of a group that is remarked on are remarked on. -/
theorem member {k : Quantifier} {rs : List Rule} (h : Remarked w config noted p (.group k rs))
    {i : Nat} {r : Rule} (hr : rs[i]? = some r) :
    Remarked w config noted ((p.key k.key).index i) r := by
  obtain ⟨lists, q, v, rule, hplace, hv, hparsed, hsub⟩ := h
  rcases Review.expression_of_parse w rule hparsed with hleaf | hgroup
  · rcases hleaf.shape with ⟨_, _, h, -⟩ | ⟨_, _, -, -, h⟩ <;> cases h
  obtain ⟨k', rs', q', items, heq, hreads⟩ := hgroup
  cases heq
  obtain ⟨u, hu, hread, hmember⟩ :=
    Review.parseMembers_getElem? w rule hreads.members hr
  rw [hreads.remarks] at hsub
  rcases hreads.spelling with ⟨rfl, rfl, rfl⟩ | ⟨rfl, rfl⟩
  · refine ⟨lists + 1, q'.index i, u, rule, hplace.bare hv i, ?_, hread,
      List.Subset.trans hmember hsub⟩
    rw [Path.index, Json.at?_append, hv]
    exact (Option.bind_fun_some _).trans hu
  · refine ⟨lists, (q.key k.key).index i, u, rule, hplace.member hv i, ?_, hread,
      List.Subset.trans hmember hsub⟩
    rw [Path.index, Path.key, List.append_assoc, Json.at?_append, hv]
    simpa [Json.at?, Json.step?] using hu

/-- **A name that is not known is noted** where a reference to it is remarked on. -/
theorem notedAt {name : String} {threshold : Option Threshold}
    (h : Remarked w config noted p (.reference name threshold)) (hname : w.knows name = false) :
    NotedAt config noted name p := by
  obtain ⟨lists, q, v, rule, hplace, hv, hparsed, hsub⟩ := h
  rcases Review.expression_of_parse w rule hparsed with hleaf | hgroup
  · have hrefers : v.RefersTo name := by
      rcases hleaf.shape with ⟨_, _, heq, hrefers⟩ | ⟨_, _, -, -, heq⟩ <;> cases heq
      exact hrefers
    refine ⟨lists, q, v, rule, hplace, hv, hrefers, hsub ?_⟩
    rw [hleaf.remarks]
    refine List.mem_append_left _ (List.mem_append_right _ ?_)
    rw [hname]
    exact List.mem_singleton_self _
  · obtain ⟨_, _, _, _, h, -⟩ := hgroup
    cases h

end Remarked

/-! ### Sections -/

section Sections

variable {root : Table Json} {w : Review} {noted : List Remark} {rules : Table Rule}
  {known : List String}
  (h : SoundAt (Blames (.obj root) noted) known rules (Remarked w (.obj root) noted))
include h

/-- **A list of rules**: the assembly stops at no unknown name but those that the remarks on the
list, or on named rules, tell of. -/
theorem listAt_blames {p : Path} {fields : Table Json} {key : String} (hp : ListPlace (p.key key))
    (hfields : (Json.obj root).fieldsAt p = fields) (hsub : w.listAt p fields key ⊆ noted) :
    Safe (Blames (.obj root) noted) known (listAt rules p fields key) := by
  unfold Review.listAt at hsub
  unfold listAt
  cases hv : fields.lookup key with
  | none => exact .pure _
  | some v =>
    rw [hv] at hsub
    cases hparsed : Rule.parseList (p.key key) v with
    | error e =>
      simp only [hparsed]
      exact fun _ _ => .inr ⟨.fault (.ruleParse e), rfl, trivial⟩
    | ok list =>
      simp only [hparsed, ofParsed, pure_bind]
      refine assembleList_safe h fun i r hr => ?_
      cases v with
      | arr items =>
        obtain ⟨u, hu, hread, hitem⟩ :=
          Review.parseItems_getElem? w none (i := 0) hparsed hr
        rw [Nat.zero_add] at hread hitem
        refine ⟨0, (p.key key).index i, u, none, .item hp i, ?_, hread,
          List.Subset.trans hitem hsub⟩
        rw [Path.index, Json.at?_append, Json.at?_key, hfields, hv]
        exact (Option.bind_fun_some _).trans hu
      | null =>
        cases hparsed
        cases hr
      | bool _ | int _ | real _ | str _ | obj _ => cases hparsed

/-- **The sections can be passed**, with any stop but at an unknown name that is not noted. -/
theorem passable_of_soundAt (hordered : (Json.obj root).Ordered) :
    Passable (Blames (.obj root) noted) w root known rules noted where
  list hp hfields hsub := listAt_blames h hp (hfields hordered) hsub
  named := assembleAllNamed_safe h (List.Subset.refl _)
  refuse _ _ _ _ := trivial
  missing _ _ _ := trivial
  grace _ _ _ _ _ _ _ := .inr trivial

end Sections

/-! ### The whole configuration -/

variable {base : Registry} {root : Table Json} {noted : List Remark} {rules : Table Rule}

/-- A named rule has been read from its body. -/
theorem lookup_of_parseNamed {fields : Table Json} (h : parseNamed fields = .ok rules)
    {name : String} {r : Rule} (hr : rules.lookup name = some r) :
    ∃ v, fields.lookup name = some v ∧ Rule.parse (rulePath name) v = .ok r := by
  induction fields generalizing rules with
  | nil =>
    cases h
    cases hr
  | cons e rest ih =>
    obtain ⟨key, v⟩ := e
    obtain ⟨r', hread, h⟩ := bind_eq_ok.mp h
    obtain ⟨rs, hrest, h⟩ := bind_eq_ok.mp h
    cases h
    by_cases hname : name = key
    · subst hname
      rw [List.lookup_cons_self, Option.some.injEq] at hr
      exact ⟨v, List.lookup_cons_self, hr ▸ hread⟩
    · rw [Table.lookup_cons_of_ne hname] at hr ⊢
      exact ih hrest hr

/-- The remarks on the body of a named rule are among those on all of them. -/
theorem Review.expression_subset_namedRules {w : Review} {name : String} {v : Json}
    (h : (ruleBodies root).lookup name = some v) :
    w.expression (some name) (rulePath name) v ⊆ w.namedRules root := by
  unfold ruleBodies at h
  unfold namedRules
  cases hv : root.lookup "rules" with
  | none =>
    rw [hv] at h
    cases h
  | some u =>
    rw [hv] at h
    cases u with
    | obj fields =>
      simp only [Json.given?, hv]
      exact fun remark hremark => List.mem_flatMap.mpr ⟨_, Table.mem_of_lookup h, hremark⟩
    | null | bool _ | int _ | real _ | str _ | arr _ => cases h

/-- **The named rules are sound**, but for names that the review has noted. -/
theorem soundAt_of_parseNamed (base : Registry)
    (hparsed : parseNamed (ruleBodies root) = .ok rules)
    (hsub : Review.namedRules ⟨ruleBodies root, base.names⟩ root ⊆ noted) :
    SoundAt (Blames (.obj root) noted) (base.names ++ checkNames rules) rules
      (Remarked ⟨ruleBodies root, base.names⟩ (.obj root) noted) where
  member h hr := h.member hr
  body {name r} hr := by
    obtain ⟨v, hv, hread⟩ := lookup_of_parseNamed hparsed hr
    refine ⟨0, rulePath name, v, some name, .body name, ?_, hread,
      List.Subset.trans (Review.expression_subset_namedRules hv) hsub⟩
    have hplace : rulePath name = Path.key [.key "rules"] name := rfl
    rw [hplace, Json.at?_key, ← ruleBodies_eq, hv]
  names {p name threshold} h hnone := by
    by_cases hname : name ∈ base.names
    · exact .inl (List.mem_append_left _ hname)
    refine .inr (h.notedAt (Bool.or_eq_false_iff.mpr ⟨?_, ?_⟩))
    · rw [Bool.eq_false_iff]
      intro hhas
      rw [Table.has_iff, ← names_of_parseNamed hparsed, ← Table.has_iff, Table.has, hnone] at hhas
      cases hhas
    · rw [Bool.eq_false_iff]
      exact fun hmem => hname (List.contains_iff_mem.mp hmem)
  checks name k hk := List.mem_append_right _ (mem_checkNames hk)
  circles := .inr fun _ _ => trivial

theorem namedRules_blames (root : Table Json) {config : Json} {known : List String} :
    Safe (Blames config noted) known (namedRules root) := by
  unfold namedRules
  split
  · exact .pure _
  · cases parseNamed _ with
    | ok rules => exact .pure _
    | error e => exact safe_stop trivial
  · exact safe_stop trivial

/-- **The assembly stops at no unknown name** that the review of the sections has not noted. -/
theorem assembleSections_blames (hordered : (Json.obj root).Ordered) {e : Stop}
    (h : assembleSections root ⟨base, #[], []⟩ = .error e) :
    Blames (.obj root) (Review.sections ⟨ruleBodies root, base.names⟩ root) e := by
  have hsub := List.Subset.refl (Review.sections ⟨ruleBodies root, base.names⟩ root)
  simp only [Review.sections, List.append_subset] at hsub
  obtain ⟨⟨⟨hnamed, hvalidation⟩, hselection⟩, -⟩ := hsub
  rcases namedRules_blames root ⟨base, #[], []⟩ (List.Subset.refl base.names) with
    ⟨rules, a, hrules, -⟩ | ⟨e', he', hblames⟩
  · obtain ⟨hparsed, rfl⟩ := namedRules_eq_ok hrules
    obtain ⟨a₁, henrol, ha₁⟩ := enrolChecks_ok rules (a := ⟨base, #[], []⟩) (List.Subset.refl _)
    have hsound := soundAt_of_parseNamed base hparsed hnamed
    rcases (passable_of_soundAt hsound hordered).sections_safe hrules henrol ha₁ hvalidation
      hselection with ⟨_, _, hok⟩ | ⟨e', he', hblames⟩
    · rw [hok] at h
      cases h
    · rw [he'] at h
      cases h
      exact hblames
  · rw [assembleSections, bind_run_error he'] at h
    cases h
    exact hblames

/-- **The review reports the name** as a missing reference at the place. -/
def ReportsMissing (base : Registry) (config : Json) (name : String) (p : Path) : Prop :=
  ∃ f ∈ (review base config).errors, f.flaw = .unresolved name ∧ f.path = p

/-- **The place leads** from the root of the document to a value that refers to the name. -/
def Json.LeadsTo (config : Json) (p : Path) (name : String) : Prop :=
  ∃ v, config.at? p = some v ∧ v.RefersTo name

/-- **An unknown name is traced**: the compilation stops at the first place because of it, and it
stands at the second, behind so many bare lists that stand for groups. -/
structure Traced (base : Registry) (config : Json) (name : String) (p : Path) (lists : Nat)
    (q : Path) : Prop where
  /-- The review reports the name where it stands. -/
  reports : ReportsMissing base config name q
  /-- The place leads to a value that refers to the name. -/
  leads : config.LeadsTo q name
  /-- The place of the compilation belongs to it. -/
  assembled : AssembledAt config lists q p
  /-- The place of the compilation is as good if there are no bare lists, and only then. -/
  alike : ReportsMissing base config name p ∧ config.LeadsTo p name ↔ lists = 0
  /-- Otherwise it leads nowhere. -/
  astray : 0 < lists → config.at? p = none

/-- **The review reports every name at which the compilation stops**, at the node that refers to it,
for every configuration and every registry. The compilation tells the same place exactly if no bare
list stands for a group on the way; otherwise its place leads nowhere. -/
theorem Book.compile_unknown {base : Registry} {config : Json} {name : String} {p : Path}
    (hordered : config.Ordered)
    (h : Book.compile base config = .error (.fault (.unknownCondition name p))) :
    ∃ lists q, Traced base config name p lists q := by
  cases config with
  | obj root =>
    have hsections : assembleSections root ⟨base, #[], []⟩ =
        .error (.fault (.unknownCondition name p)) := by
      cases hs : assembleSections root ⟨base, #[], []⟩ with
      | error e =>
        rw [Book.compile, hs] at h
        cases h
        rfl
      | ok r =>
        rw [Book.compile, hs] at h
        cases h
    obtain ⟨lists, q, v, rule, hplace, hv, hrefers, hmem⟩ :=
      assembleSections_blames hordered hsections
    have hreports : ReportsMissing base (.obj root) name q :=
      ⟨⟨.unresolved name, q, rule⟩,
        List.mem_filterMap.mpr ⟨_, List.mem_append_left _ hmem, rfl⟩, rfl, rfl⟩
    refine ⟨lists, q, hreports, ⟨v, hv, hrefers⟩, hplace,
      ⟨fun ⟨_, u, hu, _⟩ => ?_, fun hzero => ?_⟩, hplace.at?_eq_none⟩
    · by_contra hlists
      rw [hplace.at?_eq_none (Nat.pos_of_ne_zero hlists)] at hu
      cases hu
    · rw [hplace.eq_of_zero hzero]
      exact ⟨hreports, v, hv, hrefers⟩
  | null | bool _ | int _ | real _ | str _ | arr _ => cases h

/-! ### Two configurations with an unknown name -/

/-- The unknown name at which a compilation has stopped, and its place. -/
def unknown? : Except Stop Book → Option (String × Path)
  | .error (.fault (.unknownCondition name p)) => some (name, p)
  | _ => none

theorem eq_error_of_unknown? {x : Except Stop Book} {name : String} {p : Path}
    (h : unknown? x = some (name, p)) : x = .error (.fault (.unknownCondition name p)) := by
  unfold unknown? at h
  split at h
  · cases h
    rfl
  · cases h

/-- A configuration with a named group that refers to a name without a meaning. -/
def quantifiedConfig : Table Json :=
  [("rules", .obj [("trend", .obj [("all_of", .arr [.str "rsi_bullish", .str "nope"])])]),
    ("validation", .obj [("timeframe", .obj [("1h", .obj [("long", .arr [.str "trend"])])])])]

/-- The name is traced to the second member of the group, without bare lists on the way. -/
theorem Book.compile_unknown_quantified :
    Book.compile .builtin (.obj quantifiedConfig) = .error (.fault (.unknownCondition "nope"
        [.key "rules", .key "trend", .key "all_of", .index 1])) ∧
      ∃ lists q, Traced .builtin (.obj quantifiedConfig) "nope"
        [.key "rules", .key "trend", .key "all_of", .index 1] lists q := by
  have hstop : unknown? (Book.compile .builtin (.obj quantifiedConfig)) =
      some ("nope", [.key "rules", .key "trend", .key "all_of", .index 1]) := by decide +kernel
  exact ⟨eq_error_of_unknown? hstop,
    Book.compile_unknown (by decide) (eq_error_of_unknown? hstop)⟩

/-- A configuration with a bare list that stands for a group of a name without a meaning. -/
def bareConfig : Table Json :=
  [("validation", .obj [("timeframe", .obj [("1h",
    .obj [("long", .arr [.arr [.str "nope"]])])])])]

/-- The place where the compilation stops. -/
def barePlace : Path :=
  [.key "validation", .key "timeframe", .key "1h", .key "long", .index 0, .key "all_of", .index 0]

/-- **The compilation does not tell the place of the review.** It stops at a place below a key that
the list does not have, while the review reports the name at the item of the list and nowhere
else. -/
theorem Book.compile_bare :
    Book.compile .builtin (.obj bareConfig) = .error (.fault (.unknownCondition "nope" barePlace)) ∧
      (review .builtin (.obj bareConfig)).errors.map (·.path) =
        [[.key "validation", .key "timeframe", .key "1h", .key "long", .index 0, .index 0]] ∧
      ¬ReportsMissing .builtin (.obj bareConfig) "nope" barePlace ∧
      ¬(Json.obj bareConfig).LeadsTo barePlace "nope" := by
  have hstop : unknown? (Book.compile .builtin (.obj bareConfig)) = some ("nope", barePlace) := by
    decide +kernel
  have hpaths : (review .builtin (.obj bareConfig)).errors.map (·.path) =
      [[.key "validation", .key "timeframe", .key "1h", .key "long", .index 0, .index 0]] := by
    decide +kernel
  refine ⟨eq_error_of_unknown? hstop, hpaths, ?_, ?_⟩
  · rintro ⟨f, hf, -, hpath⟩
    have hmem := List.mem_map_of_mem (f := (·.path)) hf
    rw [hpaths, List.mem_singleton] at hmem
    exact absurd (hpath.symm.trans hmem) (by decide)
  · rintro ⟨v, hv, -⟩
    cases hv

end TopDown
