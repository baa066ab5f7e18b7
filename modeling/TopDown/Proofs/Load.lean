import TopDown.Book.Load
import TopDown.Proofs.Passage

/-!
# What the review passes can be loaded

Where the remarks of the review are clean, the assembly goes through the sections of a configuration
without being stopped (`TopDown.Prepared.passable`). `TopDown.load_of_review` is the sum: a
configuration without errors in its review becomes a book. One thing the review does not look at is
the length of a grace window, which must be one that the clock can count (`TopDown.GraceFits`).
-/

namespace TopDown

/-! ### Named rules -/

/-- The review collects the references of the rules that are read. -/
theorem references_of_parseNamed {fields : Table Json} {rules : Table Rule}
    (h : parseNamed fields = .ok rules) : Review.references fields = Rule.table rules := by
  induction fields generalizing rules with
  | nil =>
    cases h
    rfl
  | cons e rest ih =>
    obtain ⟨name, v⟩ := e
    obtain ⟨r, hr, h⟩ := bind_eq_ok.mp h
    obtain ⟨rs, hrs, h⟩ := bind_eq_ok.mp h
    cases h
    have hr' : Rule.parse [.key "rules", .key name] v = .ok r := hr
    unfold Review.references
    rw [List.filterMap_cons]
    simp only [hr']
    exact congrArg _ (ih hrs)

/-- **Where the remarks on the named rules are clean, they can be read**, and every name in them is
known. -/
theorem parseNamed_of_clean {w : Review} {fields : Table Json}
    (h : ∀ e ∈ fields, Review.Clean (w.expression (some e.1) (rulePath e.1) e.2)) :
    ∃ rules, parseNamed fields = .ok rules ∧ ∀ e ∈ rules, w.Understands e.2 := by
  induction fields with
  | nil => exact ⟨[], rfl, fun e he => by cases he⟩
  | cons e rest ih =>
    obtain ⟨name, v⟩ := e
    obtain ⟨r, hr, hknown⟩ := Review.expression_clean w (some name) (rulePath name) v
      (h _ List.mem_cons_self)
    obtain ⟨rs, hrs, hrest⟩ := ih fun e he => h e (List.mem_cons_of_mem _ he)
    refine ⟨(name, r) :: rs, by rw [parseNamed, hr, hrs]; rfl, fun e he => ?_⟩
    rcases List.mem_cons.mp he with rfl | he
    · exact hknown
    · exact hrest e he

/-- The names of the checks among some rules. -/
def checkNames (rules : Table Rule) : List String :=
  (rules.filter fun e => e.2.isCheck).map (·.1)

theorem mem_checkNames {rules : Table Rule} {name : String} {k : Check}
    (h : rules.lookup name = some (.check k)) : name ∈ checkNames rules :=
  List.mem_map.mpr ⟨(name, .check k), List.mem_filter.mpr ⟨Table.mem_of_lookup h, rfl⟩, rfl⟩

/-- Registering the checks succeeds, and afterwards their names are known. -/
theorem enrolChecks_ok (rules : Table Rule) {known : List String} {a : Assembly}
    (ha : known ⊆ a.registry.names) : ∃ a', enrolChecks rules a = .ok ((), a') ∧
      known ++ checkNames rules ⊆ a'.registry.names := by
  induction rules generalizing a known with
  | nil => exact ⟨a, rfl, by simpa [checkNames] using ha⟩
  | cons e rest ih =>
    obtain ⟨name, r⟩ := e
    cases r with
    | check k =>
      have hsub : known ++ [name] ⊆ (a.registry.register name fun c => k.evaluate name c).names := by
        intro n hn
        rcases List.mem_append.mp hn with hn | hn
        · exact Registry.mem_names_register.mpr (.inl (ha hn))
        · exact Registry.mem_names_register.mpr (.inr (List.mem_singleton.mp hn))
      obtain ⟨a', hrest, hnames⟩ := ih (a := { a with registry := _ }) hsub
      refine ⟨a', Assemble.bind_eq_ok.mpr ⟨(), _, Assemble.enrol_run name k a, hrest⟩, ?_⟩
      simpa [checkNames, Rule.isCheck] using hnames
    | reference _ _ | group _ _ => exact ih ha

/-! ### What is known to the assembly -/

/-- **The assembly is prepared** for what the review has passed: the named rules have been read, they
are sound, and the names that the review knows are known. -/
structure Prepared (stops : Stop → Prop) (w : Review) (rules : Table Rule) (known : List String) :
    Prop where
  /-- The named rules are those of the review. -/
  names : rules.names = w.rules.names
  /-- They are sound. -/
  sound : Sound stops known rules
  /-- The conditions of the review are known. -/
  conditions : w.conditions ⊆ known

variable {stops : Stop → Prop} {w : Review} {rules : Table Rule} {known : List String}

/-- A name that the review knows is that of a rule, or known. -/
theorem Review.mem_of_knows {conditions : List String} (hnames : rules.names = w.rules.names)
    (hsub : w.conditions ⊆ conditions) {n : String} (h : w.knows n = true)
    (hnone : rules.lookup n = none) : n ∈ conditions := by
  have hrules : ¬w.rules.has n = true := by
    rw [Table.has_iff, ← hnames, ← Table.has_iff, Table.has, hnone]
    decide
  rcases (Bool.or_eq_true _ _).mp h with h | h
  · exact absurd h hrules
  · exact hsub (List.contains_iff_mem.mp h)

namespace Prepared

open Assemble

variable (h : Prepared stops w rules known)
include h

/-- **A list of rules** that the review passes can be assembled. -/
theorem listAt_safe {p : Path} {fields : Table Json} {key : String}
    (hc : Review.Clean (w.listAt p fields key)) : Safe stops known (listAt rules p fields key) := by
  unfold Review.listAt at hc
  unfold listAt
  cases hv : fields.lookup key with
  | none => exact Safe.pure _
  | some v =>
    rw [hv] at hc
    obtain ⟨list, hlist, hnames⟩ := Review.list_clean hc
    have hsafe : Safe stops known (assembleList rules (p.key key) list) :=
      assembleList_safe h.sound.soundAt fun _ r hr n hn =>
        Review.mem_of_knows h.names h.conditions
          (hnames n (mem_referencesOfAll.mpr ⟨r, List.mem_of_getElem? hr, hn⟩))
    simp only [hlist, ofParsed, pure_bind]
    exact hsafe

theorem allNamed_safe {names : List String} (hnames : names ⊆ rules.names) :
    Safe stops known (assembleAllNamed rules names) :=
  assembleAllNamed_safe h.sound.soundAt hnames

/-- **Clean remarks can be passed**, with no stop but over a grace window or a circle. -/
theorem passable {root : Table Json} {noted : List Remark} (hc : Review.Clean noted)
    (hgrace : GraceSafe stops root) : Passable stops w root known rules noted where
  list _ _ hsub := h.listAt_safe (hc.mono hsub)
  named := h.allNamed_safe (List.Subset.refl _)
  refuse hbad := absurd hc hbad
  missing hbad := absurd hc hbad
  grace := hgrace

end Prepared

/-- **Every grace window can be counted**: written as a number of seconds, it is at most the longest
duration of the clock. -/
def GraceFits (root : Table Json) : Prop :=
  ∀ validation blocks key block seconds, root.lookup "validation" = some (.obj validation) →
    validation.lookup "timeframe" = some (.obj blocks) → (key, .obj block) ∈ blocks →
    block.lookup "grace_window_secs" = some (.int seconds) → seconds ≤ Instant.maxDuration

/-- A count of seconds that is short enough is read as it is written, and not as a negative one. -/
theorem isDuration_of_count {seconds : Int} {n : UInt64}
    (hn : (Json.int seconds).asCount? = some n) (hfits : seconds ≤ Instant.maxDuration) :
    Instant.isDuration n.toInt64.toInt = true := by
  have hmax : Instant.maxDuration = 9223372036854775 := by decide
  rw [hmax] at hfits
  simp only [Json.asCount?] at hn
  by_cases h : (decide (0 ≤ seconds) && decide (seconds < UInt64.size)) = true
  · rw [if_pos h, Option.some.injEq] at hn
    subst hn
    have hpos : 0 ≤ seconds := by simpa using (Bool.and_eq_true_iff.mp h).1
    have hread : (UInt64.ofNat seconds.toNat).toInt64.toInt = seconds := by
      show (BitVec.ofNat 64 seconds.toNat).toInt = seconds
      rw [BitVec.toInt_ofNat', Int.bmod_eq_of_le (by omega) (by omega)]
      omega
    rw [hread, Instant.isDuration, hmax]
    exact decide_eq_true (by omega)
  · rw [if_neg h] at hn
    cases hn

/-- A grace window that is short enough is a duration. -/
theorem isDuration_writtenGrace {block : Table Json}
    (hfits : ∀ seconds, block.lookup "grace_window_secs" = some (.int seconds) →
      seconds ≤ Instant.maxDuration) :
    Instant.isDuration (writtenGrace block).toInt64.toInt = true := by
  unfold writtenGrace
  cases hn : (Json.given? block "grace_window_secs").bind Json.asCount? with
  | none => decide
  | some n =>
    obtain ⟨v, hv, hn⟩ := Option.bind_eq_some_iff.mp hn
    cases v with
    | int seconds => exact isDuration_of_count hn (hfits seconds (Json.lookup_of_given? hv))
    | null | bool _ | real _ | str _ | arr _ | obj _ => cases hn

theorem GraceFits.safe {root : Table Json} (h : GraceFits root) (stops : Stop → Prop) :
    GraceSafe stops root :=
  fun validation blocks key block hv hb hmem =>
    .inl (isDuration_writtenGrace fun seconds hs => h validation blocks key block seconds hv hb hmem hs)

/-! ### The whole configuration -/

/-- **The named rules** that the review passes can be read, and they are the bodies that the review
knows. -/
theorem namedRules_eq {w : Review} {root : Table Json} (hw : w.rules = ruleBodies root)
    (hc : Review.Clean (w.namedRules root)) : ∃ rules, namedRules root = pure rules ∧
      parseNamed w.rules = .ok rules ∧ ∀ e ∈ rules, w.Understands e.2 := by
  unfold Review.namedRules at hc
  unfold namedRules
  split
  · rename_i hgiven
    refine ⟨[], rfl, ?_, fun e he => by cases he⟩
    have hbodies : ruleBodies root = [] := by
      unfold ruleBodies
      rcases Json.given?_eq_none hgiven with h | h <;> rw [h]
    rw [hw, hbodies]
    rfl
  · rename_i fields hgiven
    have hbodies : ruleBodies root = fields := by
      unfold ruleBodies
      rw [Json.lookup_of_given? hgiven]
    simp only [hgiven] at hc
    obtain ⟨rules, hrules, hknown⟩ := parseNamed_of_clean (Review.clean_flatMap.mp hc)
    refine ⟨rules, ?_, by rw [hw, hbodies, hrules], hknown⟩
    rw [hrules]
    rfl
  · rename_i v _ hgiven
    simp only [hgiven] at hc
    exact absurd hc Review.not_clean_error

/-- **Where the remarks on circles are clean, references are well founded.** -/
theorem wellFounded_of_clean {w : Review} (hc : Review.Clean w.circleRemarks) :
    WellFounded (Refers (Review.references w.rules)) := by
  refine Refers.wellFounded (List.eq_nil_iff_forall_not_mem.mpr fun c hmem => ?_)
  obtain ⟨first, rest, rfl⟩ := List.exists_cons_of_ne_nil (circles_proper hmem)
  exact absurd List.mem_cons_self (Review.clean_flatMap.mp hc _ hmem _)

/-- Rules that the review understands are sound, without circles or where circles are allowed. -/
theorem sound_of_review {stops : Stop → Prop} {w : Review} {rules : Table Rule}
    (hparsed : parseNamed w.rules = .ok rules) (hknown : ∀ e ∈ rules, w.Understands e.2)
    (hcircles : WellFounded (Refers (Review.references w.rules)) ∨
      ∀ name p, stops (.fault (.circularReference name p))) :
    Sound stops (w.conditions ++ checkNames rules) rules where
  names name r hr n hn hnone :=
    Review.mem_of_knows (names_of_parseNamed hparsed) (List.subset_append_left _ _)
      (hknown _ (Table.mem_of_lookup hr) n hn) hnone
  checks name k hk := List.mem_append_right _ (mem_checkNames hk)
  circles := by
    rwa [references_of_parseNamed hparsed] at hcircles

/-- **The sections of a configuration** that the review passes, up to circles, can be assembled, or
they stop for a reason that is allowed: there are no circles, or circles are allowed. -/
theorem assembleSections_safe {stops : Stop → Prop} {base : Registry} {root : Table Json}
    {w : Review} (hw : w = ⟨ruleBodies root, base.names⟩)
    (hnamed : Review.Clean (w.namedRules root)) (hvalidation : Review.Clean (w.validation root))
    (hselection : Review.Clean (w.selection root)) (hgrace : GraceSafe stops root)
    (hcircles : WellFounded (Refers (Review.references (ruleBodies root))) ∨
      ∀ name p, stops (.fault (.circularReference name p))) :
    (∃ r a', assembleSections root ⟨base, #[], []⟩ = .ok (r, a')) ∨
      ∃ e, assembleSections root ⟨base, #[], []⟩ = .error e ∧ stops e := by
  subst hw
  obtain ⟨rules, hrules, hparsed, hknown⟩ := namedRules_eq rfl hnamed
  obtain ⟨a₁, henrol, ha₁⟩ := enrolChecks_ok rules (a := ⟨base, #[], []⟩) (List.Subset.refl _)
  have h : Prepared stops ⟨ruleBodies root, base.names⟩ rules (base.names ++ checkNames rules) :=
    ⟨names_of_parseNamed hparsed, sound_of_review hparsed hknown hcircles,
      List.subset_append_left _ _⟩
  have hpass := h.passable (Review.clean_append.mpr ⟨hvalidation, hselection⟩) hgrace
  exact hpass.sections_safe (by rw [hrules]; rfl) henrol ha₁ (List.subset_append_left _ _)
    (List.subset_append_right _ _)

/-- **The sections of a configuration** that the review passes can be assembled. -/
theorem assembleSections_ok {base : Registry} {root : Table Json}
    (hc : Review.Clean (Review.sections ⟨ruleBodies root, base.names⟩ root))
    (hfits : GraceFits root) :
    ∃ r a', assembleSections root ⟨base, #[], []⟩ = .ok (r, a') := by
  simp only [Review.sections, Review.clean_append] at hc
  obtain ⟨⟨⟨hnamed, hvalidation⟩, hselection⟩, hcircles⟩ := hc
  have hsafe : (∃ r a', assembleSections root ⟨base, #[], []⟩ = .ok (r, a')) ∨
      ∃ e, assembleSections root ⟨base, #[], []⟩ = .error e ∧ False :=
    assembleSections_safe rfl hnamed hvalidation hselection (hfits.safe _)
      (.inl (wellFounded_of_clean hcircles))
  rcases hsafe with hok | ⟨e, -, hnever⟩
  · exact hok
  · exact hnever.elim

/-- **What the review passes can be loaded**, over any registry: if the report on a configuration has
no error, whatever its warnings, and its grace windows can be counted, then the configuration
compiles, and loading it gives that book with the report. -/
theorem load_of_review {base : Registry} {config : Json} (hclean : (review base config).errors = [])
    (hfits : ∀ root, config = .obj root → GraceFits root) :
    ∃ b, Book.compile base config = .ok b ∧
      Book.load base config = .ok (b, review base config) := by
  have hclean' := hclean
  unfold review at hclean
  cases config with
  | obj root =>
    have hremarks := Review.clean_of_report hclean
    obtain ⟨⟨start, blocks, selection⟩, a, hok⟩ :=
      assembleSections_ok (Review.clean_append.mp hremarks).1 (hfits root rfl)
    have hcompile : Book.compile base (.obj root) = .ok
        { registry := a.registry, nodes := a.nodes, named := a.named, blocks, selection, start } :=
      bind_eq_ok.mpr ⟨_, hok, rfl⟩
    refine ⟨_, hcompile, ?_⟩
    unfold Book.load
    simp only [hclean', List.isEmpty_nil, if_true, hcompile]
    rfl
  | null | bool _ | int _ | real _ | str _ | arr _ =>
    exact absurd (Review.clean_of_report hclean) Review.not_clean_error

/-! ### A configuration that is loaded -/

/-- The rules of fifteen minutes: a named group, and a grace window of a minute. -/
def plainBlock : Table Json :=
  [("grace_window_secs", .int 60), ("long", .arr [.str "trend"])]

/-- A configuration with one named group and one timeframe. -/
def plainConfig : Table Json :=
  [("rules", .obj [("trend", .obj [("all_of", .arr [.str "rsi_bullish",
      .obj [("gt_fields", .arr [.str "ema_fast", .str "ema_slow"])]])])]),
    ("validation", .obj [("timeframe", .obj [("15m", .obj plainBlock)])])]

/-- The configuration is loaded, although the review warns that other timeframes have no rules. -/
theorem load_of_review_plain : ∃ b, Book.compile .builtin (.obj plainConfig) = .ok b ∧
    Book.load .builtin (.obj plainConfig) = .ok (b, review .builtin (.obj plainConfig)) := by
  have hclean : (review .builtin (.obj plainConfig)).errors.isEmpty = true := by decide +kernel
  refine load_of_review (List.isEmpty_iff.mp hclean) ?_
  intro root hroot validation blocks key block seconds hv hb hmem hs
  cases hroot
  have hv' : plainConfig.lookup "validation" =
      some (.obj [("timeframe", .obj [("15m", .obj plainBlock)])]) := rfl
  rw [hv', Option.some.injEq, Json.obj.injEq] at hv
  subst hv
  have hb' : List.lookup "timeframe" [("timeframe", Json.obj [("15m", .obj plainBlock)])] =
      some (.obj [("15m", .obj plainBlock)]) := rfl
  rw [hb', Option.some.injEq, Json.obj.injEq] at hb
  subst hb
  rw [List.mem_singleton, Prod.mk.injEq, Json.obj.injEq] at hmem
  rw [hmem.2] at hs
  have hs' : plainBlock.lookup "grace_window_secs" = some (.int 60) := rfl
  rw [hs', Option.some.injEq, Json.int.injEq] at hs
  rw [← hs]
  decide

end TopDown
