import TopDown.Proofs.Audit
import TopDown.Proofs.Lockstep

/-!
# Rules that nothing refers to

A rule that the review reports as unused can be deleted. This is not a matter of the lists alone: the
rule may have taken the place of a condition of its name, it may refer to other rules, which are then
made on another occasion, and the checks in it are registered among the conditions.

Both configurations are assembled in step, up to the named rules that no list has led to
(`TopDown.Proofs.Lockstep`). From there on no node is changed that a list can reach, so the two books
share all nodes below a certain place and have the same lists (`TopDown.Book.Spares`). What remains is
that the conditions of the shared leaves are the same in both, which is where plain names come in: the
text of a place leads to one rule in both configurations. The sum is `TopDown.Book.compile_withoutRule`.
-/

namespace TopDown

open Assemble

/-! ### Leaving a rule out -/

/-- The configuration without a named rule. -/
def withoutRule (name : String) : Table Json → Table Json :=
  Table.adjust "rules" (Json.onFields (Table.without [name]))

namespace Table

variable {α : Type} {t : Table α} {name : String}

theorem lookup_without_self : (t.without [name]).lookup name = none := by
  refine List.lookup_eq_none_iff.mpr fun e he => ?_
  have hne : e.1 ≠ name := by simpa using (List.mem_filter.mp he).2
  simpa using hne.symm

theorem length_without (hnodup : t.names.Nodup) (hmem : name ∈ t.names) :
    t.length = (t.without [name]).length + 1 := by
  induction t with
  | nil => cases hmem
  | cons e rest ih =>
    obtain ⟨hnew, hnodup⟩ := List.nodup_cons.mp hnodup
    rw [without] at ih ⊢
    by_cases hname : e.1 = name
    · subst hname
      have hall : ∀ e' ∈ rest, decide (e'.1 ∉ [e.1]) = true := fun e' he' => by
        have hne : e'.1 ≠ e.1 := fun heq => hnew (List.mem_map.mpr ⟨e', he', heq⟩)
        simpa using hne
      rw [List.filter_cons_of_neg (by simp), List.filter_eq_self.mpr hall, List.length_cons]
    · have hrest : name ∈ Table.names rest :=
        (List.mem_cons.mp hmem).resolve_left fun heq => hname heq.symm
      rw [List.filter_cons_of_pos (by simpa using hname), List.length_cons, List.length_cons,
        ih hnodup hrest]

theorem nodup_without (hnodup : t.names.Nodup) : (t.without [name]).names.Nodup :=
  hnodup.sublist (List.filter_sublist.map _)

end Table

theorem Json.orderedFields_iff {fields : Table Json} :
    OrderedFields fields ↔ ∀ e ∈ fields, e.2.Ordered := by
  induction fields with
  | nil => exact ⟨fun _ _ he => absurd he List.not_mem_nil, fun _ => trivial⟩
  | cons e rest ih =>
    rw [OrderedFields, ih, List.forall_mem_cons]

section Documents

variable {name : String} {root : Table Json} {rules : Table Rule}

theorem lookup_withoutRule {key : String} (hkey : key ≠ "rules") :
    (withoutRule name root).lookup key = root.lookup key := by
  rw [withoutRule, Table.lookup_adjust, if_neg hkey]

theorem lookup_rules_withoutRule : (withoutRule name root).lookup "rules" =
    (root.lookup "rules").map (Json.onFields (Table.without [name])) := by
  rw [withoutRule, Table.lookup_adjust, if_pos rfl]

theorem ruleBodies_withoutRule :
    ruleBodies (withoutRule name root) = (ruleBodies root).without [name] := by
  unfold ruleBodies
  rw [lookup_rules_withoutRule]
  cases root.lookup "rules" with
  | none => rfl
  | some v => cases v <;> rfl

/-- Leaving a rule out keeps the fields of all objects in order. -/
theorem ordered_withoutRule (h : (Json.obj root).Ordered) :
    (Json.obj (withoutRule name root)).Ordered := by
  rw [Json.Ordered] at h ⊢
  have hsame : (withoutRule name root).names = root.names := by
    rw [Table.names, withoutRule, Table.adjust, List.map_map]
    rfl
  refine ⟨by rw [Table.Ordered, hsame]; exact h.1, Json.orderedFields_iff.mpr fun e he => ?_⟩
  obtain ⟨⟨key, v⟩, hmem, rfl⟩ := List.mem_map.mp he
  have hv : v.Ordered := Json.orderedFields_iff.mp h.2 _ hmem
  dsimp only
  split
  · cases v with
    | obj fields =>
      rw [Json.Ordered] at hv
      rw [Json.onFields, Json.Ordered]
      exact ⟨hv.1.sublist (List.filter_sublist.map _),
        Json.orderedFields_iff.mpr fun e he =>
          Json.orderedFields_iff.mp hv.2 e (List.mem_filter.mp he).1⟩
    | null | bool _ | int _ | real _ | str _ | arr _ => exact hv
  · exact hv

/-- The other named rules are read as before. -/
theorem parseNamed_without {fields : Table Json} (h : parseNamed fields = .ok rules) :
    parseNamed (fields.without [name]) = .ok (rules.without [name]) := by
  induction fields generalizing rules with
  | nil =>
    cases h
    rfl
  | cons e rest ih =>
    obtain ⟨n, v⟩ := e
    obtain ⟨r, hr, h⟩ := bind_eq_ok.mp h
    obtain ⟨rs, hrs, h⟩ := bind_eq_ok.mp h
    cases h
    have hrest := ih hrs
    rw [Table.without] at hrest ⊢
    by_cases hn : n ∈ [name]
    · rw [List.filter_cons_of_neg (by simpa using hn), Table.without,
        List.filter_cons_of_neg (by simpa using hn)]
      exact hrest
    · rw [List.filter_cons_of_pos (by simpa using hn), Table.without,
        List.filter_cons_of_pos (by simpa using hn), parseNamed]
      exact bind_eq_ok.mpr ⟨r, hr, bind_eq_ok.mpr ⟨_, hrest, rfl⟩⟩

theorem namedRules_withoutRule (hmem : name ∈ (ruleBodies root).names)
    (hparsed : parseNamed (ruleBodies root) = .ok rules) :
    namedRules (withoutRule name root) = pure (rules.without [name]) := by
  have hrules : (withoutRule name root).lookup "rules" =
      (root.lookup "rules").map (Json.onFields (Table.without [name])) := lookup_rules_withoutRule
  unfold ruleBodies at hmem hparsed
  unfold namedRules Json.given?
  rw [hrules]
  cases hv : root.lookup "rules" with
  | none =>
    rw [hv] at hmem
    cases hmem
  | some v =>
    rw [hv] at hmem hparsed
    cases v with
    | obj fields =>
      simp only [Option.map_some, Json.onFields, parseNamed_without hparsed]
      rfl
    | null | bool _ | int _ | real _ | str _ | arr _ => cases hmem

end Documents

/-! ### The rules that are left -/

section Rest

variable {name : String} {rules rules' : Table Rule}

/-- A name that the remarks on the named rules avoid is not referred to in them. -/
theorem parseNamed_avoids {w : Review} {fields : Table Json} (h : parseNamed fields = .ok rules)
    (hc : ∀ e ∈ fields, Review.Avoids name (w.expression (some e.1) (rulePath e.1) e.2)) :
    ∀ e ∈ rules, name ∉ e.2.references := by
  induction fields generalizing rules with
  | nil =>
    cases h
    exact fun e he => absurd he List.not_mem_nil
  | cons e rest ih =>
    obtain ⟨n, v⟩ := e
    obtain ⟨r, hr, h⟩ := bind_eq_ok.mp h
    obtain ⟨rs, hrs, h⟩ := bind_eq_ok.mp h
    cases h
    refine List.forall_mem_cons.mpr ⟨?_, ih hrs fun e he => hc e (List.mem_cons_of_mem _ he)⟩
    exact Review.expression_avoids w (some n) _ v hr (hc _ List.mem_cons_self)

/-- **An unused rule can be done without.** -/
theorem without_of_avoids {w : Review} {root : Table Json} (hplain : Plain name)
    (hnodup : rules.names.Nodup) (hparsed : parseNamed (ruleBodies root) = .ok rules)
    (hmem : name ∈ (ruleBodies root).names) (hc : Review.Avoids name (w.namedRules root)) :
    Without name rules (rules.without [name]) where
  plain := hplain
  lookup n hn := (Table.lookup_without (by simpa using hn) rules).symm
  gone := Table.lookup_without_self
  length := Table.length_without hnodup (by rwa [names_of_parseNamed hparsed])
  avoids n r hr := by
    have hbodies : ∀ e ∈ ruleBodies root,
        Review.Avoids name (w.expression (some e.1) (rulePath e.1) e.2) := by
      unfold Review.namedRules at hc
      unfold ruleBodies at hmem ⊢
      cases hv : root.lookup "rules" with
      | none => exact fun e he => absurd he List.not_mem_nil
      | some v =>
        cases v with
        | obj fields =>
          simp only [Json.given?, hv] at hc
          exact Review.avoids_flatMap.mp hc
        | null | bool _ | int _ | real _ | str _ | arr _ =>
          exact fun e he => absurd he List.not_mem_nil
    exact parseNamed_avoids hparsed hbodies _ (Table.mem_of_lookup hr)

namespace Without

variable (h : Without name rules rules')
include h

/-- What is there without the rule is there with it. -/
theorem lookup_of_some {n : String} {r : Rule} (hr : rules'.lookup n = some r) :
    rules.lookup n = some r := by
  have hn : n ≠ name := by
    rintro rfl
    rw [h.gone] at hr
    cases hr
  rw [h.lookup n hn, hr]

/-- **The rules that are left are sound** if all of them are. -/
theorem sound {stops : Stop → Prop} {known : List String}
    (hs : Sound stops (known ++ checkNames rules) rules) :
    Sound stops (known ++ checkNames rules') rules' where
  names n r hr m hm hnone := by
    have hr' := h.lookup_of_some hr
    have hne : m ≠ name := fun heq => h.avoids n r hr' (heq ▸ hm)
    have hnone' : rules.lookup m = none := by rw [h.lookup m hne, hnone]
    rcases List.mem_append.mp (hs.names n r hr' m hm hnone') with hmem | hmem
    · exact List.mem_append_left _ hmem
    · -- the name of a check is that of a rule
      obtain ⟨e, he, rfl⟩ := List.mem_map.mp hmem
      have hrule : rules.has e.1 = true :=
        Table.has_iff.mpr (List.mem_map_of_mem (List.mem_filter.mp he).1)
      rw [Table.has, hnone'] at hrule
      cases hrule
  checks n k hk := by
    refine List.mem_append_right _ (List.mem_map.mpr ⟨(n, .check k), ?_, rfl⟩)
    exact List.mem_filter.mpr ⟨Table.mem_of_lookup hk, rfl⟩
  circles := by
    refine hs.circles.imp_left fun hwf => Subrelation.wf ?_ hwf
    rintro next n ⟨hmem, hhas⟩
    rw [Rule.table, Table.lookup_mapValues] at hmem
    rw [Table.has, Rule.table, Table.lookup_mapValues, Option.isSome_map] at hhas
    obtain ⟨r, hr⟩ := Option.isSome_iff_exists.mp hhas
    refine ⟨?_, ?_⟩
    · rw [Rule.table, Table.lookup_mapValues]
      cases hn : rules'.lookup n with
      | none =>
        rw [hn] at hmem
        cases hmem
      | some r' =>
        rw [hn] at hmem
        rwa [h.lookup_of_some hn]
    · rw [Table.has, Rule.table, Table.lookup_mapValues, h.lookup_of_some hr]
      rfl

/-- **The two assemblies begin in step**, when the named checks have been registered. -/
theorem inStep {base : Registry} {known : List String} {a a' : Assembly}
    (hnodup : rules.names.Nodup) (hnodup' : rules'.names.Nodup)
    (hchecks : enrolChecks rules ⟨base, #[], []⟩ = .ok ((), a))
    (hchecks' : enrolChecks rules' ⟨base, #[], []⟩ = .ok ((), a'))
    (hknown : known ⊆ a'.registry.names) : InStep name known a a' := by
  obtain ⟨hnodes, hnamed, hnew, hold⟩ := enrolChecks_eq_ok hnodup hchecks
  obtain ⟨hnodes', hnamed', hnew', hold'⟩ := enrolChecks_eq_ok hnodup' hchecks'
  refine ⟨by rw [hnodes, hnodes'], by rw [hnamed, hnamed'], fun id place threshold hid => ?_,
    fun n hn hmem => ?_, hknown⟩
  · rw [hnodes] at hid
    cases hid
  · rw [← Registry.find?_isSome] at hmem ⊢
    by_cases hcheck : ∃ k, rules.lookup n = some (.check k)
    · obtain ⟨k, hk⟩ := hcheck
      rw [hnew' n k (by rw [← h.lookup n hn, hk])]
      rfl
    · rw [hold n fun k hk => hcheck ⟨k, hk⟩] at hmem
      rwa [hold' n fun k hk => hcheck ⟨k, by rw [h.lookup n hn, hk]⟩]

end Without

end Rest

/-! ### Conditions -/

section Conditions

variable {name : String} {rules rules' : Table Rule} {root root' : Table Json}
  (h : Without name rules rules') (hroot : ∀ key ≠ "rules", root'.lookup key = root.lookup key)
include hroot

theorem rulesAt_of_lookup {p : Path} (hp : ListPlace p) : rulesAt root' p = rulesAt root p := by
  have hat : (Json.obj root').at? p = (Json.obj root).at? p := by
    obtain ⟨key, rest, rfl, hkey⟩ : ∃ key rest, p = .key key :: rest ∧ key ≠ "rules" := by
      cases hp with
      | block | filters | selector _ | minute | groups => exact ⟨_, _, rfl, by decide⟩
    show ((root'.lookup key).bind fun w => w.at? rest) = (root.lookup key).bind fun w => w.at? rest
    rw [hroot key hkey]
  rw [rulesAt, rulesAt, hat]

include h

/-- What occurs without the rule occurs with it. -/
theorem Occurs.of_without {p : Path} {r : Rule} (hocc : Occurs root' rules' p r) :
    Occurs root rules p r := by
  induction hocc with
  | whole hwhole =>
    cases hwhole with
    | item hp hrs hr => exact .whole (.item hp (by rwa [← rulesAt_of_lookup hroot hp]) hr)
    | body hr => exact .whole (.body (h.lookup_of_some hr))
  | member _ hr ih => exact .member ih hr

/-- **A name other than that of the rule has one condition** in the registries of both books. -/
theorem Without.find?_eq {base r r' : Registry} (hbook : PlainBook base rules)
    (hr : Enrolled base root rules r) (hr' : Enrolled base root' rules' r') {n : String}
    (hn : n ≠ name) {k k' : Condition} (hk : r.find? n = some k) (hk' : r'.find? n = some k') :
    k = k' := by
  by_cases hcheck : ∃ check, rules.lookup n = some (.check check)
  · obtain ⟨check, hcheck⟩ := hcheck
    rw [hr.checks n check hcheck] at hk
    rw [hr'.checks n check (by rw [← h.lookup n hn, hcheck])] at hk'
    exact Option.some.inj (hk.symm.trans hk')
  · have hno : ∀ check, rules.lookup n ≠ some (.check check) := fun check hc => hcheck ⟨check, hc⟩
    have hno' : ∀ check, rules'.lookup n ≠ some (.check check) := h.lookup n hn ▸ hno
    rcases hr.origin n k hno hk with hold | ⟨p, check, hocc, rfl, rfl⟩
    · rw [hr'.kept n k hno' hold] at hk'
      exact Option.some.inj hk'
    · -- the text of a place is not the name of a condition, so both books have it from that place
      rcases hr'.origin _ k' hno' hk' with hold' | ⟨p', check', hocc', heq, rfl⟩
      · rw [hbook.find?_render hocc] at hold'
        cases hold'
      · obtain ⟨rfl, hsame⟩ := hocc.eq_of_render hbook.rules (hocc'.of_without h hroot) heq
        cases hsame
        rfl

end Conditions

/-! ### Books that share their lists -/

/-- **The second book does without a rule**: it has the same lists, the nodes that a list can reach are
the same but for the places of their conditions, and no leaf among them has the name of the rule. -/
structure Book.Spares (name : String) (shared : Nat) (b b' : Book) : Prop where
  /-- The timeframe on which a cascade starts. -/
  start : b.start = b'.start
  /-- The rules of the timeframes. -/
  blocks : b.blocks = b'.blocks
  /-- The rules that choose the timeframe to enter on. -/
  selection : b.selection = b'.selection
  /-- The lists hold places of shared nodes. -/
  lists : ∀ id ∈ b.ids, id < shared
  /-- The shared nodes are nodes of the first book. -/
  size : shared ≤ b.nodes.size
  /-- They are the same in both books. -/
  nodes : ∀ id < shared, (b.nodes[id]?).map Node.bare = (b'.nodes[id]?).map Node.bare
  /-- They do not have the name of the rule. -/
  free : ∀ id < shared, ∀ place threshold, b.nodes[id]? ≠ some (.leaf name place threshold)

section Compile

variable {base : Registry} {root : Table Json} {b : Book} {name : String}

/-- The other named rules are made without changing a former node. -/
theorem assembleAllNamed_former {rules : Table Rule} {names : List String} {a a' : Assembly}
    (h : assembleAllNamed rules names a = .ok ((), a')) :
    a.nodes.size ≤ a'.nodes.size ∧ ∀ id < a.nodes.size, a'.nodes[id]? = a.nodes[id]? := by
  obtain ⟨paths, hadv⟩ := assembleAllNamed_charted (Charted.refl rules a) h []
  exact ⟨by rw [hadv.charted.size]; exact Nat.le_add_right _ _, hadv.charted.nodes⟩

/-- **Without a rule that is not looked up the configuration still compiles**, to a book that does
without it. -/
theorem Book.compile_spares (hordered : (Json.obj root).Ordered) (hplain : Plain name)
    (hmem : name ∈ (ruleBodies root).names)
    (hclean : Review.Clean (Review.namedRules ⟨ruleBodies root, base.names⟩ root))
    (havoids : Review.Avoids name (Review.sections ⟨ruleBodies root, base.names⟩ root))
    (h : Book.compile base (.obj root) = .ok b) :
    ∃ b' shared, Book.compile base (.obj (withoutRule name root)) = .ok b' ∧
      b.Spares name shared b' := by
  obtain ⟨rules, a₁, a₂, a₃, a₄, hparsed, hchecks, hvalidation, hselection, hall, -, hnodes, -⟩ :=
    Book.compile_cases h
  have hnodup : rules.names.Nodup := by
    rw [names_of_parseNamed hparsed, ruleBodies_eq]
    exact (Json.ordered_fieldsAt hordered _).nodup
  simp only [Review.sections, Review.avoids_append] at havoids
  obtain ⟨⟨⟨hnamedAvoids, hvalidationAvoids⟩, hselectionAvoids⟩, -⟩ := havoids
  have hwithout := without_of_avoids hplain hnodup hparsed hmem hnamedAvoids
  -- the sections, in step
  obtain ⟨a₁', hchecks', hknown⟩ := enrolChecks_ok (rules.without [name]) (a := ⟨base, #[], []⟩)
    (List.Subset.refl _)
  have hstep₁ := hwithout.inStep hnodup (Table.nodup_without hnodup) hchecks hchecks' hknown
  have hroot : ∀ key ≠ "rules", (withoutRule name root).lookup key = root.lookup key :=
    fun _ hkey => lookup_withoutRule hkey
  obtain ⟨a₂', hvalidation', hstep₂⟩ :=
    validation_follows hwithout hroot hvalidationAvoids a₁ a₁' _ a₂ hstep₁ hvalidation
  obtain ⟨a₃', hselection', hstep₃⟩ :=
    selection_follows hwithout hroot hselectionAvoids a₂ a₂' _ a₃ hstep₂ hselection
  -- the named rules that no list has led to
  obtain ⟨rules₀, -, hparsed₀, hunderstood⟩ := namedRules_eq rfl hclean
  obtain rfl : rules₀ = rules := Except.ok.inj (hparsed₀.symm.trans hparsed)
  have hsound : Sound (fun _ => False) (base.names ++ checkNames rules₀) rules₀ :=
    sound_of_review hparsed₀ hunderstood (.inl (Book.compile_grounded h))
  have hprepared : Prepared (fun _ => False) ⟨(ruleBodies root).without [name], base.names⟩
      (rules₀.without [name]) (base.names ++ checkNames (rules₀.without [name])) :=
    ⟨names_of_parseNamed (parseNamed_without hparsed), hwithout.sound hsound,
      List.subset_append_left _ _⟩
  obtain ⟨_, a₄', hall', -⟩ := (hprepared.allNamed_safe (List.Subset.refl _) a₃'
    hstep₃.known).resolve_right fun ⟨_, _, hnever⟩ => hnever
  obtain ⟨hsize, hformer⟩ := assembleAllNamed_former hall
  obtain ⟨-, hformer'⟩ := assembleAllNamed_former hall'
  refine ⟨⟨a₄'.registry, a₄'.nodes, a₄'.named, b.blocks, b.selection, b.start⟩, a₃.nodes.size,
    ?_, rfl, rfl, rfl, ?_, ?_, ?_, ?_⟩
  · refine TopDown.bind_eq_ok.mpr ⟨((b.start, b.blocks, b.selection), a₄'), ?_, rfl⟩
    unfold assembleSections
    rw [namedRules_withoutRule hmem hparsed, pure_bind]
    exact (Assemble.bind_run_ok hchecks').trans <| (Assemble.bind_run_ok hvalidation').trans <|
      (Assemble.bind_run_ok hselection').trans <| (Assemble.bind_run_ok hall').trans rfl
  · obtain ⟨ha₁, -⟩ := enrolChecks_coherent (Assembly.coherent_start base rules₀) hchecks
    obtain ⟨ha₂, -, hblockIds⟩ := (keeps_validation keeps_coherent_list root).run ha₁ hvalidation
    obtain ⟨-, hgrows, hselectionIds⟩ :=
      (keeps_selection keeps_coherent_list root).run ha₂ hselection
    intro id hid
    exact (List.mem_append.mp hid).elim (hblockIds.mono hgrows id) (hselectionIds id)
  · exact hnodes ▸ hsize
  · intro id hid
    have hid' : id < a₃'.nodes.size := hstep₃.size_eq ▸ hid
    have hsame := congrArg (·[id]?) hstep₃.nodes
    simp only [Array.getElem?_map] at hsame
    rw [hnodes, hformer id hid, hformer' id hid', hsame]
  · intro id hid place threshold
    rw [hnodes, hformer id hid]
    exact hstep₃.free id place threshold

end Compile

/-! ### Decisions -/

section Decisions

variable {b b' : Book} {input : SelectionInput} {choice : Choice} {ground : Ground}
  {way : List Station} (hselection : b.selection = b'.selection)
include hselection

theorem Book.groupsAt_of_selection : b.groupsAt = b'.groupsAt := by
  funext tf
  rw [groupsAt, groupsAt, hselection]

/-- Books with the same selection have the same rules in each group of it. -/
theorem Station.rules_of_selection (s : Station) : s.rules b = s.rules b' := by
  have hflat : b.flatGroups = b'.flatGroups := by rw [Book.flatGroups, Book.flatGroups, hselection]
  cases s <;> simp only [rules, hselection, Book.groupsAt_of_selection hselection, hflat]

variable (hresults : ∀ s : Station, s.results b input = s.results b' input)
include hresults

/-- The way that is open in one book is open in the other. -/
theorem Book.Chooses.of_results (h : b.Chooses input choice ground way) :
    b'.Chooses input choice ground way := by
  have hpass (s : Station) : s.Passes b input ↔ s.Passes b' input :=
    Station.passes_congr (hresults s)
  cases h with
  | filtersFailed hfilters => exact .filtersFailed (mt (hpass _).mpr hfilters)
  | stay hfilters hlayout horder hbefore hstay =>
    exact .stay ((hpass _).mp hfilters) (hselection ▸ hlayout) horder
      (fun t ht => mt (hpass _).mpr (hbefore t ht)) ((hpass _).mp hstay)
  | minute hfilters hlayout horder hallowed hminute =>
    exact .minute ((hpass _).mp hfilters) (hselection ▸ hlayout)
      (fun t ht => mt (hpass _).mpr (horder t ht)) (hselection ▸ hallowed) ((hpass _).mp hminute)
  | fallback hfilters hlayout horder hminute =>
    rw [hselection] at hlayout hminute ⊢
    exact .fallback ((hpass _).mp hfilters) hlayout (fun t ht => mt (hpass _).mpr (horder t ht))
      fun ha => mt (hpass _).mpr (hminute ha)
  | noRules hfilters hlayout hempty =>
    rw [hselection] at hlayout ⊢
    exact .noRules ((hpass _).mp hfilters) hlayout hempty
  | stayFlat hfilters hlayout hrules hstay =>
    exact .stayFlat ((hpass _).mp hfilters) (hselection ▸ hlayout) hrules ((hpass _).mp hstay)
  | minuteFlat hfilters hlayout hrules hstay hdrop hforbid hallowed hminute =>
    exact .minuteFlat ((hpass _).mp hfilters) (hselection ▸ hlayout) hrules
      (mt (hpass _).mpr hstay) ((hpass _).mp hdrop) (mt (hpass _).mpr hforbid)
      (hselection ▸ hallowed) ((hpass _).mp hminute)
  | drop hfilters hlayout hrules hstay hdrop hforbid hminute =>
    rw [hselection] at hlayout hminute ⊢
    exact .drop ((hpass _).mp hfilters) hlayout hrules (mt (hpass _).mpr hstay)
      ((hpass _).mp hdrop) (mt (hpass _).mpr hforbid) fun ha => mt (hpass _).mpr (hminute ha)
  | forbid hfilters hlayout hrules hstay hforbid =>
    exact .forbid ((hpass _).mp hfilters) (hselection ▸ hlayout) hrules (mt (hpass _).mpr hstay)
      ((hpass _).mp hforbid)
  | fallbackFlat hfilters hlayout hrules hstay hdrop hforbid =>
    rw [hselection] at hlayout ⊢
    exact .fallbackFlat ((hpass _).mp hfilters) hlayout hrules (mt (hpass _).mpr hstay)
      (mt (hpass _).mpr hdrop) (mt (hpass _).mpr hforbid)

/-- **Two books decide alike** if they have the same selection and its groups have the same
verdicts. -/
theorem Book.select_of_results : b.select input = b'.select input := by
  obtain ⟨choice, ground, way, h⟩ := b.exists_chooses input
  obtain ⟨hchoice, hground, hgroups⟩ := h.select
  obtain ⟨hchoice', hground', hgroups'⟩ := (h.of_results hselection hresults).select
  have hvisit (kept : Table GroupRecord) :
      Weigh.visit b input way kept = Weigh.visit b' input way kept := by
    have henter : Station.enter b input = Station.enter b' input := by
      funext kept s
      rw [Station.enter, Station.enter, Station.rules_of_selection hselection,
        Station.record_congr (hresults s)]
    rw [Weigh.visit, Weigh.visit, henter]
  have hsame : (b.select input).groups = (b'.select input).groups := by
    rw [hgroups, hgroups', hvisit]
  obtain ⟨rfl, rfl⟩ := And.intro hchoice hground
  show Decision.mk _ _ _ _ _ = Decision.mk _ _ _ _ _
  congr 1
  · exact hchoice'.symm
  · exact hground'.symm

end Decisions

/-! ### Lists that say the same -/

namespace Book.Spares

variable {name : String} {shared : Nat} {b b' : Book}

/-- The shared nodes are their own twins. -/
theorem twins (h : b.Spares name shared b') (hb : b.Coherent) :
    b.Twins b' fun id id' => id = id' ∧ id < shared where
  unique := ⟨fun _ _ _ h h' => h.1.trans h'.1.symm, fun _ _ _ h h' => h.1.symm.trans h'.1⟩
  node := by
    rintro id _ ⟨rfl, hid⟩
    obtain ⟨node, hnode⟩ : ∃ node, b.nodes[id]? = some node :=
      ⟨_, Array.getElem?_eq_getElem (Nat.lt_of_lt_of_le hid h.size)⟩
    have hbare := h.nodes id hid
    rw [hnode, Option.map_some, eq_comm, Option.map_eq_some_iff] at hbare
    obtain ⟨node', hnode', hbare⟩ := hbare
    refine ⟨node, node', hnode, hnode', ?_⟩
    cases node with
    | leaf n place threshold =>
      cases node' with
      | leaf _ _ _ =>
        cases hbare
        exact .leaf
      | group _ _ _ => cases hbare
    | group q label ids =>
      cases node' with
      | leaf _ _ _ => cases hbare
      | group _ _ _ =>
        cases hbare
        exact .group (List.forall₂_same.mpr fun m hm =>
          ⟨rfl, Nat.lt_trans (hb.members id q label ids hnode m hm) hid⟩)

/-- What the lists can reach is shared. -/
theorem lt_of_reaches (h : b.Spares name shared b') (hb : b.Coherent) {roots : List Node.Id}
    (hroots : roots ⊆ b.ids) {id : Node.Id} (hid : b.Reaches roots id) : id < shared := by
  induction hid with
  | root hmem => exact h.lists _ (hroots hmem)
  | @member id m node _ hnode hm ih =>
    cases node with
    | leaf _ _ _ => cases hm
    | group q label ids => exact Nat.lt_trans (hb.members id q label ids hnode m hm) ih

/-- No list gives a threshold to the name of the rule. -/
theorem ne_of_gives (h : b.Spares name shared b') (hb : b.Coherent) {roots : List Node.Id}
    (hroots : roots ⊆ b.ids) {n : String} {threshold : Option Float}
    (hgives : b.Gives roots n threshold) : n ≠ name := by
  obtain ⟨id, place, hreached, hleaf⟩ := hgives
  rintro rfl
  exact h.free id (h.lt_of_reaches hb hroots hreached) place threshold hleaf

variable (h : b.Spares name shared b') (hb : b.Coherent) (hb' : b'.Coherent)
  (hsame : ∀ n ≠ name, ∀ k k', b.registry.find? n = some k → b'.registry.find? n = some k' → k = k')
  {roots : List Node.Id} (hroots : roots ⊆ b.ids)
include h hb hroots

theorem thresholds_eq : b.thresholds roots = b'.thresholds roots :=
  (h.twins hb).thresholds (List.forall₂_same.mpr fun id hid => ⟨rfl, h.lists id (hroots hid)⟩)

include hb' hsame

/-- **Every list has the same verdicts under the same labels**, in any context. -/
theorem evaluateList_eq (c : Context) : b.evaluateList c roots = b'.evaluateList c roots := by
  rw [Book.evaluateList, Book.evaluateList, h.thresholds_eq hb hroots]
  refine (h.twins hb).evaluateAll hb hb'
    (List.forall₂_same.mpr fun id hid => ⟨rfl, h.lists id (hroots hid)⟩) ?_
  intro n threshold hgives k k' hk hk'
  rw [hsame n (h.ne_of_gives hb hroots hgives) k k' hk hk']

omit hroots in
/-- **Every group of the selection has the same verdicts** in the context that it is checked in. -/
theorem results_eq (s : Station) (input : SelectionInput) :
    s.results b input = s.results b' input := by
  have hcontext : s.context b input = s.context b' input := by
    have hshared (tf : Timeframe) : b.thresholds ((b.groupsAt tf).elim [] Groups.all) =
        b'.thresholds ((b'.groupsAt tf).elim [] Groups.all) := by
      rw [← Book.groupsAt_of_selection h.selection]
      refine h.thresholds_eq hb fun id hid => ?_
      have hstay : (b.groupsAt tf).elim [] (·.stay) ⊆ b.ids := (Station.stay tf).rules_subset
      have hdrop : (b.groupsAt tf).elim [] (·.drop) ⊆ b.ids := (Station.drop tf).rules_subset
      have hforbid : (b.groupsAt tf).elim [] (·.forbid) ⊆ b.ids := (Station.forbid tf).rules_subset
      cases hg : b.groupsAt tf with
      | none =>
        rw [hg] at hid
        cases hid
      | some g =>
        rw [hg] at hid hstay hdrop hforbid
        rcases List.mem_append.mp hid with hid | hid
        · exact (List.mem_append.mp hid).elim (hstay ·) (hdrop ·)
        · exact hforbid hid
    cases s with
    | stay tf | drop tf | forbid tf => rw [Station.context, Station.context, hshared]
    | filters | minute | stayFlat | dropFlat | forbidFlat => rfl
  rw [Station.results, Station.results, hcontext, ← Station.rules_of_selection h.selection]
  exact h.evaluateList_eq hb hb' hsame s.rules_subset _

end Book.Spares

/-! ### Unused rules -/

section Unused

variable {base : Registry} {root : Table Json} {b : Book} {name : String}

/-- **An unused rule can be deleted**, over any registry whose names are plain. -/
theorem Book.compile_withoutRule_of_plain (hbase : ∀ n ∈ base.names, Plain n)
    (hordered : (Json.obj root).Ordered) (hnames : ∀ n ∈ (ruleBodies root).names, Plain n)
    (herrors : (review base (.obj root)).errors = [])
    (hunused : ∃ f ∈ (review base (.obj root)).warnings, f.flaw = .unused name)
    (h : Book.compile base (.obj root) = .ok b) :
    ∃ b' shared, Book.compile base (.obj (withoutRule name root)) = .ok b' ∧
      b.Spares name shared b' ∧ b.Coherent ∧ b'.Coherent ∧ ∀ n ≠ name, ∀ k k',
        b.registry.find? n = some k → b'.registry.find? n = some k' → k = k' := by
  obtain ⟨f, hf, hflaw⟩ := hunused
  obtain ⟨hmem, havoids⟩ := Review.avoids_of_unused hf hflaw
  have hclean := Review.clean_of_report herrors
  simp only [Review.remarks, Review.sections, Review.clean_append] at hclean
  obtain ⟨b', shared, h', hspares⟩ :=
    Book.compile_spares hordered (hnames name hmem) hmem hclean.1.1.1.1 havoids h
  obtain ⟨rules, hparsed, hbook, henrolled⟩ := Book.compile_enrolled hbase hordered hnames h
  have hnames' : ∀ n ∈ (ruleBodies (withoutRule name root)).names, Plain n := by
    rw [ruleBodies_withoutRule]
    exact fun n hn => hnames n ((List.filter_sublist.map _).subset hn)
  obtain ⟨rules', hparsed', -, henrolled'⟩ :=
    Book.compile_enrolled hbase (ordered_withoutRule hordered) hnames' h'
  rw [ruleBodies_withoutRule, parseNamed_without hparsed] at hparsed'
  cases hparsed'
  have hnodup : rules.names.Nodup := by
    rw [names_of_parseNamed hparsed, ruleBodies_eq]
    exact (Json.ordered_fieldsAt hordered _).nodup
  simp only [Review.sections, Review.avoids_append] at havoids
  have hwithout := without_of_avoids (hnames name hmem) hnodup hparsed hmem havoids.1.1.1
  exact ⟨b', shared, h', hspares, Book.compile_coherent h, Book.compile_coherent h',
    fun n hn k k' hk hk' => hwithout.find?_eq (fun _ hkey => lookup_withoutRule hkey) hbook
      henrolled henrolled' hn hk hk'⟩

/-- **An unused rule can be deleted.** If the names of rules are plain, the review of a configuration
has no error, and it warns that a rule is unused, then the configuration without that rule compiles
whenever the configuration does. Both books have the same lists, every list has the same verdicts
under the same labels in every context, and so all decisions are the same. -/
theorem Book.compile_withoutRule (hordered : (Json.obj root).Ordered)
    (hnames : ∀ n ∈ (ruleBodies root).names, Plain n)
    (herrors : (review .builtin (.obj root)).errors = [])
    (hunused : ∃ f ∈ (review .builtin (.obj root)).warnings, f.flaw = .unused name)
    (h : Book.compile .builtin (.obj root) = .ok b) :
    ∃ b', Book.compile .builtin (.obj (withoutRule name root)) = .ok b' ∧
      b.start = b'.start ∧ b.blocks = b'.blocks ∧ b.selection = b'.selection ∧
      (∀ c tf block, b.blocks tf = some block →
        b.evaluateList c block.long = b'.evaluateList c block.long ∧
          b.evaluateList c block.short = b'.evaluateList c block.short) ∧
      (∀ c (s : Station), b.evaluateList c (s.rules b) = b'.evaluateList c (s.rules b')) ∧
      ∀ input, b.select input = b'.select input := by
  obtain ⟨b', shared, h', hspares, hb, hb', hsame⟩ :=
    Book.compile_withoutRule_of_plain plain_builtin hordered hnames herrors hunused h
  have hlist {roots : List Node.Id} (hroots : roots ⊆ b.ids) (c : Context) :
      b.evaluateList c roots = b'.evaluateList c roots :=
    hspares.evaluateList_eq hb hb' hsame hroots c
  refine ⟨b', h', hspares.start, hspares.blocks, hspares.selection, fun c tf block hblock => ?_,
    fun c s => ?_, fun input => ?_⟩
  · have hids : block.ids ⊆ b.ids := fun id hid =>
      List.mem_append_left _ (ByTimeframe.mem_ids.mpr ⟨tf, block, hblock, hid⟩)
    exact ⟨hlist (fun _ hid => hids (List.mem_append_left _ hid)) c,
      hlist (fun _ hid => hids (List.mem_append_right _ hid)) c⟩
  · rw [← Station.rules_of_selection hspares.selection]
    exact hlist s.rules_subset c
  · exact Book.select_of_results hspares.selection fun s => hspares.results_eq hb hb' hsame s input

/-- The rule that a finding says is unused. -/
def Finding.unused? (f : Finding) : Option String :=
  match f.flaw with
  | .unused name => some name
  | _ => none

theorem Finding.flaw_of_unused? {f : Finding} (h : f.unused? = some name) : f.flaw = .unused name := by
  unfold unused? at h
  split at h
  · rename_i hflaw
    rw [hflaw, Option.some.inj h]
  · cases h

/-- A configuration with an unused rule, which has the name of a condition, refers to another rule and
has a check of its own. -/
def sparedConfig : Table Json :=
  [("execution_selector", .obj [("stay_on_15m_if", .arr [.str "trend"])]),
    ("rules", .obj [
      ("rsi_bullish", .obj [("any_of", .arr [.str "trend",
        .obj [("gt_fields", .arr [.str "rsi", .str "adx"])]])]),
      ("trend", .obj [("all_of", .arr [.obj [("adx_trending", .int 30)],
        .obj [("gt_fields", .arr [.str "ema_fast", .str "ema_slow"])]])])]),
    ("validation", .obj [("timeframe", .obj [("4h", .obj [
      ("long", .arr [.str "trend", .str "adx_trending"])])])])]

/-- The rule can be deleted. -/
theorem Book.compile_withoutRule_spared : ∃ b b',
    Book.compile .builtin (.obj sparedConfig) = .ok b ∧
    Book.compile .builtin (.obj (withoutRule "rsi_bullish" sparedConfig)) = .ok b' ∧
    ∀ input, b.select input = b'.select input := by
  have hcompiles : (Book.compile .builtin (.obj sparedConfig)).isOk = true := by decide +kernel
  have hordered : (Json.obj sparedConfig).Ordered := by decide +kernel
  have hclean : (review .builtin (.obj sparedConfig)).errors.isEmpty = true := by decide +kernel
  have hwarned : (review .builtin (.obj sparedConfig)).warnings.findSome? Finding.unused? =
      some "rsi_bullish" := by decide +kernel
  obtain ⟨f, hf, hflaw⟩ := List.exists_of_findSome?_eq_some hwarned
  cases h : Book.compile .builtin (.obj sparedConfig) with
  | error e =>
    rw [h] at hcompiles
    cases hcompiles
  | ok b =>
    obtain ⟨b', h', -, -, -, -, -, hselect⟩ := Book.compile_withoutRule hordered (by decide)
      (List.isEmpty_iff.mp hclean) ⟨f, hf, Finding.flaw_of_unused? hflaw⟩ h
    exact ⟨b, b', rfl, h', hselect⟩

end Unused

end TopDown
