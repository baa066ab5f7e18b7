import TopDown.Proofs.Sections

/-!
# Which lists are read

A configuration can list rules that the assembly never looks at: the groups of the flat layout beside
a layout by timeframe, or mandatory filters on the outside when the section of the choice has its own.
`TopDown.ReadAt` gives the places of the lists that are read. Two keys may spell one timeframe; both
are read then, although a book keeps the lists of the later one only.

To say something about all lists that are read, whatever becomes of them, we let the assembly run past
them and note what it has done (`TopDown.Assemble.Visits`): a statement is kept, the assembly grows, and
some places are settled. The sections settle every place that is read (`TopDown.visits_validation`,
`TopDown.visits_selection`), if making the list of a place settles that place.
-/

namespace TopDown

open Assemble

/-! ### Places -/

/-- **The places of the lists that are read.** -/
inductive ReadAt (root : Table Json) : Path → Prop
  /-- The rules of a timeframe for one side. -/
  | block {key side : String} (hkey : key ∈ Table.names ((Json.obj root).fieldsAt blocksPlace))
      (htf : (Timeframe.parse? key).isSome = true) (hside : side ∈ ["long", "short"]) :
      ReadAt root ((blocksPlace.key key).key side)
  /-- The rules none of which may fail. -/
  | filters : ReadAt root (filtersPlace root)
  /-- The rules that let one minute be chosen. -/
  | minute : ReadAt root [.key selectorKey, .key "allow_1m_only_for", .key "conditions"]
  /-- The groups of the flat layout, where there is none by timeframe. -/
  | flat {group : String}
      (hflat : ((Json.obj root).fieldsAt [.key selectorKey]).lookup "per_timeframe" = none)
      (hgroup : group ∈ Review.flatKeys) : ReadAt root (Path.key [.key selectorKey] group)
  /-- The groups of a timeframe. -/
  | groups {key group : String}
      (hkey : key ∈ Table.names ((Json.obj root).fieldsAt groupsPlace))
      (htf : (Timeframe.parse? key).isSome = true) (hgroup : group ∈ Review.groupKeys) :
      ReadAt root ((groupsPlace.key key).key group)

theorem ReadAt.listPlace {root : Table Json} {p : Path} (h : ReadAt root p) : ListPlace p := by
  cases h with
  | block _ htf hside => exact .block htf hside
  | filters => exact listPlace_filters root
  | minute => exact .minute
  | flat _ hgroup => exact .selector (List.mem_cons_of_mem _ hgroup)
  | groups _ htf hgroup => exact .groups htf hgroup

/-! ### Coming past places -/

/-- **What has been done**: the statement is kept, the assembly has grown, and places are settled. -/
structure Visited (J : Assembly → Prop) (D : Path → Assembly → Prop) (ps : Path → Prop)
    (a a' : Assembly) : Prop where
  /-- The statement is kept. -/
  kept : J a'
  /-- The assembly has grown. -/
  grows : Grows a a'
  /-- The places are settled. -/
  settled : ∀ p, ps p → D p a'

/-- The places below a key, of the lists under some other keys. -/
def Under (p : Path) (keys : List String) (q : Path) : Prop :=
  ∃ key ∈ keys, q = p.key key

section Sections

variable {J : Assembly → Prop} {D : Path → Assembly → Prop} {root : Table Json} {rules : Table Rule}
  {a a' a'' : Assembly} {ps ps' : Path → Prop}

theorem Visited.mono (h : Visited J D ps a a') (hps : ∀ p, ps' p → ps p) : Visited J D ps' a a' :=
  ⟨h.kept, h.grows, fun p hp => h.settled p (hps p hp)⟩

/-- Where nothing is done, no place is settled. -/
theorem Visited.refl (ha : J a) : Visited J D (fun _ => False) a a :=
  ⟨ha, .refl a, fun _ hp => hp.elim⟩

variable (hD : ∀ p {a a'}, Grows a a' → D p a → D p a')
include hD

/-- What is settled stays settled. -/
theorem Visited.trans (h : Visited J D ps a a') (h' : Visited J D ps' a' a'') :
    Visited J D (fun p => ps p ∨ ps' p) a a'' :=
  ⟨h'.kept, h.grows.trans h'.grows, fun p hp =>
    hp.elim (fun hp => hD p h'.grows (h.settled p hp)) (h'.settled p)⟩

variable (hlist : ∀ {p rs ids a a'}, ReadAt root p → rulesAt root p = some rs → J a →
  assembleList rules p rs a = .ok (ids, a') → Visited J D (· = p) a a')

omit hD in
include hlist in
theorem listAt_visited {p : Path} {key : String} {fields : Table Json} {ids : List Node.Id}
    (hfields : (Json.obj root).fieldsAt p = fields) (hread : ReadAt root (p.key key)) (ha : J a)
    (h : listAt rules p fields key a = .ok (ids, a')) : Visited J D (· = p.key key) a a' := by
  obtain ⟨rs, hrs, hlisted⟩ := listAt_eq_ok hfields h
  exact hlist hread hrs ha hlisted

include hlist

/-- **The rules of a timeframe**: both lists are read. -/
theorem block_visited {key : String}
    (hkey : key ∈ Table.names ((Json.obj root).fieldsAt blocksPlace))
    (htf : (Timeframe.parse? key).isSome = true) {v : Json}
    (hv : (Json.obj root).at? (blocksPlace.key key) = some v) {block : Block} (ha : J a)
    (h : assembleBlock rules (blocksPlace.key key) v a = .ok (block, a')) :
    Visited J D (Under (blocksPlace.key key) ["long", "short"]) a a' := by
  cases v with
  | obj fields =>
    have hfields : (Json.obj root).fieldsAt (blocksPlace.key key) = fields := by
      rw [Json.fieldsAt, hv]
    have hread : ∀ side ∈ ["long", "short"], ReadAt root ((blocksPlace.key key).key side) :=
      fun side hside => .block hkey htf hside
    obtain ⟨minBars, a₁, hmin, h₁⟩ := Assemble.bind_eq_ok.mp h
    obtain ⟨grace, a₂, hgrace, h₂⟩ := Assemble.bind_eq_ok.mp h₁
    obtain ⟨long, a₃, hlong, h₃⟩ := Assemble.bind_eq_ok.mp h₂
    obtain ⟨short, a₄, hshort, h₄⟩ := Assemble.bind_eq_ok.mp h₃
    obtain rfl := (settles_minBarsOf _ _).still hmin
    obtain rfl := (settles_graceOf _ _).still hgrace
    have hlong := listAt_visited hlist hfields (hread "long" (by decide)) ha hlong
    have hshort := listAt_visited hlist hfields (hread "short" (by decide)) hlong.kept hshort
    have hboth := hlong.trans hD hshort
    split at h₄
    · obtain ⟨rfl, rfl⟩ := pure_eq_ok.mp h₄
      refine hboth.mono ?_
      rintro q ⟨side, hside, rfl⟩
      rcases List.mem_pair.mp hside with rfl | rfl
      · exact .inl rfl
      · exact .inr rfl
    · cases h₄
  | null | bool _ | int _ | real _ | str _ | arr _ => exact absurd h fail_ne_ok

/-- **The rules of all timeframes**, also of those that another key spells again. -/
theorem blocks_visited {fields : Table Json}
    (hfields : ∀ e ∈ fields, e.1 ∈ Table.names ((Json.obj root).fieldsAt blocksPlace) ∧
      (Json.obj root).at? (blocksPlace.key e.1) = some e.2)
    {former m : ByTimeframe Block} (ha : J a)
    (h : assembleBlocks rules blocksPlace former fields a = .ok (m, a')) :
    Visited J D (fun q => ∃ key ∈ Table.names fields,
      Under (blocksPlace.key key) ["long", "short"] q) a a' := by
  induction fields generalizing a former with
  | nil =>
    obtain ⟨rfl, rfl⟩ := pure_eq_ok.mp h
    exact (Visited.refl ha).mono fun q ⟨key, hkey, _⟩ => absurd hkey List.not_mem_nil
  | cons e rest ih =>
    obtain ⟨key, v⟩ := e
    obtain ⟨tf, a₁, htf, h₁⟩ := Assemble.bind_eq_ok.mp h
    obtain ⟨block, a₂, hblock, h₂⟩ := Assemble.bind_eq_ok.mp h₁
    obtain ⟨hspells, rfl⟩ := timeframe_eq_ok htf
    obtain ⟨hkey, hv⟩ := hfields _ List.mem_cons_self
    have hfirst := block_visited hD hlist hkey (Option.isSome_iff_exists.mpr ⟨tf, hspells⟩) hv ha
      hblock
    have hrest := ih (fun e he => hfields e (List.mem_cons_of_mem _ he)) hfirst.kept h₂
    refine (hfirst.trans hD hrest).mono ?_
    rintro q ⟨key', hkey', hq⟩
    rcases List.mem_cons.mp hkey' with rfl | hkey'
    · exact .inl hq
    · exact .inr ⟨key', hkey', hq⟩

/-- **The section of the timeframes** settles the lists of its blocks. -/
theorem validation_visited (hordered : (Json.obj root).Ordered) {start : Timeframe}
    {m : ByTimeframe Block} (ha : J a)
    (h : assembleValidation rules root a = .ok ((start, m), a')) :
    Visited J D (fun q => ∃ key ∈ Table.names ((Json.obj root).fieldsAt blocksPlace),
      Under (blocksPlace.key key) ["long", "short"] q) a a' := by
  obtain ⟨fields, blocks, hv, hblocks, hm⟩ := assembleValidation_cases h
  have hsection : (Json.obj root).fieldsAt [.key "validation"] = fields :=
    Json.fieldsAt_of_lookup (p := []) hv
  have hfields : (Json.obj root).fieldsAt blocksPlace = blocks :=
    Json.fieldsAt_of_lookup (p := [.key "validation"]) (by rw [hsection, hblocks])
  have hvisited := blocks_visited hD hlist (fun e he => ⟨hfields ▸ List.mem_map_of_mem he,
    at?_of_mem_fieldsAt hordered hfields e he⟩) ha hm
  rwa [hfields]

/-! ### The choice of the timeframe to enter on -/

omit hD in
theorem filters_visited {ids : List Node.Id} (ha : J a)
    (h : assembleFilters rules root ((Json.obj root).fieldsAt [.key selectorKey]) a =
      .ok (ids, a')) : Visited J D (· = filtersPlace root) a a' := by
  obtain ⟨rs, hrs, hlisted⟩ := assembleFilters_eq_ok h
  exact hlist .filters hrs ha hlisted

omit hD in
theorem allowance_visited {enabled : Bool} {ids : List Node.Id} (ha : J a)
    (h : assembleAllowance rules ((Json.obj root).fieldsAt [.key selectorKey]) a =
      .ok ((enabled, ids), a')) :
    Visited J D (· = [.key selectorKey, .key "allow_1m_only_for", .key "conditions"]) a a' := by
  unfold assembleAllowance at h
  cases hg : Json.given? ((Json.obj root).fieldsAt [.key selectorKey]) "allow_1m_only_for" with
  | none =>
    rw [hg] at h
    cases h
    -- without a section there is nothing in it, and the list of nothing is empty
    have hempty : (Json.obj root).fieldsAt [.key selectorKey, .key "allow_1m_only_for"] = [] :=
      Json.fieldsAt_of_not_given (p := [.key selectorKey]) hg
    have hnone : (Json.obj root).at?
        [.key selectorKey, .key "allow_1m_only_for", .key "conditions"] = none := by
      have hat := Json.at?_key (.obj root) [.key selectorKey, .key "allow_1m_only_for"] "conditions"
      rwa [hempty] at hat
    have hrs : rulesAt root [.key selectorKey, .key "allow_1m_only_for", .key "conditions"] =
        some [] := by
      rw [rulesAt, hnone]
    exact hlist .minute hrs ha rfl
  | some v =>
    rw [hg] at h
    cases v with
    | obj fields =>
      obtain ⟨ids', a₁, hids, h₁⟩ := Assemble.bind_eq_ok.mp h
      cases h₁
      have hfields : (Json.obj root).fieldsAt [.key selectorKey, .key "allow_1m_only_for"] =
          fields := Json.fieldsAt_of_lookup (p := [.key selectorKey]) (Json.lookup_of_given? hg)
      exact listAt_visited hlist (p := [.key selectorKey, .key "allow_1m_only_for"]) hfields .minute
        ha hids
    | null | bool _ | int _ | real _ | str _ | arr _ => exact absurd h fail_ne_ok

/-- The three lists of a group are read one after the other. -/
theorem groups_visited {p : Path} {stay drop forbid : String}
    (hread : ∀ key ∈ [stay, drop, forbid], ReadAt root (p.key key)) {fields : Table Json}
    (hfields : (Json.obj root).fieldsAt p = fields) {ids₁ ids₂ ids₃ : List Node.Id}
    {a₁ a₂ : Assembly} (ha : J a) (hstay : listAt rules p fields stay a = .ok (ids₁, a₁))
    (hdrop : listAt rules p fields drop a₁ = .ok (ids₂, a₂))
    (hforbid : listAt rules p fields forbid a₂ = .ok (ids₃, a')) :
    Visited J D (Under p [stay, drop, forbid]) a a' := by
  have hstay := listAt_visited hlist hfields (hread stay (by simp)) ha hstay
  have hdrop := listAt_visited hlist hfields (hread drop (by simp)) hstay.kept hdrop
  have hforbid := listAt_visited hlist hfields (hread forbid (by simp)) hdrop.kept hforbid
  refine (hstay.trans hD (hdrop.trans hD hforbid)).mono ?_
  rintro q ⟨key, hkey, rfl⟩
  simp only [List.mem_cons, List.not_mem_nil, or_false] at hkey
  rcases hkey with rfl | rfl | rfl
  · exact .inl rfl
  · exact .inr (.inl rfl)
  · exact .inr (.inr rfl)

/-- **The groups of all timeframes**, also of those that another key spells again. -/
theorem byTimeframe_visited {fields : Table Json}
    (hfields : ∀ e ∈ fields, e.1 ∈ Table.names ((Json.obj root).fieldsAt groupsPlace) ∧
      (Json.obj root).at? (groupsPlace.key e.1) = some e.2)
    {former m : ByTimeframe Groups} (ha : J a)
    (h : assembleGroups rules groupsPlace former fields a = .ok (m, a')) :
    Visited J D (fun q => ∃ key ∈ Table.names fields,
      Under (groupsPlace.key key) Review.groupKeys q) a a' := by
  induction fields generalizing a former with
  | nil =>
    obtain ⟨rfl, rfl⟩ := pure_eq_ok.mp h
    exact (Visited.refl ha).mono fun q ⟨key, hkey, _⟩ => absurd hkey List.not_mem_nil
  | cons e rest ih =>
    obtain ⟨key, v⟩ := e
    obtain ⟨tf, a₁, htf, h₁⟩ := Assemble.bind_eq_ok.mp h
    obtain ⟨hspells, rfl⟩ := timeframe_eq_ok htf
    obtain ⟨hkey, hv⟩ := hfields _ List.mem_cons_self
    cases v with
    | obj block =>
      obtain ⟨stay, a₂, hstay, h₂⟩ := Assemble.bind_eq_ok.mp h₁
      obtain ⟨drop, a₃, hdrop, h₃⟩ := Assemble.bind_eq_ok.mp h₂
      obtain ⟨forbid, a₄, hforbid, h₄⟩ := Assemble.bind_eq_ok.mp h₃
      have hread : ∀ group ∈ Review.groupKeys, ReadAt root ((groupsPlace.key key).key group) :=
        fun group hgroup => .groups hkey (Option.isSome_iff_exists.mpr ⟨tf, hspells⟩) hgroup
      have hblock : (Json.obj root).fieldsAt (groupsPlace.key key) = block := by
        rw [Json.fieldsAt, hv]
      have hfirst := groups_visited hD hlist hread hblock ha hstay hdrop hforbid
      have hrest := ih (fun e he => hfields e (List.mem_cons_of_mem _ he)) hfirst.kept h₄
      refine (hfirst.trans hD hrest).mono ?_
      rintro q ⟨key', hkey', hq⟩
      rcases List.mem_cons.mp hkey' with rfl | hkey'
      · exact .inl hq
      · exact .inr ⟨key', hkey', hq⟩
    | null | bool _ | int _ | real _ | str _ | arr _ => exact absurd h₁ fail_ne_ok

/-- **The layout** settles the lists of its groups, flat or by timeframe. -/
theorem layout_visited (hordered : (Json.obj root).Ordered) {layout : Layout} (ha : J a)
    (h : assembleLayout rules ((Json.obj root).fieldsAt [.key selectorKey]) a =
      .ok (layout, a')) :
    Visited J D (fun q =>
      (((Json.obj root).fieldsAt [.key selectorKey]).lookup "per_timeframe" = none ∧
        Under [.key selectorKey] Review.flatKeys q) ∨
      ∃ key ∈ Table.names ((Json.obj root).fieldsAt groupsPlace),
        Under (groupsPlace.key key) Review.groupKeys q) a a' := by
  unfold assembleLayout at h
  cases hv : ((Json.obj root).fieldsAt [.key selectorKey]).lookup "per_timeframe" with
  | none =>
    rw [hv] at h
    obtain ⟨stay, a₁, hstay, h₁⟩ := Assemble.bind_eq_ok.mp h
    obtain ⟨drop, a₂, hdrop, h₂⟩ := Assemble.bind_eq_ok.mp h₁
    obtain ⟨forbid, a₃, hforbid, h₃⟩ := Assemble.bind_eq_ok.mp h₂
    cases h₃
    refine (groups_visited hD hlist (p := [.key selectorKey])
      (fun key hkey => .flat hv hkey) rfl ha hstay hdrop hforbid).mono ?_
    rintro q (⟨-, hq⟩ | ⟨key, hkey, -⟩)
    · exact hq
    · -- without a layout by timeframe there are no groups of timeframes
      have hempty : (Json.obj root).fieldsAt groupsPlace = [] :=
        Json.fieldsAt_of_not_given (p := [.key selectorKey]) (by rw [Json.given?, hv])
      rw [hempty] at hkey
      cases hkey
  | some v =>
    rw [hv] at h
    cases v with
    | obj blocks =>
      obtain ⟨order, a₁, horder, h₁⟩ := Assemble.bind_eq_ok.mp h
      obtain ⟨groups, a₂, hgroups, h₂⟩ := Assemble.bind_eq_ok.mp h₁
      cases h₂
      obtain rfl := (settles_orderOf _).still horder
      have hfields : (Json.obj root).fieldsAt groupsPlace = blocks :=
        Json.fieldsAt_of_lookup (p := [.key selectorKey]) hv
      have hvisited := byTimeframe_visited hD hlist (fun e he => ⟨hfields ▸ List.mem_map_of_mem he,
        at?_of_mem_fieldsAt hordered hfields e he⟩) ha hgroups
      refine hvisited.mono ?_
      rintro q (⟨hnone, -⟩ | hq)
      · cases hnone
      · rwa [hfields] at hq
    | null | bool _ | int _ | real _ | str _ | arr _ => exact absurd h fail_ne_ok

/-- **The section of the choice** settles the filters, the rules for one minute and the layout. -/
theorem selection_visited (hordered : (Json.obj root).Ordered) {s : Selection} (ha : J a)
    (h : assembleSelection rules root a = .ok (s, a')) :
    Visited J D (fun q => q = filtersPlace root ∨
      q = [.key selectorKey, .key "allow_1m_only_for", .key "conditions"] ∨
      (((Json.obj root).fieldsAt [.key selectorKey]).lookup "per_timeframe" = none ∧
        Under [.key selectorKey] Review.flatKeys q) ∨
      ∃ key ∈ Table.names ((Json.obj root).fieldsAt groupsPlace),
        Under (groupsPlace.key key) Review.groupKeys q) a a' := by
  obtain ⟨a₁, a₂, hfilters, hminute, -, hlayout⟩ := assembleSelection_cases h
  have hfilters := filters_visited hlist ha hfilters
  have hminute := allowance_visited hlist hfilters.kept hminute
  have hlayout := layout_visited hD hlist hordered hminute.kept hlayout
  exact hfilters.trans hD (hminute.trans hD hlayout)

/-- **Both sections settle every list that is read.** -/
theorem sections_visited (hordered : (Json.obj root).Ordered) {start : Timeframe}
    {m : ByTimeframe Block} {s : Selection} (ha : J a)
    (hvalidation : assembleValidation rules root a = .ok ((start, m), a'))
    (hselection : assembleSelection rules root a' = .ok (s, a'')) :
    Visited J D (ReadAt root) a a'' := by
  have hblocks := validation_visited hD hlist hordered ha hvalidation
  refine (hblocks.trans hD (selection_visited hD hlist hordered hblocks.kept hselection)).mono ?_
  rintro _ (⟨hkey, -, hside⟩ | _ | _ | ⟨hflat, hgroup⟩ | ⟨hkey, -, hgroup⟩)
  · exact .inl ⟨_, hkey, _, hside, rfl⟩
  · exact .inr (.inl rfl)
  · exact .inr (.inr (.inl rfl))
  · exact .inr (.inr (.inr (.inl ⟨hflat, _, hgroup, rfl⟩)))
  · exact .inr (.inr (.inr (.inr ⟨_, hkey, _, hgroup, rfl⟩)))

end Sections

end TopDown
