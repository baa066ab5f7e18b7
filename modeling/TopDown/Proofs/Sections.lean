import TopDown.Proofs.Document
import TopDown.Proofs.Making

/-!
# Where the lists of a book come from

A book has lists of rules for each timeframe and for the choice of the timeframe to enter on. Each of
them comes from a list of the configuration, and `TopDown.EveryList` says something of every list of a
book together with the place it comes from. Of several keys that spell one timeframe the last counts
(`TopDown.spelling?`), and the rules none of which may fail stand in the section of the choice or
beside it (`TopDown.filtersPlace`).

The assembly takes the sections one after the other. For each section it is shown that the invariant
is kept and that the nodes of its lists spell the rules that stand there (`TopDown.ListSpelt`).
-/

namespace TopDown

/-! ### Maps that are read from fields -/

/-- The key that counts for a timeframe: of several that spell it, the last. -/
def spelling? (fields : Table Json) (tf : Timeframe) : Option String :=
  fields.names.findRev? fun key => Timeframe.parse? key = some tf

theorem spelling?_cons (key : String) (v : Json) (rest : Table Json) (tf : Timeframe) :
    spelling? ((key, v) :: rest) tf =
      (spelling? rest tf).or (if Timeframe.parse? key = some tf then some key else none) := by
  simp only [spelling?, Table.names, List.map_cons, List.findRev?]
  cases (rest.map (·.1)).findRev? fun key => decide (Timeframe.parse? key = some tf) with
  | some key' => rfl
  | none =>
    by_cases h : Timeframe.parse? key = some tf <;> simp [h]

/-- **The map is read from the fields**: each timeframe that they spell has an entry, of which
something is said with the key that counts, and the other timeframes are as they were. -/
structure ByKeys {α : Type} (fields : Table Json) (R : String → α → Prop)
    (former m : ByTimeframe α) : Prop where
  /-- Timeframes that are spelt. -/
  spelt : ∀ tf key, spelling? fields tf = some key → ∃ x, m tf = some x ∧ R key x
  /-- Timeframes that are not. -/
  unspelt : ∀ tf, spelling? fields tf = none → m tf = former tf

namespace ByKeys

variable {α : Type} {R R' : String → α → Prop} {former m : ByTimeframe α} {fields rest : Table Json}

theorem nil (R : String → α → Prop) (m : ByTimeframe α) : ByKeys [] R m m where
  spelt _ _ h := by cases h
  unspelt _ _ := rfl

/-- A later key that spells the same timeframe takes the place of this one. -/
theorem cons {key : String} {v : Json} {tf : Timeframe} {x : α}
    (hkey : Timeframe.parse? key = some tf) (hx : R key x)
    (h : ByKeys rest R (former.set tf x) m) : ByKeys ((key, v) :: rest) R former m where
  spelt tf' key' hs := by
    rw [spelling?_cons, Option.or_eq_some_iff] at hs
    rcases hs with hs | ⟨hnone, hs⟩
    · exact h.spelt tf' key' hs
    · split at hs
      · rename_i htf
        rw [hkey, Option.some.injEq] at htf
        rw [Option.some.injEq] at hs
        subst htf hs
        refine ⟨x, ?_, hx⟩
        rw [h.unspelt tf hnone, ByTimeframe.set, if_pos rfl]
      · cases hs
  unspelt tf' hs := by
    rw [spelling?_cons, Option.or_eq_none_iff] at hs
    obtain ⟨hnone, hs⟩ := hs
    have hne : tf' ≠ tf := by
      intro htf
      rw [htf, hkey, if_pos rfl] at hs
      cases hs
    rw [h.unspelt tf' hnone, ByTimeframe.set, if_neg hne]

theorem imp (hR : ∀ key x, R key x → R' key x) (h : ByKeys fields R former m) :
    ByKeys fields R' former m where
  spelt tf key hs := by
    obtain ⟨x, hx, hRx⟩ := h.spelt tf key hs
    exact ⟨x, hx, hR key x hRx⟩
  unspelt := h.unspelt

end ByKeys

/-! ### The lists of a book -/

/-- The place of the rules of the timeframes. -/
def blocksPlace : Path :=
  [.key "validation", .key "timeframe"]

/-- The place of the groups of the timeframes. -/
def groupsPlace : Path :=
  [.key selectorKey, .key "per_timeframe"]

/-- The place of the rules none of which may fail. -/
def filtersPlace (root : Table Json) : Path :=
  if ((Json.obj root).fieldsAt [.key selectorKey]).has "filters_mandatory" then
    [.key selectorKey, .key "filters_mandatory"]
  else [.key "filters_mandatory"]

/-- Both lists of the rules of a timeframe. -/
structure Block.EveryList (L : Path → List Node.Id → Prop) (p : Path) (b : Block) : Prop where
  /-- The rules for buying. -/
  long : L (p.key "long") b.long
  /-- The rules for selling. -/
  short : L (p.key "short") b.short

/-- All lists of a group, under the three keys. -/
structure Groups.EveryList (L : Path → List Node.Id → Prop) (p : Path) (stay drop forbid : String)
    (g : Groups) : Prop where
  /-- The rules to stay. -/
  stay : L (p.key stay) g.stay
  /-- The rules for going down. -/
  drop : L (p.key drop) g.drop
  /-- The rules against going down. -/
  forbid : L (p.key forbid) g.forbid

/-- All lists of a layout. -/
def Layout.EveryList (L : Path → List Node.Id → Prop) (root : Table Json) : Layout → Prop
  | .byTimeframe _ groups =>
    ByKeys ((Json.obj root).fieldsAt groupsPlace)
      (fun key g => g.EveryList L (groupsPlace.key key) "stay_on_if" "drop_to_lower_if_any"
        "forbid_drop_to_lower_if_any") ByTimeframe.empty groups
  | .flat g =>
    g.EveryList L [.key selectorKey] "stay_on_15m_if" "drop_to_5m_if_any" "forbid_drop_to_5m_if_any"

/-- **Every list of the selection**, with the place it comes from. -/
structure Selection.EveryList (L : Path → List Node.Id → Prop) (root : Table Json) (s : Selection) :
    Prop where
  /-- The rules none of which may fail. -/
  filters : L (filtersPlace root) s.filters
  /-- The rules that let one minute be chosen. -/
  minute : L [.key selectorKey, .key "allow_1m_only_for", .key "conditions"] s.minuteRules
  /-- The groups. -/
  layout : s.layout.EveryList L root

/-- **Every list of a book**, with the place it comes from. -/
structure EveryList (L : Path → List Node.Id → Prop) (root : Table Json)
    (blocks : ByTimeframe Block) (s : Selection) : Prop where
  /-- The rules of the timeframes. -/
  blocks : ByKeys ((Json.obj root).fieldsAt blocksPlace)
    (fun key b => b.EveryList L (blocksPlace.key key)) ByTimeframe.empty blocks
  /-- The lists of the selection. -/
  selection : s.EveryList L root

section Imp

variable {L L' : Path → List Node.Id → Prop} (hL : ∀ p ids, L p ids → L' p ids)
include hL

theorem Block.EveryList.imp {p : Path} {b : Block} (h : b.EveryList L p) : b.EveryList L' p :=
  ⟨hL _ _ h.long, hL _ _ h.short⟩

theorem Groups.EveryList.imp {p : Path} {stay drop forbid : String} {g : Groups}
    (h : g.EveryList L p stay drop forbid) : g.EveryList L' p stay drop forbid :=
  ⟨hL _ _ h.stay, hL _ _ h.drop, hL _ _ h.forbid⟩

theorem Layout.EveryList.imp {root : Table Json} {layout : Layout}
    (h : layout.EveryList L root) : layout.EveryList L' root := by
  cases layout with
  | byTimeframe order groups => exact ByKeys.imp (fun key g hg => hg.imp hL) h
  | flat g => exact Groups.EveryList.imp hL h

theorem EveryList.imp {root : Table Json} {blocks : ByTimeframe Block} {s : Selection}
    (h : EveryList L root blocks s) : EveryList L' root blocks s where
  blocks := h.blocks.imp fun _ _ hb => hb.imp hL
  selection := ⟨hL _ _ h.selection.filters, hL _ _ h.selection.minute, h.selection.layout.imp hL⟩

end Imp

/-! ### The rules of the timeframes -/

open Assemble

variable {root : Table Json} {rules : Table Rule} {P : Path → Rule → Prop} {I : Assembly → Prop}
  {a a' : Assembly}

/-- **The nodes spell the rules** that are listed at the place. -/
def ListSpelt (root : Table Json) (rules : Table Rule) (a : Assembly) (p : Path)
    (ids : List Node.Id) : Prop :=
  ListPlace p ∧ ∃ rs, rulesAt root p = some rs ∧ SpellsAll a rules p 0 rs ids

theorem ListSpelt.mono (hg : Grows a a') (p : Path) (ids : List Node.Id)
    (h : ListSpelt root rules a p ids) : ListSpelt root rules a' p ids := by
  obtain ⟨hp, rs, hrs, hall⟩ := h
  exact ⟨hp, rs, hrs, hall.mono hg⟩

/-- Where nothing stands, no nodes spell it. -/
theorem ListSpelt.absent {p : Path} (hp : ListPlace p) (h : (Json.obj root).at? p = none)
    (rules : Table Rule) (a : Assembly) : ListSpelt root rules a p [] :=
  ⟨hp, [], by rw [rulesAt, h], rfl, fun j r id hr => by cases hr⟩

/-- A list that is asked for under a key is made of the rules that stand there. -/
theorem listAt_eq_ok {p : Path} {key : String} {fields : Table Json}
    (hfields : (Json.obj root).fieldsAt p = fields) {ids : List Node.Id}
    (h : listAt rules p fields key a = .ok (ids, a')) :
    ∃ rs, rulesAt root (p.key key) = some rs ∧
      assembleList rules (p.key key) rs a = .ok (ids, a') := by
  unfold listAt at h
  rw [← hfields, ← Json.at?_key] at h
  rw [rulesAt]
  cases hv : (Json.obj root).at? (p.key key) with
  | none =>
    rw [hv] at h
    exact ⟨[], rfl, h⟩
  | some v =>
    rw [hv] at h
    obtain ⟨rs, a₁, hread, hlist⟩ := Assemble.bind_eq_ok.mp h
    obtain ⟨hparsed, rfl⟩ := ofParsed_eq_ok hread
    exact ⟨rs, toOption_eq_some.mpr hparsed, hlist⟩

/-- **A list under a key** becomes nodes that spell it. -/
theorem listAt_upheld (hI : Upholds root rules P I) (ha : Holding I rules a) {p : Path}
    {key : String} (hp : ListPlace (p.key key)) {fields : Table Json}
    (hfields : (Json.obj root).fieldsAt p = fields) {ids : List Node.Id}
    (h : listAt rules p fields key a = .ok (ids, a')) :
    Upheld I rules a a' ∧ ListSpelt root rules a' (p.key key) ids := by
  obtain ⟨rs, hrs, hlist⟩ := listAt_eq_ok hfields h
  obtain ⟨hkept, hall⟩ := hI.list hp hrs ha hlist
  exact ⟨hkept, hp, rs, hrs, hall⟩

/-- **The rules of a timeframe** become nodes that spell them. -/
theorem assembleBlock_upheld (hI : Upholds root rules P I) (ha : Holding I rules a)
    {key : String} (hkey : (Timeframe.parse? key).isSome = true) {v : Json}
    (hv : (Json.obj root).at? (blocksPlace.key key) = some v) {block : Block}
    (h : assembleBlock rules (blocksPlace.key key) v a = .ok (block, a')) :
    Upheld I rules a a' ∧
      block.EveryList (ListSpelt root rules a') (blocksPlace.key key) := by
  unfold assembleBlock at h
  cases v with
  | obj fields =>
    have hfields : (Json.obj root).fieldsAt (blocksPlace.key key) = fields := by
      rw [Json.fieldsAt, hv]
    obtain ⟨minBars, a₁, hmin, h₁⟩ := Assemble.bind_eq_ok.mp h
    obtain ⟨grace, a₂, hgrace, h₂⟩ := Assemble.bind_eq_ok.mp h₁
    obtain ⟨long, a₃, hlong, h₃⟩ := Assemble.bind_eq_ok.mp h₂
    obtain ⟨short, a₄, hshort, h₄⟩ := Assemble.bind_eq_ok.mp h₃
    obtain rfl := (settles_minBarsOf _ _).still hmin
    obtain rfl := (settles_graceOf _ _).still hgrace
    -- the bounds are read first and leave the assembly as it is
    have hplace : ∀ side ∈ ["long", "short"], ListPlace ((blocksPlace.key key).key side) :=
      fun side hside => .block hkey hside
    obtain ⟨hkept, hlong⟩ := listAt_upheld hI ha (hplace "long" (by decide)) hfields hlong
    obtain ⟨hkept', hshort⟩ :=
      listAt_upheld hI hkept.holding (hplace "short" (by decide)) hfields hshort
    split at h₄
    · obtain ⟨rfl, rfl⟩ := pure_eq_ok.mp h₄
      exact ⟨hkept.trans hkept', hlong.mono hkept'.grows, hshort⟩
    · cases h₄
  | null | bool _ | int _ | real _ | str _ | arr _ => exact absurd h fail_ne_ok

/-- **The rules of all timeframes** become nodes that spell them. -/
theorem assembleBlocks_upheld (hI : Upholds root rules P I) {fields : Table Json}
    (hfields : ∀ e ∈ fields, (Json.obj root).at? (blocksPlace.key e.1) = some e.2)
    (ha : Holding I rules a) {former m : ByTimeframe Block}
    (h : assembleBlocks rules blocksPlace former fields a = .ok (m, a')) :
    Upheld I rules a a' ∧
      ByKeys fields (fun key b => b.EveryList (ListSpelt root rules a') (blocksPlace.key key))
        former m := by
  induction fields generalizing a former with
  | nil =>
    obtain ⟨rfl, rfl⟩ := pure_eq_ok.mp h
    exact ⟨.refl ha, .nil _ _⟩
  | cons e rest ih =>
    obtain ⟨key, v⟩ := e
    obtain ⟨tf, a₁, htf, h₁⟩ := Assemble.bind_eq_ok.mp h
    obtain ⟨block, a₂, hblock, h₂⟩ := Assemble.bind_eq_ok.mp h₁
    obtain ⟨hkey, rfl⟩ := timeframe_eq_ok htf
    have hsome : (Timeframe.parse? key).isSome = true := Option.isSome_iff_exists.mpr ⟨tf, hkey⟩
    obtain ⟨hkept, hblock⟩ :=
      assembleBlock_upheld hI ha hsome (hfields _ List.mem_cons_self) hblock
    -- the rest of the assembly leaves these nodes as they are
    obtain ⟨hkept', hrest⟩ := ih (fun e he => hfields e (List.mem_cons_of_mem _ he)) hkept.holding h₂
    exact ⟨hkept.trans hkept', .cons hkey (hblock.imp (ListSpelt.mono hkept'.grows)) hrest⟩

/-- **All blocks that are assembled** are made of the values of their keys, which spell timeframes, and
each timeframe has the block of the key that counts. -/
theorem assembleBlocks_each {p : Path} {fields : Table Json} {R : String → Json → Block → Prop}
    (hR : ∀ key v block a a', assembleBlock rules (p.key key) v a = .ok (block, a') → R key v block)
    {former m : ByTimeframe Block} (h : assembleBlocks rules p former fields a = .ok (m, a')) :
    (∀ e ∈ fields, (Timeframe.parse? e.1).isSome = true ∧ ∃ block, R e.1 e.2 block) ∧
      ByKeys fields (fun key block => ∃ v, (key, v) ∈ fields ∧ R key v block) former m := by
  induction fields generalizing a former with
  | nil =>
    obtain ⟨rfl, -⟩ := pure_eq_ok.mp h
    exact ⟨fun e he => (List.not_mem_nil he).elim, .nil _ _⟩
  | cons e rest ih =>
    obtain ⟨key, v⟩ := e
    obtain ⟨tf, a₁, htf, h₁⟩ := Assemble.bind_eq_ok.mp h
    obtain ⟨block, a₂, hblock, h₂⟩ := Assemble.bind_eq_ok.mp h₁
    obtain ⟨hkey, -⟩ := timeframe_eq_ok htf
    have hmade := hR _ _ _ _ _ hblock
    obtain ⟨hrest, hkeys⟩ := ih h₂
    refine ⟨fun e he => ?_, .cons hkey ⟨v, List.mem_cons_self, hmade⟩ (hkeys.imp ?_)⟩
    · rcases List.mem_cons.mp he with rfl | he
      · exact ⟨Option.isSome_iff_exists.mpr ⟨tf, hkey⟩, block, hmade⟩
      · exact hrest e he
    · rintro key' block' ⟨v', hmem, hmade'⟩
      exact ⟨v', List.mem_cons_of_mem _ hmem, hmade'⟩

/-- The entries of an object stand at the places below it. -/
theorem at?_of_mem_fieldsAt (hordered : (Json.obj root).Ordered) {p : Path} {fields : Table Json}
    (hfields : (Json.obj root).fieldsAt p = fields) :
    ∀ e ∈ fields, (Json.obj root).at? (p.key e.1) = some e.2 := by
  intro e he
  have hnodup := (Json.ordered_fieldsAt hordered p).nodup
  rw [hfields] at hnodup
  rw [Json.at?_key, hfields]
  exact Table.lookup_of_mem hnodup he

/-- The section of the timeframes leads to the rules of all timeframes. -/
theorem assembleValidation_cases {start : Timeframe} {m : ByTimeframe Block}
    (h : assembleValidation rules root a = .ok ((start, m), a')) :
    ∃ fields blocks, root.lookup "validation" = some (.obj fields) ∧
      fields.lookup "timeframe" = some (.obj blocks) ∧
      assembleBlocks rules blocksPlace .empty blocks a = .ok (m, a') := by
  unfold assembleValidation at h
  cases hv : root.lookup "validation" with
  | none =>
    rw [hv] at h
    exact absurd h fail_ne_ok
  | some v =>
    rw [hv] at h
    cases v with
    | obj fields =>
      obtain ⟨start', a₁, hstart, h₁⟩ := Assemble.bind_eq_ok.mp h
      obtain rfl := (settles_startOf _).still hstart
      cases hb : fields.lookup "timeframe" with
      | none =>
        rw [hb] at h₁
        exact absurd h₁ fail_ne_ok
      | some w =>
        rw [hb] at h₁
        cases w with
        | obj blocks =>
          obtain ⟨m', a₂, hm, h₂⟩ := Assemble.bind_eq_ok.mp h₁
          cases h₂
          exact ⟨fields, blocks, rfl, hb, hm⟩
        | null | bool _ | int _ | real _ | str _ | arr _ => exact absurd h₁ fail_ne_ok
    | null | bool _ | int _ | real _ | str _ | arr _ => exact absurd h fail_ne_ok

/-- **The section of the timeframes** becomes nodes that spell it. -/
theorem assembleValidation_upheld (hordered : (Json.obj root).Ordered)
    (hI : Upholds root rules P I) (ha : Holding I rules a) {start : Timeframe}
    {m : ByTimeframe Block} (h : assembleValidation rules root a = .ok ((start, m), a')) :
    Upheld I rules a a' ∧ ByKeys ((Json.obj root).fieldsAt blocksPlace)
      (fun key b => b.EveryList (ListSpelt root rules a') (blocksPlace.key key)) .empty m := by
  obtain ⟨fields, blocks, hv, hblocks, hm⟩ := assembleValidation_cases h
  have hsection : (Json.obj root).fieldsAt [.key "validation"] = fields :=
    Json.fieldsAt_of_lookup (p := []) hv
  have hfields : (Json.obj root).fieldsAt blocksPlace = blocks :=
    Json.fieldsAt_of_lookup (p := [.key "validation"]) (by rw [hsection, hblocks])
  rw [hfields]
  exact assembleBlocks_upheld hI (at?_of_mem_fieldsAt hordered hfields) ha hm

/-! ### The choice of the timeframe to enter on -/

/-- The section of the choice, and its fields. -/
theorem selectorOf_eq_ok {selector : Table Json} (h : selectorOf root a = .ok (selector, a')) :
    (Json.obj root).fieldsAt [.key selectorKey] = selector ∧ a' = a := by
  unfold selectorOf at h
  cases hg : Json.given? root selectorKey with
  | none =>
    rw [hg] at h
    obtain ⟨rfl, rfl⟩ := pure_eq_ok.mp h
    exact ⟨Json.fieldsAt_of_not_given (p := []) hg, rfl⟩
  | some v =>
    rw [hg] at h
    cases v with
    | obj fields =>
      obtain ⟨rfl, rfl⟩ := pure_eq_ok.mp h
      exact ⟨Json.fieldsAt_of_lookup (p := []) (Json.lookup_of_given? hg), rfl⟩
    | null | bool _ | int _ | real _ | str _ | arr _ => exact absurd h fail_ne_ok

/-- **Three lists of a group** become nodes that spell them, one after the other. -/
theorem groups_upheld (hI : Upholds root rules P I) (ha : Holding I rules a) {p : Path}
    {stay drop forbid : String} (hp : ∀ key ∈ [stay, drop, forbid], ListPlace (p.key key))
    {fields : Table Json} (hfields : (Json.obj root).fieldsAt p = fields) {g : Groups}
    {a₁ a₂ : Assembly} (hstay : listAt rules p fields stay a = .ok (g.stay, a₁))
    (hdrop : listAt rules p fields drop a₁ = .ok (g.drop, a₂))
    (hforbid : listAt rules p fields forbid a₂ = .ok (g.forbid, a')) :
    Upheld I rules a a' ∧ g.EveryList (ListSpelt root rules a') p stay drop forbid := by
  obtain ⟨hkept₁, hstay⟩ := listAt_upheld hI ha (hp stay (by simp)) hfields hstay
  obtain ⟨hkept₂, hdrop⟩ := listAt_upheld hI hkept₁.holding (hp drop (by simp)) hfields hdrop
  obtain ⟨hkept₃, hforbid⟩ := listAt_upheld hI hkept₂.holding (hp forbid (by simp)) hfields hforbid
  exact ⟨hkept₁.trans (hkept₂.trans hkept₃),
    hstay.mono (hkept₂.grows.trans hkept₃.grows), hdrop.mono hkept₃.grows, hforbid⟩

/-- **The groups of all timeframes** become nodes that spell them. -/
theorem assembleGroups_upheld (hI : Upholds root rules P I) {fields : Table Json}
    (hfields : ∀ e ∈ fields, (Json.obj root).at? (groupsPlace.key e.1) = some e.2)
    (ha : Holding I rules a) {former m : ByTimeframe Groups}
    (h : assembleGroups rules groupsPlace former fields a = .ok (m, a')) :
    Upheld I rules a a' ∧
      ByKeys fields (fun key g => g.EveryList (ListSpelt root rules a') (groupsPlace.key key)
        "stay_on_if" "drop_to_lower_if_any" "forbid_drop_to_lower_if_any") former m := by
  induction fields generalizing a former with
  | nil =>
    obtain ⟨rfl, rfl⟩ := pure_eq_ok.mp h
    exact ⟨.refl ha, .nil _ _⟩
  | cons e rest ih =>
    obtain ⟨key, v⟩ := e
    obtain ⟨tf, a₁, htf, h₁⟩ := Assemble.bind_eq_ok.mp h
    obtain ⟨hkey, rfl⟩ := timeframe_eq_ok htf
    cases v with
    | obj block =>
      obtain ⟨stay, a₂, hstay, h₂⟩ := Assemble.bind_eq_ok.mp h₁
      obtain ⟨drop, a₃, hdrop, h₃⟩ := Assemble.bind_eq_ok.mp h₂
      obtain ⟨forbid, a₄, hforbid, h₄⟩ := Assemble.bind_eq_ok.mp h₃
      have hplace : ∀ group ∈ Review.groupKeys, ListPlace ((groupsPlace.key key).key group) :=
        fun group hgroup => .groups (Option.isSome_iff_exists.mpr ⟨tf, hkey⟩) hgroup
      have hblock : (Json.obj root).fieldsAt (groupsPlace.key key) = block := by
        rw [Json.fieldsAt, hfields _ List.mem_cons_self]
      obtain ⟨hkept, hgroups⟩ := groups_upheld (g := { stay, drop, forbid }) hI ha hplace hblock
        hstay hdrop hforbid
      obtain ⟨hkept', hrest⟩ := ih (fun e he => hfields e (List.mem_cons_of_mem _ he)) hkept.holding h₄
      exact ⟨hkept.trans hkept', .cons hkey (hgroups.imp (ListSpelt.mono hkept'.grows)) hrest⟩
    | null | bool _ | int _ | real _ | str _ | arr _ => exact absurd h₁ fail_ne_ok

/-- The section of the choice is assembled from its fields, part by part. -/
theorem assembleSelection_cases {s : Selection}
    (h : assembleSelection rules root a = .ok (s, a')) :
    let selector := (Json.obj root).fieldsAt [.key selectorKey]
    ∃ a₁ a₂, assembleFilters rules root selector a = .ok (s.filters, a₁) ∧
      assembleAllowance rules selector a₁ = .ok ((s.allowsMinute, s.minuteRules), a₂) ∧
      defaultOf selector a₂ = .ok (s.default, a₂) ∧
      assembleLayout rules selector a₂ = .ok (s.layout, a') := by
  obtain ⟨selector, a₀, hsel, h₁⟩ := Assemble.bind_eq_ok.mp h
  obtain ⟨rfl, rfl⟩ := selectorOf_eq_ok hsel
  obtain ⟨filters, a₁, hfilters, h₂⟩ := Assemble.bind_eq_ok.mp h₁
  obtain ⟨⟨enabled, minute⟩, a₂, hminute, h₃⟩ := Assemble.bind_eq_ok.mp h₂
  obtain ⟨default, a₃, hdefault, h₄⟩ := Assemble.bind_eq_ok.mp h₃
  obtain ⟨layout, a₄, hlayout, h₅⟩ := Assemble.bind_eq_ok.mp h₄
  obtain ⟨rfl, rfl⟩ := pure_eq_ok.mp h₅
  obtain rfl := (settles_defaultOf _).still hdefault
  exact ⟨a₁, a₃, hfilters, hminute, hdefault, hlayout⟩

theorem listPlace_filters (root : Table Json) : ListPlace (filtersPlace root) := by
  rw [filtersPlace]
  split
  · exact .selector List.mem_cons_self
  · exact .filters

/-- The mandatory filters are made of the list that counts. -/
theorem assembleFilters_eq_ok {ids : List Node.Id}
    (h : assembleFilters rules root ((Json.obj root).fieldsAt [.key selectorKey]) a = .ok (ids, a')) :
    ∃ rs, rulesAt root (filtersPlace root) = some rs ∧
      assembleList rules (filtersPlace root) rs a = .ok (ids, a') := by
  unfold assembleFilters at h
  rw [filtersPlace]
  split at h
  · rename_i hhas
    rw [if_pos hhas]
    exact listAt_eq_ok (p := [.key selectorKey]) rfl h
  · rename_i hhas
    rw [if_neg hhas]
    exact listAt_eq_ok (p := []) rfl h

section Selection

variable (hI : Upholds root rules P I) (ha : Holding I rules a) {selector : Table Json}
  (hselector : (Json.obj root).fieldsAt [.key selectorKey] = selector)
include hI ha hselector

theorem assembleFilters_upheld {ids : List Node.Id}
    (h : assembleFilters rules root selector a = .ok (ids, a')) :
    Upheld I rules a a' ∧ ListSpelt root rules a' (filtersPlace root) ids := by
  subst hselector
  obtain ⟨rs, hrs, hlist⟩ := assembleFilters_eq_ok h
  obtain ⟨hkept, hall⟩ := hI.list (listPlace_filters root) hrs ha hlist
  exact ⟨hkept, listPlace_filters root, rs, hrs, hall⟩

theorem assembleAllowance_upheld {enabled : Bool} {ids : List Node.Id}
    (h : assembleAllowance rules selector a = .ok ((enabled, ids), a')) :
    Upheld I rules a a' ∧
      ListSpelt root rules a' [.key selectorKey, .key "allow_1m_only_for", .key "conditions"] ids := by
  unfold assembleAllowance at h
  cases hg : Json.given? selector "allow_1m_only_for" with
  | none =>
    rw [hg] at h
    cases pure_eq_ok.mp h with
    | intro hids ha =>
      cases hids
      subst ha
      -- without a section there is nothing in it
      have hnone : (Json.obj root).at? (Path.key [.key selectorKey, .key "allow_1m_only_for"]
          "conditions") = none := by
        rw [Json.at?_key]
        have hempty := Json.fieldsAt_of_not_given (p := [.key selectorKey]) (hselector ▸ hg)
        exact congrArg (List.lookup "conditions") hempty
      exact ⟨.refl ha, .absent .minute hnone _ _⟩
  | some v =>
    rw [hg] at h
    cases v with
    | obj fields =>
      obtain ⟨ids', a₁, hids, h₁⟩ := Assemble.bind_eq_ok.mp h
      cases h₁
      have hfields : (Json.obj root).fieldsAt [.key selectorKey, .key "allow_1m_only_for"] = fields :=
        Json.fieldsAt_of_lookup (p := [.key selectorKey])
          (by rw [hselector]; exact Json.lookup_of_given? hg)
      exact listAt_upheld hI ha (p := [.key selectorKey, .key "allow_1m_only_for"]) .minute
        hfields hids
    | null | bool _ | int _ | real _ | str _ | arr _ => exact absurd h fail_ne_ok

theorem assembleLayout_upheld (hordered : (Json.obj root).Ordered) {layout : Layout}
    (h : assembleLayout rules selector a = .ok (layout, a')) :
    Upheld I rules a a' ∧ layout.EveryList (ListSpelt root rules a') root := by
  unfold assembleLayout at h
  cases hv : selector.lookup "per_timeframe" with
  | none =>
    rw [hv] at h
    obtain ⟨stay, a₁, hstay, h₁⟩ := Assemble.bind_eq_ok.mp h
    obtain ⟨drop, a₂, hdrop, h₂⟩ := Assemble.bind_eq_ok.mp h₁
    obtain ⟨forbid, a₃, hforbid, h₃⟩ := Assemble.bind_eq_ok.mp h₂
    cases h₃
    have hplace : ∀ key ∈ Review.flatKeys, ListPlace (Path.key [.key selectorKey] key) :=
      fun key hkey => .selector (List.mem_cons_of_mem _ hkey)
    exact groups_upheld (g := { stay, drop, forbid }) hI ha hplace hselector hstay hdrop hforbid
  | some v =>
    rw [hv] at h
    cases v with
    | obj blocks =>
      obtain ⟨order, a₁, horder, h₁⟩ := Assemble.bind_eq_ok.mp h
      obtain ⟨groups, a₂, hgroups, h₂⟩ := Assemble.bind_eq_ok.mp h₁
      cases h₂
      obtain rfl := (settles_orderOf _).still horder
      have hfields : (Json.obj root).fieldsAt groupsPlace = blocks :=
        Json.fieldsAt_of_lookup (p := [.key selectorKey]) (by rw [hselector, hv])
      obtain ⟨hkept, hall⟩ :=
        assembleGroups_upheld hI (at?_of_mem_fieldsAt hordered hfields) ha hgroups
      refine ⟨hkept, ?_⟩
      show ByKeys ((Json.obj root).fieldsAt groupsPlace) _ _ _
      rw [hfields]
      exact hall
    | null | bool _ | int _ | real _ | str _ | arr _ => exact absurd h fail_ne_ok

end Selection

/-- **The section of the choice** becomes nodes that spell it. -/
theorem assembleSelection_upheld (hordered : (Json.obj root).Ordered)
    (hI : Upholds root rules P I) (ha : Holding I rules a) {s : Selection}
    (h : assembleSelection rules root a = .ok (s, a')) :
    Upheld I rules a a' ∧ s.EveryList (ListSpelt root rules a') root := by
  obtain ⟨a₁, a₂, hfilters, hminute, -, hlayout⟩ := assembleSelection_cases h
  obtain ⟨hkept₁, hfilters⟩ := assembleFilters_upheld hI ha rfl hfilters
  obtain ⟨hkept₂, hminute⟩ := assembleAllowance_upheld hI hkept₁.holding rfl hminute
  obtain ⟨hkept₃, hlayout⟩ := assembleLayout_upheld hI hkept₂.holding rfl hordered hlayout
  exact ⟨hkept₁.trans (hkept₂.trans hkept₃), hfilters.mono (hkept₂.grows.trans hkept₃.grows),
    hminute.mono hkept₃.grows, hlayout⟩

end TopDown
