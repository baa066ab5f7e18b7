import Mathlib.Data.List.Dedup
import TopDown.Proofs.Filters
import TopDown.Proofs.Grace

/-!
# Blocks that are in effect

A configuration has a block for each timeframe, under a key that spells it, and a timeframe may be
spelt in several ways: in any case, and with blanks around it. So two keys may spell one timeframe,
and then the book has the block of the last of them, in the order of the keys, and nothing of the
others. The review does not remark on it.

What a book has of the last key is all that is written there (`TopDown.Block.Written`): the rules of
both lists, the bars that must be at hand, and the grace window, as far as that is short enough to be
kept. A book has as many blocks as there are keys exactly if no two of them spell one timeframe
(`TopDown.LastKeys`). The same goes for the groups that choose a timeframe to enter on, and
`TopDown.Book.load_inEffect` says both of every configuration that is loaded. One that loses a block is
`TopDown.spelledTwice`.
-/

namespace TopDown

/-! ### Keys that spell timeframes -/

/-- The timeframes that the keys of an object spell, in the order of the keys. -/
def timeframesOf (fields : Table Json) : List Timeframe :=
  fields.names.filterMap Timeframe.parse?

/-- The key that counts is one that spells the timeframe, and no later key does. -/
theorem spelling?_eq_some_iff {fields : Table Json} {tf : Timeframe} {key : String} :
    spelling? fields tf = some key ↔ Timeframe.parse? key = some tf ∧
      ∃ before after, fields.names = before ++ key :: after ∧
        ∀ later ∈ after, Timeframe.parse? later ≠ some tf := by
  rw [spelling?, List.findRev?_eq_find?_reverse, List.find?_eq_some_iff_append]
  simp only [decide_eq_true_eq, Bool.not_eq_true', decide_eq_false_iff_not]
  refine and_congr_right fun _ => ⟨?_, ?_⟩
  · rintro ⟨after, before, hsplit, hlater⟩
    refine ⟨before.reverse, after.reverse, ?_, fun later hmem => hlater later (by simpa using hmem)⟩
    rw [← List.reverse_reverse fields.names, hsplit]
    simp
  · rintro ⟨before, after, hsplit, hlater⟩
    exact ⟨after.reverse, before.reverse, by rw [hsplit]; simp,
      fun later hmem => hlater later (by simpa using hmem)⟩

/-- Some key counts for a timeframe exactly if some key spells it. -/
theorem spelling?_eq_none_iff {fields : Table Json} {tf : Timeframe} :
    spelling? fields tf = none ↔ tf ∉ timeframesOf fields := by
  rw [spelling?, List.findRev?_eq_find?_reverse, List.find?_eq_none, timeframesOf,
    List.mem_filterMap]
  simp

/-- If the keys spell different timeframes, every key counts. -/
theorem spelling?_of_nodup {fields : Table Json} (h : (timeframesOf fields).Nodup) {tf : Timeframe}
    {key : String} (hkey : key ∈ fields.names) (htf : Timeframe.parse? key = some tf) :
    spelling? fields tf = some key := by
  obtain ⟨before, after, hsplit⟩ := List.append_of_mem hkey
  refine spelling?_eq_some_iff.mpr ⟨htf, before, after, hsplit, fun later hmem hlater => ?_⟩
  rw [timeframesOf, hsplit, List.filterMap_append, List.filterMap_cons_some htf] at h
  refine (List.nodup_cons.mp (List.nodup_append.mp h).2.1).1 ?_
  exact List.mem_filterMap.mpr ⟨later, hmem, hlater⟩

/-- **The entries of a map are those of the last keys.** -/
structure LastKeys {α : Type} (fields : Table Json) (R : String → α → Prop) (m : ByTimeframe α) :
    Prop where
  /-- All keys spell timeframes. -/
  spells : ∀ key ∈ fields.names, ∃ tf, Timeframe.parse? key = some tf
  /-- The entry of a timeframe is that of the last key which spells it. -/
  last : ∀ before key after tf, fields.names = before ++ key :: after →
    Timeframe.parse? key = some tf → (∀ later ∈ after, Timeframe.parse? later ≠ some tf) →
    ∃ x, m tf = some x ∧ R key x
  /-- Where there is no such key, there is no entry. -/
  unspelt : ∀ tf, tf ∉ timeframesOf fields → m tf = none
  /-- If the keys spell different timeframes, none is lost. -/
  all : (timeframesOf fields).Nodup → ∀ key tf, key ∈ fields.names →
    Timeframe.parse? key = some tf → ∃ x, m tf = some x ∧ R key x
  /-- Otherwise there are fewer entries than keys. -/
  length_iff : m.entries.length = fields.length ↔ (timeframesOf fields).Nodup

namespace ByKeys

variable {α : Type} {fields : Table Json} {R R' : String → α → Prop} {former m : ByTimeframe α}

/-- What is said of the keys that count may be said at once. -/
theorem and (h : ByKeys fields R former m) (h' : ByKeys fields R' former m) :
    ByKeys fields (fun key x => R key x ∧ R' key x) former m where
  spelt tf key hs := by
    obtain ⟨x, hx, hR⟩ := h.spelt tf key hs
    obtain ⟨x', hx', hR'⟩ := h'.spelt tf key hs
    rw [hx, Option.some.injEq] at hx'
    subst hx'
    exact ⟨x, hx, hR, hR'⟩
  unspelt := h.unspelt

/-- The entries are those of the timeframes that are spelt. -/
theorem perm_entries (h : ByKeys fields R ByTimeframe.empty m) :
    (m.entries.map Prod.fst).Perm (timeframesOf fields).dedup := by
  have hnodup : (m.entries.map Prod.fst).Nodup := by
    have hsub : (m.entries.map Prod.fst).Sublist Timeframe.all := by
      rw [ByTimeframe.entries, List.map_filterMap]
      have hguard : (fun tf => ((m tf).map fun x => (tf, x)).map Prod.fst) =
          Option.guard fun tf => (m tf).isSome := by
        funext tf
        cases htf : m tf <;> simp [Option.guard, htf]
      rw [hguard, List.filterMap_eq_filter]
      exact List.filter_sublist
    exact hsub.nodup (by decide)
  refine (List.perm_ext_iff_of_nodup hnodup (List.nodup_dedup _)).mpr fun tf => ?_
  have hentry : tf ∈ m.entries.map Prod.fst ↔ ∃ x, m tf = some x := by
    have hall : tf ∈ Timeframe.all := by cases tf <;> decide
    simp [ByTimeframe.entries, hall]
  rw [hentry, List.mem_dedup]
  cases hs : spelling? fields tf with
  | none =>
    rw [h.unspelt tf hs]
    exact iff_of_false (by simp [ByTimeframe.empty]) (spelling?_eq_none_iff.mp hs)
  | some key =>
    obtain ⟨x, hx, -⟩ := h.spelt tf key hs
    refine iff_of_true ⟨x, hx⟩ ?_
    by_contra hno
    rw [spelling?_eq_none_iff.mpr hno] at hs
    cases hs

theorem lastKeys (h : ByKeys fields R ByTimeframe.empty m)
    (hspells : ∀ key ∈ fields.names, ∃ tf, Timeframe.parse? key = some tf) :
    LastKeys fields R m where
  spells := hspells
  last before key after tf hsplit htf hlater :=
    h.spelt tf key (spelling?_eq_some_iff.mpr ⟨htf, before, after, hsplit, hlater⟩)
  unspelt tf htf := h.unspelt tf (spelling?_eq_none_iff.mpr htf)
  all hnodup key tf hkey htf := h.spelt tf key (spelling?_of_nodup hnodup hkey htf)
  length_iff := by
    have hlength : (timeframesOf fields).length = fields.length := by
      have hnames : fields.names.length = fields.length := List.length_map _
      rw [← hnames, timeframesOf, List.length_filterMap_eq_countP, List.countP_eq_length]
      intro key hkey
      obtain ⟨tf, htf⟩ := hspells key hkey
      rw [htf]
      rfl
    have hperm := h.perm_entries.length_eq
    rw [List.length_map] at hperm
    rw [hperm, ← hlength, ← List.dedup_eq_self]
    exact ⟨(List.dedup_sublist _).eq_of_length, congrArg _⟩

end ByKeys

/-! ### What is written in a block -/

/-- The bars that a block asks for. -/
def writtenMinBars (block : Table Json) : UInt64 :=
  ((Json.given? block "min_bars").bind Json.asCount?).getD defaultMinBars

/-- **The block is written under the key**: its lists spell the rules that stand there, and its bounds
are those that stand there, but that a grace window which is too long reads as a negative one. -/
structure Block.Written (root : Table Json) (rules : Table Rule) (a : Assembly) (key : String)
    (b : Block) : Prop where
  /-- The rules for buying and for selling. -/
  lists : b.EveryList (ListSpelt root rules a) (blocksPlace.key key)
  /-- The bars that must be at hand. -/
  minBars : b.minBars = writtenMinBars ((Json.obj root).fieldsAt (blocksPlace.key key))
  /-- The grace window is read as a signed number. -/
  grace : b.graceSeconds =
    (writtenGrace ((Json.obj root).fieldsAt (blocksPlace.key key))).toInt64.toInt
  /-- It is the one that is written if that is short enough. -/
  grace_iff : b.graceSeconds =
      (writtenGrace ((Json.obj root).fieldsAt (blocksPlace.key key))).toNat ↔
    (writtenGrace ((Json.obj root).fieldsAt (blocksPlace.key key))).toNat ≤ longestGrace

/-- **The groups are written under the key.** -/
def Groups.Written (root : Table Json) (rules : Table Rule) (a : Assembly) (key : String)
    (g : Groups) : Prop :=
  g.EveryList (ListSpelt root rules a) (groupsPlace.key key) "stay_on_if" "drop_to_lower_if_any"
    "forbid_drop_to_lower_if_any"

/-- The groups of the timeframes; a flat layout has none. -/
def Layout.groups : Layout → ByTimeframe Groups
  | .byTimeframe _ groups => groups
  | .flat _ => ByTimeframe.empty

section Assembling

open Assemble

variable {root : Table Json} {rules : Table Rule} {a a' : Assembly}

/-- Where a least number of bars is read at all, it is the one that is written. -/
theorem minBarsOf_eq_ok {p : Path} {block : Table Json} {n : UInt64}
    (h : minBarsOf p block a = .ok (n, a')) : n = writtenMinBars block := by
  unfold minBarsOf at h
  unfold writtenMinBars
  cases hg : Json.given? block "min_bars" with
  | none =>
    rw [hg] at h
    exact (pure_eq_ok.mp h).1
  | some v =>
    rw [Option.bind_some]
    cases hcount : v.asCount? with
    | none =>
      simp only [hg, hcount] at h
      exact absurd h fail_ne_ok
    | some n' =>
      simp only [hg, hcount] at h
      split at h
      · exact absurd h fail_ne_ok
      · exact (pure_eq_ok.mp h).1

theorem assembleBlock_writtenMinBars {p : Path} {v : Json} {block : Block}
    (h : assembleBlock rules p v a = .ok (block, a')) :
    ∃ fields, v = .obj fields ∧ block.minBars = writtenMinBars fields := by
  cases v with
  | obj fields =>
    obtain ⟨minBars, a₁, hmin, h⟩ := Assemble.bind_eq_ok.mp h
    obtain ⟨grace, a₂, -, h⟩ := Assemble.bind_eq_ok.mp h
    obtain ⟨long, a₃, -, h⟩ := Assemble.bind_eq_ok.mp h
    obtain ⟨short, a₄, -, h⟩ := Assemble.bind_eq_ok.mp h
    split at h
    · obtain ⟨rfl, -⟩ := pure_eq_ok.mp h
      exact ⟨fields, rfl, minBarsOf_eq_ok hmin⟩
    · cases h
  | null | bool _ | int _ | real _ | str _ | arr _ => exact absurd h fail_ne_ok

/-- The keys of the groups spell timeframes. -/
theorem assembleGroups_spells {p : Path} {fields : Table Json} {former m : ByTimeframe Groups}
    (h : assembleGroups rules p former fields a = .ok (m, a')) :
    ∀ key ∈ fields.names, ∃ tf, Timeframe.parse? key = some tf := by
  induction fields generalizing a former with
  | nil => exact fun key hkey => (List.not_mem_nil hkey).elim
  | cons e rest ih =>
    obtain ⟨key, v⟩ := e
    obtain ⟨tf, a₁, htf, h₁⟩ := Assemble.bind_eq_ok.mp h
    obtain ⟨hkey, -⟩ := timeframe_eq_ok htf
    cases v with
    | obj block =>
      obtain ⟨stay, a₂, -, h₂⟩ := Assemble.bind_eq_ok.mp h₁
      obtain ⟨drop, a₃, -, h₃⟩ := Assemble.bind_eq_ok.mp h₂
      obtain ⟨forbid, a₄, -, h₄⟩ := Assemble.bind_eq_ok.mp h₃
      intro key' hmem
      rcases List.mem_cons.mp hmem with rfl | hmem
      · exact ⟨tf, hkey⟩
      · exact ih h₄ key' hmem
    | null | bool _ | int _ | real _ | str _ | arr _ => exact absurd h₁ fail_ne_ok

/-- The keys of the section of groups spell timeframes, and a flat layout has no such section. -/
theorem assembleLayout_spells {layout : Layout}
    (h : assembleLayout rules ((Json.obj root).fieldsAt [.key selectorKey]) a = .ok (layout, a')) :
    (∀ key ∈ Table.names ((Json.obj root).fieldsAt groupsPlace),
      ∃ tf, Timeframe.parse? key = some tf) ∧
    ∀ g, layout = .flat g → (Json.obj root).fieldsAt groupsPlace = [] := by
  have hfields := Json.fieldsAt_key (.obj root) [.key selectorKey] "per_timeframe"
  have hplace : (Json.obj root).fieldsAt groupsPlace =
      (Json.obj root).fieldsAt (Path.key [.key selectorKey] "per_timeframe") := rfl
  unfold assembleLayout at h
  cases hv : ((Json.obj root).fieldsAt [.key selectorKey]).lookup "per_timeframe" with
  | none =>
    have hnone : (Json.obj root).fieldsAt groupsPlace = [] := by
      rw [hplace, Json.fieldsAt, Json.at?_key, hv]
    rw [hnone]
    exact ⟨fun key hkey => (List.not_mem_nil hkey).elim, fun _ _ => rfl⟩
  | some v =>
    rw [hv] at h
    cases v with
    | obj blocks =>
      obtain ⟨order, a₁, -, h₁⟩ := Assemble.bind_eq_ok.mp h
      obtain ⟨groups, a₂, hgroups, h₂⟩ := Assemble.bind_eq_ok.mp h₁
      cases h₂
      have hblocks : (Json.obj root).fieldsAt groupsPlace = blocks :=
        Json.fieldsAt_of_lookup (p := [.key selectorKey]) hv
      rw [hblocks]
      exact ⟨assembleGroups_spells hgroups, fun _ hflat => by cases hflat⟩
    | null | bool _ | int _ | real _ | str _ | arr _ => exact absurd h fail_ne_ok

end Assembling

/-! ### What is in effect -/

/-- **The last keys of both sections are in effect** in a book. -/
structure Book.InEffect (root : Table Json) (rules : Table Rule) (b : Book) : Prop where
  /-- Blocks of timeframes. -/
  blocks : LastKeys (blocksOf root)
    (fun key block => block.Written root rules ⟨b.registry, b.nodes, b.named⟩ key) b.blocks
  /-- Groups of timeframes. -/
  groups : LastKeys ((Json.obj root).fieldsAt groupsPlace)
    (fun key g => g.Written root rules ⟨b.registry, b.nodes, b.named⟩ key) b.selection.layout.groups

section Books

variable {base : Registry} {root : Table Json} {b : Book}

/-- **Of a configuration that compiles the last keys are in effect.** -/
theorem Book.compile_inEffect (hordered : (Json.obj root).Ordered)
    (h : compile base (.obj root) = .ok b) :
    ∃ rules, parseNamed (ruleBodies root) = .ok rules ∧ b.InEffect root rules := by
  obtain ⟨rules, hparsed, hlists⟩ := compile_lists hordered h
  obtain ⟨rules', a₁, a₂, a₃, -, -, -, hvalidation, hselection, -⟩ := compile_cases h
  refine ⟨rules, hparsed, ?_, ?_⟩
  · obtain ⟨validation, blocks, hv, hb, hm⟩ := assembleValidation_cases hvalidation
    have hblocks := blocksOf_eq hv hb
    have hplaces := at?_of_mem_fieldsAt hordered hblocks
    obtain ⟨hall, hmin⟩ := assembleBlocks_each (fun _ _ _ _ _ => assembleBlock_writtenMinBars) hm
    obtain ⟨-, hgrace⟩ := assembleBlocks_grace hplaces hm
    rw [← hblocks] at hall hmin hgrace
    refine ByKeys.lastKeys ((hlists.blocks.and (hmin.and hgrace)).imp ?_) fun key hkey => ?_
    · rintro key block ⟨hlists, ⟨v, hmem, fields, rfl, hmin⟩, hkept, hgrace⟩
      refine ⟨hlists, ?_, hgrace, ?_⟩
      · have hplace := hplaces (key, .obj fields) (hblocks ▸ hmem)
        rw [Json.fieldsAt, hplace]
        exact hmin
      · rw [hgrace]
        exact toInt64_eq_iff hkept
    · obtain ⟨e, he, rfl⟩ := List.mem_map.mp hkey
      exact Option.isSome_iff_exists.mp (hall e he).1
  · obtain ⟨a₄, a₅, -, -, -, hlayout⟩ := assembleSelection_cases hselection
    obtain ⟨hspells, hflat⟩ := assembleLayout_spells hlayout
    have hkeys := hlists.selection.layout
    cases hlay : b.selection.layout with
    | byTimeframe order groups =>
      rw [hlay] at hkeys
      exact ByKeys.lastKeys hkeys hspells
    | flat g =>
      rw [hflat g hlay] at hspells ⊢
      exact ByKeys.lastKeys (ByKeys.nil _ _) hspells

/-- **Blocks of a configuration that is loaded are in effect if no later key spells their timeframe**:
the book has the rules, the bars and the window that are written there, as far as the window is short
enough; and it has as many blocks as there are keys exactly if all keys spell different timeframes. -/
theorem Book.load_inEffect {report : Report} (hordered : (Json.obj root).Ordered)
    (h : load base (.obj root) = .ok (b, report)) :
    ∃ rules, parseNamed (ruleBodies root) = .ok rules ∧ b.InEffect root rules :=
  compile_inEffect hordered (load_eq_ok h).1

end Books

/-- One timeframe has one key. -/
theorem Book.load_inEffect_plain : ∃ b report block,
    load .builtin (.obj plainConfig) = .ok (b, report) ∧ (Json.obj plainConfig).Ordered ∧
    b.blocks .m15 = some block ∧ block.graceSeconds = 60 ∧ b.blocks.entries.length = 1 := by
  obtain ⟨b, -, hload⟩ := load_of_review_plain
  have hordered : (Json.obj plainConfig).Ordered := by decide +kernel
  obtain ⟨rules, -, hblocks, -⟩ := Book.load_inEffect hordered hload
  have hnodup : (timeframesOf (blocksOf plainConfig)).Nodup := by decide
  obtain ⟨block, hblock, hwritten⟩ :=
    hblocks.all hnodup "15m" .m15 (List.mem_singleton_self _) (by decide)
  refine ⟨b, _, block, hload, hordered, hblock, ?_, hblocks.length_iff.mpr hnodup⟩
  rw [hwritten.grace_iff.mpr (by decide +kernel)]
  decide +kernel

/-- A configuration with two keys that spell one hour, of which the first has a blank before it. -/
def spelledTwice : Table Json :=
  [("validation", .obj [("timeframe", .obj [
    (" 1h", .obj [("long", .arr [.str "rsi_bullish"]), ("min_bars", .int 10)]),
    ("1h", .obj [("long", .arr [.str "rsi_bearish"])])])])]

/-- **The block of the first key is lost**: the configuration is loaded, with no remark on the hour, and
the book asks for the rule and the bars of the second key. -/
theorem Book.load_spelledTwice : ∃ b report block,
    load .builtin (.obj spelledTwice) = .ok (b, report) ∧
    report.warnings.map (fun f => f.path.render) =
      ["validation.timeframe.4h", "validation.timeframe.15m", "validation.timeframe.5m",
        "validation.timeframe.1m"] ∧
    (blocksOf spelledTwice).names = [" 1h", "1h"] ∧ Timeframe.parse? " 1h" = some .h1 ∧
    rulesAt spelledTwice ((blocksPlace.key " 1h").key "long") =
      some [.reference "rsi_bullish" none] ∧
    writtenMinBars ((Json.obj spelledTwice).fieldsAt (blocksPlace.key " 1h")) = 10 ∧
    b.blocks .h1 = some block ∧ block.long.map b.label = ["rsi_bearish"] ∧ block.minBars = 50 := by
  have hrun : ((load .builtin (.obj spelledTwice)).toOption.bind fun r =>
      (r.1.blocks .h1).map fun block => (r.2.warnings.map (fun f => f.path.render),
        block.long.map r.1.label, block.minBars)) =
      some (["validation.timeframe.4h", "validation.timeframe.15m", "validation.timeframe.5m",
        "validation.timeframe.1m"], ["rsi_bearish"], 50) := by
    decide +kernel
  obtain ⟨⟨b, report⟩, hload, hrun⟩ := Option.bind_eq_some_iff.mp hrun
  obtain ⟨block, hblock, hrun⟩ := Option.map_eq_some_iff.mp hrun
  obtain ⟨hwarnings, hrun⟩ := Prod.mk.inj hrun
  obtain ⟨hlong, hmin⟩ := Prod.mk.inj hrun
  exact ⟨b, report, block, toOption_eq_some.mp hload, hwarnings, rfl, by decide, rfl,
    by decide +kernel, hblock, hlong, hmin⟩

end TopDown
