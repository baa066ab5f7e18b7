import TopDown.Proofs.Clean
import TopDown.Proofs.Completion
import TopDown.Proofs.Sections

/-!
# The way through the sections

The review and the assembly walk through a configuration independently of each other. Here they go
together, section by section. What the review remarks on a section is among the remarks that it has
noted in all, and the assembly of the section is safe if three things are granted
(`TopDown.Passable`): lists of rules can be assembled; where an error is noted, the assembly may
refuse a setting or miss a section; and it may stop over a grace window that the clock cannot count,
or there is none.

The settings are what the walk has to look at by itself. Where the remarks on one are clean, it is
read, and where they are not, an error is noted (`TopDown.Passable.setting`). Whether the assembly
may stop is left to those who go this way: where nothing is wrong it may not, and where something is,
they ask what it stops for.
-/

namespace TopDown

open Assemble

/-! ### Settings that are read -/

/-- A value that the review takes for a timeframe is one. -/
theorem timeframe_eq {area key : String} {v : Json} {tf : Timeframe}
    (hv : Review.timeframe? v = some tf) : Assemble.timeframe area key v = pure tf := by
  unfold Review.timeframe? at hv
  unfold Assemble.timeframe
  rw [hv]

theorem minBars_eq {p q : Path} {block : Table Json}
    (hc : Review.Clean (Review.minBars p block)) : ∃ n, minBarsOf q block = pure n := by
  unfold minBarsOf
  rcases Review.minBars_clean hc with hnone | ⟨v, n, hv, hn, hpos⟩
  · simp only [hnone]
    exact ⟨_, rfl⟩
  · simp only [hv, hn, if_neg hpos]
    exact ⟨_, rfl⟩

theorem grace_eq {p q : Path} {block : Table Json} (hc : Review.Clean (Review.grace p block)) :
    ∃ seconds, graceOf q block = pure seconds := by
  unfold graceOf
  rcases Review.grace_clean hc with hnone | ⟨v, n, hv, hn⟩
  · simp only [hnone]
    exact ⟨_, rfl⟩
  · simp only [hv, hn]
    exact ⟨_, rfl⟩

theorem default_eq {selector : Table Json} (hc : Review.Clean (Review.default selector)) :
    ∃ tf, defaultOf selector = pure tf := by
  unfold defaultOf
  rcases Review.default_clean hc with hnone | ⟨v, tf, hv, htf, hexec⟩
  · simp only [hnone]
    exact ⟨_, rfl⟩
  · simp only [hv, timeframe_eq htf, pure_bind, if_pos hexec]
    exact ⟨_, rfl⟩

theorem orderItems_eq {items : List Json} (hc : ∀ v ∈ items, ∃ tf, Review.timeframe? v = some tf) :
    ∃ order, orderItems items = pure order := by
  induction items with
  | nil => exact ⟨_, rfl⟩
  | cons v rest ih =>
    obtain ⟨tf, htf⟩ := hc v List.mem_cons_self
    obtain ⟨order, horder⟩ := ih fun v hv => hc v (List.mem_cons_of_mem _ hv)
    unfold orderItems
    simp only [timeframe_eq htf, horder, pure_bind]
    exact ⟨_, rfl⟩

theorem order_eq {selector : Table Json} (hc : Review.Clean (Review.order selector)) :
    ∃ order, orderOf selector = pure order := by
  unfold orderOf
  rcases Review.order_clean hc with hnone | ⟨items, hitems, hall⟩
  · simp only [hnone]
    exact ⟨_, rfl⟩
  · simp only [hitems]
    exact orderItems_eq hall

/-! ### Grace windows -/

/-- The grace window that a block writes, in seconds: none where it is absent. -/
def writtenGrace (block : Table Json) : UInt64 :=
  ((Json.given? block "grace_window_secs").bind Json.asCount?).getD 0

/-- Where a grace window is read at all, it is the one that is written. -/
theorem graceOf_eq_ok {p : Path} {block : Table Json} {seconds : Int} {a a' : Assembly}
    (h : graceOf p block a = .ok (seconds, a')) :
    seconds = (writtenGrace block).toInt64.toInt := by
  unfold graceOf at h
  unfold writtenGrace
  cases hg : Json.given? block "grace_window_secs" with
  | none =>
    rw [hg] at h
    exact (pure_eq_ok.mp h).1
  | some v =>
    cases hcount : v.asCount? with
    | none =>
      simp only [hg, hcount] at h
      exact absurd h fail_ne_ok
    | some n =>
      simp only [hg, hcount] at h
      rw [Option.bind_some, hcount, Option.getD_some]
      exact (pure_eq_ok.mp h).1

/-- **Every grace window is a duration** for the clock, or it is allowed that one is not. -/
def GraceSafe (stops : Stop → Prop) (root : Table Json) : Prop :=
  ∀ validation blocks key block, root.lookup "validation" = some (.obj validation) →
    validation.lookup "timeframe" = some (.obj blocks) → (key, .obj block) ∈ blocks →
    Instant.isDuration (writtenGrace block).toInt64.toInt = true ∨ stops (.crash .durationRange)

/-! ### Places -/

/-- **The fields stand at the place** of the configuration, if its keys are in order. -/
def StandAt (root : Table Json) (p : Path) (fields : Table Json) : Prop :=
  (Json.obj root).Ordered → (Json.obj root).fieldsAt p = fields

/-- The fields of an entry stand below its key. -/
theorem StandAt.entry {root : Table Json} {p : Path} {fields : Table Json}
    (h : StandAt root p fields) {key : String} {block : Table Json}
    (he : (key, .obj block) ∈ fields) : StandAt root (p.key key) block := by
  intro hordered
  rw [Json.fieldsAt, at?_of_mem_fieldsAt hordered (h hordered) _ he]

/-! ### Sections -/

/-- The remarks on the parts of the section of the choice are among those on the section. -/
theorem Review.subset_selection {w : Review} {root selector : Table Json} {a a' : Assembly}
    (h : selectorOf root a = .ok (selector, a')) :
    w.listAt [] root "filters_mandatory" ⊆ w.selection root ∧
      w.listAt selectorPath selector "filters_mandatory" ⊆ w.selection root ∧
      w.allowance selector ⊆ w.selection root ∧ default selector ⊆ w.selection root ∧
      w.layout selector ⊆ w.selection root := by
  have hkey : selectorKey = "execution_selector" := rfl
  unfold selectorOf at h
  rw [hkey] at h
  unfold selection
  refine ⟨List.subset_append_left _ _, ?_⟩
  cases hgiven : Json.given? root "execution_selector" with
  | none =>
    rw [hgiven] at h
    cases h
    exact ⟨List.nil_subset _, List.nil_subset _, List.nil_subset _, List.nil_subset _⟩
  | some v =>
    rw [hgiven] at h
    cases v with
    | obj fields =>
      cases h
      refine ⟨?_, ?_, ?_, ?_⟩ <;> intro remark hremark <;> simp only [List.mem_append, hremark,
        true_or, or_true]
    | null | bool _ | int _ | real _ | str _ | arr _ => cases h

/-- **A configuration can be passed**, by an assembly for which these names are known, given the
remarks that a review has noted. -/
structure Passable (stops : Stop → Prop) (w : Review) (root : Table Json) (known : List String)
    (rules : Table Rule) (noted : List Remark) : Prop where
  /-- Lists of rules can be assembled. -/
  list : ∀ {p : Path} {fields : Table Json} {key : String}, ListPlace (p.key key) →
    StandAt root p fields → w.listAt p fields key ⊆ noted →
      Safe stops known (listAt rules p fields key)
  /-- Named rules can be assembled. -/
  named : Safe stops known (assembleAllNamed rules rules.names)
  /-- Where an error is noted, a setting may be refused. -/
  refuse : ¬Review.Clean noted → ∀ area key reason, stops (.fault (.configInvalid area key reason))
  /-- Where an error is noted, a section may be missing. -/
  missing : ¬Review.Clean noted → ∀ area key, stops (.fault (.configMissing area key))
  /-- Grace windows can be counted, or it is allowed that one cannot. -/
  grace : GraceSafe stops root

namespace Passable

variable {stops : Stop → Prop} {w : Review} {root : Table Json} {known : List String}
  {rules : Table Rule} {noted : List Remark} (h : Passable stops w root known rules noted)
include h

/-- **A setting can be passed**: where the remarks on it are clean it is read, and where they are
not it may be refused. -/
theorem setting {α : Type} {x : Assemble α} (hx : Settles x) {remarks : List Remark}
    (hsub : remarks ⊆ noted) (hread : Review.Clean remarks → ∃ r, x = pure r) :
    Safe stops known x := by
  by_cases hc : Review.Clean remarks
  · obtain ⟨r, rfl⟩ := hread hc
    exact .pure r
  · exact hx.safe (h.refuse fun hall => hc (hall.mono hsub))

/-- A key that the review takes for a timeframe is one. -/
theorem timeframe {p : Path} {area key : String} {v : Json}
    (hsub : Review.timeframe p v ⊆ noted) : Safe stops known (Assemble.timeframe area key v) :=
  h.setting (.timeframe _ _ _) hsub fun hc => (Review.timeframe_clean hc).imp fun _ => timeframe_eq

/-- **The rules of a timeframe** can be passed. -/
theorem block_safe {p : Path} {v : Json} (hlong : ListPlace (p.key "long"))
    (hshort : ListPlace (p.key "short")) (hfields : ∀ block, v = .obj block → StandAt root p block)
    (hsub : w.block p v ⊆ noted) (hgrace : ∀ block, v = .obj block →
      Instant.isDuration (writtenGrace block).toInt64.toInt = true ∨ stops (.crash .durationRange)) :
    Safe stops known (assembleBlock rules p v) := by
  cases v with
  | obj block =>
    simp only [Review.block, List.append_subset] at hsub
    obtain ⟨⟨⟨⟨⟨-, hlongSub⟩, hshortSub⟩, -⟩, hminSub⟩, hgraceSub⟩ := hsub
    refine (h.setting (settles_minBarsOf _ _) hminSub minBars_eq).bind fun _ => ?_
    refine (h.setting (settles_graceOf _ _) hgraceSub grace_eq).bind_outcome
      fun seconds ⟨a, a', hread⟩ => ?_
    obtain rfl := graceOf_eq_ok hread
    refine (h.list hlong (hfields block rfl) hlongSub).bind fun _ => ?_
    refine (h.list hshort (hfields block rfl) hshortSub).bind fun _ => ?_
    split
    · exact .pure _
    · rename_i hlonger
      exact safe_stop ((hgrace block rfl).resolve_left hlonger)
  | null | bool _ | int _ | real _ | str _ | arr _ =>
    exact safe_stop (h.refuse (fun hc => Review.not_clean_error (hc.mono hsub)) _ _ _)

/-- **The rules of all timeframes** can be passed. -/
theorem blocks_safe {all : Table Json} (hall : StandAt root blocksPlace all)
    (hsub : ∀ e ∈ all, Review.timeframe (blocksPlace.key e.1) (.str e.1) ⊆ noted ∧
      w.block (blocksPlace.key e.1) e.2 ⊆ noted)
    (hgrace : ∀ key block, (key, .obj block) ∈ all →
      Instant.isDuration (writtenGrace block).toInt64.toInt = true ∨ stops (.crash .durationRange))
    {fields : Table Json} (hfields : fields ⊆ all) (blocks : ByTimeframe Block) :
    Safe stops known (assembleBlocks rules blocksPlace blocks fields) := by
  induction fields generalizing blocks with
  | nil => exact .pure _
  | cons e rest ih =>
    obtain ⟨key, v⟩ := e
    obtain ⟨he, hrest⟩ := List.cons_subset.mp hfields
    obtain ⟨htfSub, hblockSub⟩ := hsub _ he
    refine (h.timeframe htfSub).bind_outcome fun tf ⟨a, a', htf⟩ => ?_
    have hkey : (Timeframe.parse? key).isSome = true := by rw [(timeframe_eq_ok htf).1]; rfl
    have hplace : ∀ side ∈ ["long", "short"], ListPlace ((blocksPlace.key key).key side) :=
      fun side hside => .block hkey hside
    refine (h.block_safe (hplace "long" (by decide)) (hplace "short" (by decide)) ?_ hblockSub
      ?_).bind fun block => ih hrest _
    · rintro block rfl
      exact hall.entry he
    · rintro block rfl
      exact hgrace key block he

/-- **The section of the timeframes** can be passed. -/
theorem validation_safe (hsub : w.validation root ⊆ noted) :
    Safe stops known (assembleValidation rules root) := by
  unfold Review.validation at hsub
  unfold assembleValidation
  cases hv : root.lookup "validation" with
  | none =>
    rw [hv] at hsub
    exact safe_stop (h.missing (fun hc => Review.not_clean_error (hc.mono hsub)) _ _)
  | some v =>
    rw [hv] at hsub
    cases v with
    | obj fields =>
      obtain ⟨hstartSub, hblocksSub⟩ := List.append_subset.mp hsub
      have hstart : Safe stops known (startOf fields) := by
        unfold startOf
        cases hgiven : Json.given? fields "start_from_timeframe" with
        | none => exact .pure _
        | some v =>
          rw [hgiven] at hstartSub
          exact h.timeframe hstartSub
      refine hstart.bind fun start => ?_
      cases hb : fields.lookup "timeframe" with
      | none =>
        rw [hb] at hblocksSub
        exact safe_stop (h.missing (fun hc => Review.not_clean_error (hc.mono hblocksSub)) _ _)
      | some u =>
        rw [hb] at hblocksSub
        cases u with
        | obj blocks =>
          have hsection : (Json.obj root).fieldsAt [.key "validation"] = fields :=
            Json.fieldsAt_of_lookup (p := []) hv
          have hall : StandAt root blocksPlace blocks := fun _ =>
            Json.fieldsAt_of_lookup (p := [.key "validation"]) (by rw [hsection, hb])
          have heach := (List.append_subset.mp hblocksSub).1
          refine (h.blocks_safe hall (fun e he => List.append_subset.mp fun remark hremark => ?_)
            (fun key block => h.grace fields blocks key block hv hb) (List.Subset.refl _) _).bind
              fun _ => .pure _
          exact heach (List.mem_flatMap.mpr ⟨e, he, hremark⟩)
        | null | bool _ | int _ | real _ | str _ | arr _ =>
          exact safe_stop (h.missing (fun hc => Review.not_clean_error (hc.mono hblocksSub)) _ _)
    | null | bool _ | int _ | real _ | str _ | arr _ =>
      exact safe_stop (h.missing (fun hc => Review.not_clean_error (hc.mono hsub)) _ _)

/-- The lists of a group can be passed. -/
theorem groups_safe {p : Path} {fields : Table Json} {stay drop forbid : String} {α : Type}
    {f : List Node.Id → List Node.Id → List Node.Id → Assemble α}
    (hplace : ∀ key ∈ [stay, drop, forbid], ListPlace (p.key key)) (hfields : StandAt root p fields)
    (hsub : [stay, drop, forbid].flatMap (w.listAt p fields) ⊆ noted)
    (hf : ∀ stay drop forbid, Safe stops known (f stay drop forbid)) :
    Safe stops known (do
      let stay ← listAt rules p fields stay
      let drop ← listAt rules p fields drop
      let forbid ← listAt rules p fields forbid
      f stay drop forbid) := by
  have hlist (key : String) (hkey : key ∈ [stay, drop, forbid]) :
      Safe stops known (listAt rules p fields key) :=
    h.list (hplace key hkey) hfields fun _ hremark =>
      hsub (List.mem_flatMap.mpr ⟨key, hkey, hremark⟩)
  refine (hlist stay (by simp)).bind fun _ => ?_
  refine (hlist drop (by simp)).bind fun _ => ?_
  exact (hlist forbid (by simp)).bind fun _ => hf _ _ _

/-- **The groups of all timeframes** can be passed. -/
theorem byTimeframe_safe {all : Table Json} (hall : StandAt root groupsPlace all)
    (hsub : ∀ e ∈ all, Review.groupsKey (groupsPlace.key e.1) e.1 ⊆ noted ∧
      w.groups (groupsPlace.key e.1) e.2 ⊆ noted)
    {fields : Table Json} (hfields : fields ⊆ all) (groups : ByTimeframe Groups) :
    Safe stops known (assembleGroups rules groupsPlace groups fields) := by
  induction fields generalizing groups with
  | nil => exact .pure _
  | cons e rest ih =>
    obtain ⟨key, v⟩ := e
    obtain ⟨he, hrest⟩ := List.cons_subset.mp hfields
    obtain ⟨hkeySub, hgroupsSub⟩ := hsub _ he
    refine (h.setting (.timeframe _ _ _) hkeySub fun hc =>
      (Review.groupsKey_clean hc).imp fun _ => timeframe_eq).bind_outcome fun tf ⟨a, a', htf⟩ => ?_
    have hkey : (Timeframe.parse? key).isSome = true := by rw [(timeframe_eq_ok htf).1]; rfl
    have hplace : ∀ group ∈ Review.groupKeys, ListPlace ((groupsPlace.key key).key group) :=
      fun group hgroup => .groups hkey hgroup
    cases v with
    | obj block =>
      exact h.groups_safe hplace (hall.entry he) (List.append_subset.mp hgroupsSub).2
        fun _ _ _ => ih hrest _
    | null | bool _ | int _ | real _ | str _ | arr _ =>
      exact safe_stop (h.refuse (fun hc => Review.not_clean_error (hc.mono hgroupsSub)) _ _ _)

section Selection

variable {selector : Table Json}
  (hselector : (Json.obj root).fieldsAt [.key selectorKey] = selector)
include hselector

theorem filters_safe (hrootSub : w.listAt [] root "filters_mandatory" ⊆ noted)
    (hsub : w.listAt Review.selectorPath selector "filters_mandatory" ⊆ noted) :
    Safe stops known (assembleFilters rules root selector) := by
  unfold assembleFilters
  split
  · have hplace : ListPlace (Path.key [.key selectorKey] "filters_mandatory") :=
      .selector List.mem_cons_self
    exact h.list hplace (fun _ => hselector) hsub
  · have hplace : ListPlace (Path.key [] "filters_mandatory") := .filters
    exact h.list hplace (fun _ => rfl) hrootSub

theorem allowance_safe (hsub : w.allowance selector ⊆ noted) :
    Safe stops known (assembleAllowance rules selector) := by
  unfold Review.allowance at hsub
  unfold assembleAllowance
  cases hg : Json.given? selector "allow_1m_only_for" with
  | none => exact .pure _
  | some v =>
    rw [hg] at hsub
    cases v with
    | obj fields =>
      have hplace : ListPlace
          (Path.key [.key selectorKey, .key "allow_1m_only_for"] "conditions") := .minute
      have hfields : StandAt root [.key selectorKey, .key "allow_1m_only_for"] fields := fun _ =>
        Json.fieldsAt_of_lookup (p := [.key selectorKey])
          (by rw [hselector]; exact Json.lookup_of_given? hg)
      simp only [List.append_subset] at hsub
      exact (h.list hplace hfields hsub.1.2).bind fun _ => .pure _
    | null | bool _ | int _ | real _ | str _ | arr _ =>
      exact safe_stop (h.refuse (fun hc => Review.not_clean_error (hc.mono hsub)) _ _ _)

theorem layout_safe (hsub : w.layout selector ⊆ noted) :
    Safe stops known (assembleLayout rules selector) := by
  unfold Review.layout at hsub
  unfold assembleLayout
  cases hv : selector.lookup "per_timeframe" with
  | none =>
    rw [hv] at hsub
    have hplace : ∀ key ∈ Review.flatKeys, ListPlace (Path.key [.key selectorKey] key) :=
      fun key hkey => .selector (List.mem_cons_of_mem _ hkey)
    exact h.groups_safe hplace (fun _ => hselector) hsub fun _ _ _ => .pure _
  | some v =>
    rw [hv] at hsub
    cases v with
    | obj blocks =>
      simp only [List.append_subset] at hsub
      obtain ⟨⟨horderSub, -⟩, hblocksSub⟩ := hsub
      have hall : StandAt root groupsPlace blocks := fun _ =>
        Json.fieldsAt_of_lookup (p := [.key selectorKey]) (by rw [hselector, hv])
      refine (h.setting (settles_orderOf selector) horderSub order_eq).bind fun order => ?_
      refine (h.byTimeframe_safe hall (fun e he => List.append_subset.mp fun remark hremark => ?_)
        (List.Subset.refl _) _).bind fun _ => .pure _
      exact hblocksSub (List.mem_flatMap.mpr ⟨e, he, hremark⟩)
    | null | bool _ | int _ | real _ | str _ | arr _ =>
      exact safe_stop (h.refuse (fun hc => Review.not_clean_error (hc.mono hsub)) _ _ _)

end Selection

/-- **The section of the choice** can be passed. -/
theorem selection_safe (hsub : w.selection root ⊆ noted) :
    Safe stops known (assembleSelection rules root) := by
  have hsettled : Safe stops known (selectorOf root) := by
    refine h.setting (settles_selectorOf root) hsub fun hc => ?_
    have hkey : selectorKey = "execution_selector" := rfl
    have hrest := (Review.clean_append.mp hc).2
    unfold selectorOf
    rw [hkey]
    cases hgiven : Json.given? root "execution_selector" with
    | none => exact ⟨_, rfl⟩
    | some v =>
      rw [hgiven] at hrest
      cases v with
      | obj selector => exact ⟨_, rfl⟩
      | null | bool _ | int _ | real _ | str _ | arr _ => exact absurd hrest Review.not_clean_error
  refine hsettled.bind_outcome fun selector ⟨a, a', hread⟩ => ?_
  obtain ⟨hselector, -⟩ := selectorOf_eq_ok hread
  obtain ⟨hroot, hlist, hallow, hdefault, hlayout⟩ := Review.subset_selection (w := w) hread
  refine (h.filters_safe hselector (List.Subset.trans hroot hsub)
    (List.Subset.trans hlist hsub)).bind fun _ => ?_
  refine (h.allowance_safe hselector (List.Subset.trans hallow hsub)).bind fun _ => ?_
  refine (h.setting (settles_defaultOf selector) (List.Subset.trans hdefault hsub) default_eq).bind
    fun _ => ?_
  exact (h.layout_safe hselector (List.Subset.trans hlayout hsub)).bind fun _ => .pure _

/-- **All sections can be passed**, once the named rules are read and their checks are registered. -/
theorem sections_safe {a a₁ : Assembly} (hnamed : namedRules root a = .ok (rules, a))
    (henrol : enrolChecks rules a = .ok ((), a₁)) (hknown : known ⊆ a₁.registry.names)
    (hvalidation : w.validation root ⊆ noted) (hselection : w.selection root ⊆ noted) :
    (∃ r a', assembleSections root a = .ok (r, a')) ∨
      ∃ e, assembleSections root a = .error e ∧ stops e := by
  have hrest := (h.validation_safe hvalidation).bind fun v =>
    (h.selection_safe hselection).bind fun selection =>
      h.named.bind fun _ => Safe.pure (v.1, v.2, selection)
  unfold assembleSections
  rw [bind_run_ok hnamed, bind_run_ok henrol]
  exact (hrest a₁ hknown).imp_left fun ⟨r, a', hok, _⟩ => ⟨r, a', hok⟩

end Passable

end TopDown
