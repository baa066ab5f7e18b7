import TopDown.Proofs.Filters
import TopDown.Proofs.Force

/-!
# Clean reports cover the cascade

A review warns of every timeframe of the cascade that has no block of rules, and of every block
without rules. It looks at the keys as they are written, while a book has one block for each
timeframe, whichever of the keys that spell it comes last; and a block of the book is empty when its
lists of *nodes* are. So it is not plain that a configuration without warnings is one whose cascade
never lacks rules.

Two walks meet here. The review counts the items of the lists (`TopDown.Review.listLength`) and the
assembly makes one node of each (`TopDown.listAt_length`), so that in every block something is left
(`TopDown.assembleBlocks_filled`), and every timeframe that is spelt has a block. Hence the rules
cover the sequence of a compiled book (`TopDown.Book.compile_covers`). From there on we follow a run:
a step whose timeframe has a block with rules does not end for want of rules, whatever the gates, the
source of bars and the builder of contexts do (`TopDown.takeStep_ruled`), and the words of a fault are
never taken for that reason (`TopDown.Fault.message_ne_noRules`). `TopDown.Run.complete_covered` puts
both halves together.
-/

namespace TopDown

/-! ### Reviews without warnings -/

namespace Review

/-- There is no warning among the remarks. -/
def Quiet (remarks : List Remark) : Prop :=
  ∀ f, Remark.warning f ∉ remarks

@[simp] theorem quiet_append {a b : List Remark} : Quiet (a ++ b) ↔ Quiet a ∧ Quiet b := by
  simp [Quiet, forall_and]

@[simp] theorem quiet_flatMap {α : Type} {xs : List α} {f : α → List Remark} :
    Quiet (xs.flatMap f) ↔ ∀ x ∈ xs, Quiet (f x) := by
  simp only [Quiet, List.mem_flatMap]
  exact ⟨fun h x hx e he => h e ⟨x, hx, he⟩, fun h e ⟨x, hx, he⟩ => h x hx e he⟩

@[simp] theorem not_quiet_warning {p : Path} {flaw : Flaw} : ¬Quiet (warning p flaw) :=
  fun h => h _ List.mem_cons_self

/-- A report without warnings comes of quiet remarks. -/
theorem quiet_of_report {remarks : List Remark} (h : (report remarks).warnings = []) :
    Quiet remarks := by
  intro f hf
  have hmem : f ∈ (report remarks).warnings := List.mem_filterMap.mpr ⟨.warning f, hf, rfl⟩
  rw [h] at hmem
  cases hmem

variable {w : Review}

/-- A block without a warning has rules. -/
theorem listLength_of_quiet {p : Path} {fields : Table Json} (h : Quiet (w.block p (.obj fields))) :
    listLength (fields.lookup "long") + listLength (fields.lookup "short") ≠ 0 := by
  intro hempty
  simp only [block, quiet_append] at h
  obtain ⟨⟨⟨-, hwarned⟩, -⟩, -⟩ := h
  rw [if_pos hempty] at hwarned
  exact not_quiet_warning hwarned

/-- Where no timeframe is reported as left out, every timeframe of the cascade is spelt. -/
theorem spelt_of_quiet {start : Timeframe} {blocks : Table Json} (h : Quiet (uncovered start blocks))
    {tf : Timeframe} (htf : tf ∈ start.sequence) :
    ∃ key ∈ blocks.names, Timeframe.parse? key = some tf := by
  by_contra hno
  have hleft : tf ∈ start.sequence.filter
      fun tf => !(blocks.names.filterMap Timeframe.parse?).contains tf := by
    refine List.mem_filter.mpr ⟨htf, ?_⟩
    rw [Bool.not_eq_true', List.contains_eq_mem, decide_eq_false_iff_not, List.mem_filterMap]
    exact hno
  exact not_quiet_warning (quiet_flatMap.mp h tf hleft)

/-- **A quiet section of the timeframes**: each of its blocks has rules, and each timeframe from its
start on is spelt. -/
theorem validation_quiet {root fields blocks : Table Json}
    (hv : root.lookup "validation" = some (.obj fields))
    (hb : fields.lookup "timeframe" = some (.obj blocks)) (h : Quiet (w.validation root))
    {start : Timeframe}
    (hstart : (Json.given? fields "start_from_timeframe").elim (some .h4) timeframe? = some start) :
    (∀ key block, (key, Json.obj block) ∈ blocks →
      listLength (block.lookup "long") + listLength (block.lookup "short") ≠ 0) ∧
    ∀ tf ∈ start.sequence, ∃ key ∈ blocks.names, Timeframe.parse? key = some tf := by
  simp only [validation, hv, hb, Review.blocks, hstart, quiet_append, quiet_flatMap] at h
  obtain ⟨-, hblocks, hcovered⟩ := h
  exact ⟨fun key block hmem => listLength_of_quiet (hblocks _ hmem).2,
    fun tf htf => spelt_of_quiet hcovered htf⟩

end Review

/-! ### As many nodes as rules -/

open Assemble

variable {rules : Table Rule} {a a' : Assembly}

theorem assembleMembers_length {named : String → Path → Assemble Node.Id} {p : Path} {i : Nat}
    {rs : List Rule} {ids : List Node.Id}
    (h : assembleMembers named rules p i rs a = .ok (ids, a')) : ids.length = rs.length := by
  induction rs generalizing i ids a a' with
  | nil =>
    rw [assembleMembers] at h
    obtain ⟨rfl, -⟩ := pure_eq_ok.mp h
    rfl
  | cons r rest ih =>
    rw [assembleMembers] at h
    obtain ⟨id, a₁, -, h₁⟩ := Assemble.bind_eq_ok.mp h
    obtain ⟨ids', a₂, hrest, h₂⟩ := Assemble.bind_eq_ok.mp h₁
    obtain ⟨rfl, -⟩ := pure_eq_ok.mp h₂
    rw [List.length_cons, List.length_cons, ih hrest]

/-- **A list becomes as many nodes as the review counts in it.** -/
theorem listAt_length {p : Path} {fields : Table Json} {key : String} {ids : List Node.Id}
    (h : listAt rules p fields key a = .ok (ids, a')) :
    ids.length = Review.listLength (fields.lookup key) := by
  unfold listAt at h
  cases hv : fields.lookup key with
  | none =>
    rw [hv] at h
    obtain ⟨rfl, -⟩ := pure_eq_ok.mp h
    rfl
  | some v =>
    rw [hv] at h
    obtain ⟨rs, a₁, hread, hlist⟩ := Assemble.bind_eq_ok.mp h
    obtain ⟨hparsed, rfl⟩ := ofParsed_eq_ok hread
    rw [assembleMembers_length hlist]
    cases v with
    | arr items => exact Rule.length_of_parseItems hparsed
    | null =>
      cases hparsed
      rfl
    | bool _ | int _ | real _ | str _ | obj _ => cases hparsed

/-- A block is assembled from an object, and its lists have the lengths that the review counts. -/
theorem assembleBlock_lengths {p : Path} {v : Json} {block : Block}
    (h : assembleBlock rules p v a = .ok (block, a')) :
    ∃ fields, v = .obj fields ∧ block.long.length = Review.listLength (fields.lookup "long") ∧
      block.short.length = Review.listLength (fields.lookup "short") := by
  unfold assembleBlock at h
  cases v with
  | obj fields =>
    obtain ⟨minBars, a₁, -, h₁⟩ := Assemble.bind_eq_ok.mp h
    obtain ⟨grace, a₂, -, h₂⟩ := Assemble.bind_eq_ok.mp h₁
    obtain ⟨long, a₃, hlong, h₃⟩ := Assemble.bind_eq_ok.mp h₂
    obtain ⟨short, a₄, hshort, h₄⟩ := Assemble.bind_eq_ok.mp h₃
    split at h₄
    · obtain ⟨rfl, -⟩ := pure_eq_ok.mp h₄
      exact ⟨fields, rfl, listAt_length hlong, listAt_length hshort⟩
    · cases h₄
  | null | bool _ | int _ | real _ | str _ | arr _ => exact absurd h fail_ne_ok

theorem Block.isEmpty_eq_false {block : Block} (h : block.long.length + block.short.length ≠ 0) :
    block.isEmpty = false := by
  rw [isEmpty, Bool.and_eq_false_iff, List.isEmpty_eq_false_iff, List.isEmpty_eq_false_iff]
  by_contra hno
  obtain ⟨hlong, hshort⟩ := not_or.mp hno
  exact h (by rw [not_not.mp hlong, not_not.mp hshort]; rfl)

/-! ### Blocks with rules -/

/-- **Every timeframe that is spelt has a block with rules**, if every object of the section has
rules. -/
theorem assembleBlocks_filled {p : Path} {fields : Table Json} {former m : ByTimeframe Block}
    (h : assembleBlocks rules p former fields a = .ok (m, a'))
    (hfilled : ∀ key block, (key, Json.obj block) ∈ fields →
      Review.listLength (block.lookup "long") + Review.listLength (block.lookup "short") ≠ 0) :
    ByKeys fields (fun _ block => block.isEmpty = false) former m := by
  induction fields generalizing a former with
  | nil =>
    obtain ⟨rfl, -⟩ := pure_eq_ok.mp h
    exact .nil _ _
  | cons e rest ih =>
    obtain ⟨key, v⟩ := e
    obtain ⟨tf, a₁, htf, h₁⟩ := Assemble.bind_eq_ok.mp h
    obtain ⟨block, a₂, hblock, h₂⟩ := Assemble.bind_eq_ok.mp h₁
    obtain ⟨hkey, rfl⟩ := timeframe_eq_ok htf
    obtain ⟨fields, rfl, hlong, hshort⟩ := assembleBlock_lengths hblock
    have hnonempty : block.isEmpty = false := by
      refine Block.isEmpty_eq_false ?_
      rw [hlong, hshort]
      exact hfilled key fields List.mem_cons_self
    exact .cons hkey hnonempty
      (ih h₂ fun key' block' hmem => hfilled key' block' (List.mem_cons_of_mem _ hmem))

/-- Of the keys that spell a timeframe one counts. -/
theorem exists_spelling {fields : Table Json} {tf : Timeframe} {key : String}
    (hmem : key ∈ fields.names) (hkey : Timeframe.parse? key = some tf) :
    ∃ key', spelling? fields tf = some key' := by
  have hfound : (fields.names.reverse.find? fun key => Timeframe.parse? key = some tf).isSome :=
    List.find?_isSome.mpr ⟨key, List.mem_reverse.mpr hmem, decide_eq_true hkey⟩
  rw [spelling?, List.findRev?_eq_find?_reverse]
  exact Option.isSome_iff_exists.mp hfound

/-- A timeframe that the assembly has read is the one that the review reads. -/
theorem timeframe_eq_read {area key : String} {v : Json} {tf : Timeframe}
    (h : Assemble.timeframe area key v a = .ok (tf, a')) : Review.timeframe? v = some tf := by
  unfold Assemble.timeframe at h
  cases hread : v.asText?.bind Timeframe.parse? with
  | none =>
    rw [hread] at h
    exact absurd h fail_ne_ok
  | some tf' =>
    rw [hread] at h
    obtain ⟨rfl, -⟩ := pure_eq_ok.mp h
    exact hread

/-- The start of a cascade is read as the review reads it. -/
theorem assembleValidation_start {root fields blocks : Table Json} {start : Timeframe}
    {m : ByTimeframe Block} (hv : root.lookup "validation" = some (.obj fields))
    (hb : fields.lookup "timeframe" = some (.obj blocks))
    (h : assembleValidation rules root a = .ok ((start, m), a')) :
    (Json.given? fields "start_from_timeframe").elim (some .h4) Review.timeframe? = some start := by
  unfold assembleValidation at h
  rw [hv] at h
  obtain ⟨start', a₁, hstart, h₁⟩ := Assemble.bind_eq_ok.mp h
  rw [hb] at h₁
  obtain ⟨m', a₂, -, h₂⟩ := Assemble.bind_eq_ok.mp h₁
  cases h₂
  unfold startOf at hstart
  cases hgiven : Json.given? fields "start_from_timeframe" with
  | none =>
    rw [hgiven] at hstart
    obtain ⟨rfl, -⟩ := pure_eq_ok.mp hstart
    rfl
  | some v =>
    rw [hgiven] at hstart
    exact timeframe_eq_read hstart

/-- **The rules cover the sequence**: each of its timeframes has a block, and the block has rules. -/
def Book.Covers (b : Book) : Prop :=
  ∀ tf ∈ b.start.sequence, ∃ block, b.blocks tf = some block ∧ block.isEmpty = false

/-- **A configuration without warnings covers its cascade**, if it compiles. -/
theorem Book.compile_covers {base : Registry} {config : Json} {b : Book}
    (hquiet : (review base config).warnings = []) (h : Book.compile base config = .ok b) :
    b.Covers := by
  cases config with
  | obj root =>
    obtain ⟨rules, a₁, a₂, -, -, -, -, hvalidation, -⟩ := Book.compile_cases h
    obtain ⟨fields, blocks, hv, hb, hassembled⟩ := assembleValidation_cases hvalidation
    have hremarks := Review.quiet_of_report hquiet
    simp only [Review.remarks, Review.sections, Review.quiet_append] at hremarks
    obtain ⟨⟨⟨⟨-, hsection⟩, -⟩, -⟩, -⟩ := hremarks
    obtain ⟨hfilled, hspelt⟩ :=
      Review.validation_quiet hv hb hsection (assembleValidation_start hv hb hvalidation)
    intro tf htf
    obtain ⟨key, hmem, hkey⟩ := hspelt tf htf
    obtain ⟨key', hcounts⟩ := exists_spelling hmem hkey
    exact (assembleBlocks_filled hassembled hfilled).spelt tf key' hcounts
  | null | bool _ | int _ | real _ | str _ | arr _ => cases h

/-! ### What a step ends for -/

/-- The first letter of a text is also that of a longer one. -/
theorem head_append {s : String} {c : Char} (hs : s.toList.head? = some c) (t : String) :
    (s ++ t).toList.head? = some c := by
  rw [String.toList_append, List.head?_append, hs]
  rfl

/-- **The words of a fault begin in lower case.** -/
theorem Fault.message_head (f : Fault) :
    ∃ c, f.message.toList.head? = some c ∧ c.isLower = true := by
  cases f with
  | configParse _ _ | configMissing _ _ | ruleParse _ | ruleInvalid _ | unknownCondition _ _
  | circularReference _ _ =>
    exact ⟨_, head_append (head_append (head_append rfl _) _) _, rfl⟩
  | configInvalid _ _ _ =>
    exact ⟨_, head_append (head_append (head_append (head_append (head_append rfl _) _) _) _) _, rfl⟩
  | dataSource _ => exact ⟨_, head_append rfl _, rfl⟩

/-- So they are not the code of a reason, which is in capitals. -/
theorem Fault.message_ne_noRules (f : Fault) : f.message ≠ Reason.noRules.code := by
  intro heq
  obtain ⟨c, hc, hlower⟩ := f.message_head
  have hcapital : Reason.noRules.code.toList.head? = some 'N' := by decide
  rw [heq, hcapital, Option.some.injEq] at hc
  rw [← hc] at hlower
  exact absurd hlower (by decide)

namespace StepResult

/-- The step did not end for want of rules. -/
def Ruled (step : StepResult) : Prop :=
  ∀ reason, step.endingReason = some reason → reason.code ≠ Reason.noRules.code

/-- A step with a reason ended for that one. -/
theorem ruled_of_reason {step : StepResult} {reason : Reason} (h : step.reason = some reason)
    (hcode : reason.code ≠ Reason.noRules.code) : step.Ruled := by
  intro reason' hr
  rw [endingReason, h, Option.some_or, Option.some.injEq] at hr
  exact hr ▸ hcode

/-- What is at fault is no want of rules. -/
theorem ruled_of_ofStop {tf : Timeframe} {stop : Stop} {step : StepResult}
    (h : ofStop tf stop = .ok step) : step.Ruled := by
  cases stop with
  | fault f =>
    cases h
    intro reason hr
    cases hr
    exact f.message_ne_noRules
  | crash c => cases h

end StepResult

theorem judge_ruled (tf : Timeframe) (long short : List Labelled) :
    (judge tf long short).Ruled := by
  unfold judge
  dsimp only
  split
  · exact StepResult.ruled_of_reason rfl (by decide)
  · intro reason hr
    cases hr

/-- The rules of a block are checked, if it has any. -/
theorem checkRules_ruled {b : Book} {tf : Timeframe} {c : Context} {block : Block}
    {step : StepResult} (hb : b.blocks tf = some block) (hne : block.isEmpty = false)
    (h : checkRules b tf c = .ok step) : step.Ruled := by
  simp only [checkRules, hb, hne, Bool.false_eq_true, if_false] at h
  split at h
  · cases h
  · cases h
    exact judge_ruled tf _ _

section Steps

variable {σ : Type} {source : BarSource σ} {build : ContextBuilder} {tf : Timeframe}
  {symbol : String} {view : RunView} {block : Block} {step : StepResult}
  (hb : view.book.blocks tf = some block) (hne : block.isEmpty = false)
include hb hne

theorem stepBehindBars_ruled {switch : KillSwitch} {bars : List Bar} {last : Bar}
    (h : stepBehindBars build tf symbol view switch bars last = .ok step) : step.Ruled := by
  unfold stepBehindBars at h
  obtain ⟨shut, hshut, h⟩ := bind_eq_ok.mp h
  cases shut with
  | some result =>
    cases h
    rcases shutGate_cases hshut with rfl | rfl | rfl <;>
      exact StepResult.ruled_of_reason rfl (by decide)
  | none =>
    cases hbuild : build symbol tf bars view.runId view.prior with
    | error stop =>
      simp only [hbuild] at h
      exact StepResult.ruled_of_ofStop h
    | ok c =>
      simp only [hbuild] at h
      obtain ⟨result, hcheck, h⟩ := bind_eq_ok.mp h
      cases h
      -- what is added to the result is no reason
      have hruled : result.Ruled := checkRules_ruled hb hne hcheck
      exact hruled

/-- **A step whose timeframe has rules does not end for want of them**, whatever becomes of it. -/
theorem takeStep_ruled {w w' : World σ}
    (h : takeStep source build tf symbol view w = (.ok step, w')) : step.Ruled := by
  unfold takeStep at h
  rcases hbars : source.bars symbol tf (view.book.minBars tf) w.source with ⟨answer, s₁⟩
  cases answer with
  | error stop =>
    simp only [hbars, Prod.mk.injEq] at h
    exact StepResult.ruled_of_ofStop h.1
  | ok bars =>
    simp only [hbars] at h
    split at h
    · -- too few bars
      unfold stepShortOfBars at h
      split at h
      · cases h
        exact StepResult.ruled_of_reason rfl (by decide)
      · cases h
    · rcases hlast : source.last symbol tf s₁ with ⟨answer, s₂⟩
      cases answer with
      | error stop =>
        simp only [hlast, Prod.mk.injEq] at h
        exact StepResult.ruled_of_ofStop h.1
      | ok newest =>
        simp only [hlast] at h
        split at h
        · cases h
          exact StepResult.ruled_of_reason rfl (by decide)
        · rw [Prod.mk.injEq] at h
          exact stepBehindBars_ruled hb hne h.1

end Steps

/-! ### What a run ends for -/

/-- The way down from a finer timeframe is a part of that from a coarser one. -/
theorem Timeframe.sequence_subset {tf tf' : Timeframe} (h : tf.rank ≤ tf'.rank) :
    tf'.sequence ⊆ tf.sequence := by
  cases tf <;> cases tf' <;> first | exact absurd h (by decide) | decide

namespace Run

variable {σ : Type} {source : BarSource σ} {build : ContextBuilder} {b : Book}
  {options : RunOptions} {symbol : String} {runId : RunId} {w w' : World σ}

/-- No step of a chain ends for want of rules where all of its timeframes have them. -/
theorem Attempts.ruled {view : RunView} {tfs : List Timeframe} {steps : List StepResult}
    (h : Attempts (ruleProcessors source build) symbol view tfs w steps w')
    (hcovers : ∀ tf ∈ tfs, ∃ block, view.book.blocks tf = some block ∧ block.isEmpty = false) :
    ∀ step ∈ steps, step.Ruled := by
  induction h with
  | nil =>
    intro step hstep
    cases hstep
  | cons hfirst _ ih =>
    intro step hstep
    rcases List.mem_cons.mp hstep with rfl | hstep
    · cases hfirst with
      | answered hp hok =>
        cases hp
        obtain ⟨block, hb, hne⟩ := hcovers _ List.mem_cons_self
        exact takeStep_ruled hb hne hok
      | broken _ _ => exact StepResult.ruled_of_reason rfl (by decide)
      | unattended _ => exact StepResult.ruled_of_reason rfl (by decide)
    · exact ih (fun tf htf => hcovers tf (List.mem_cons_of_mem _ htf)) step hstep

/-- A code of misalignment is not that of a want of rules. -/
theorem code_misaligned_ne (tf parent : Timeframe) :
    (Reason.misaligned tf parent).code ≠ Reason.noRules.code := by
  cases tf <;> cases parent <;> decide

/-- A run does not end for want of rules if none of its steps does. -/
theorem Ends.ruled {before : List StepResult} {tf : Timeframe} {rest : List Timeframe}
    {step : StepResult} {known : List KnownSignal} {ending : Ending} (hstep : step.Ruled)
    (h : Ends before tf rest step known ending) {r : Run} {reason : Reason}
    (hreason : (r.resultOf ending).reason = some reason) : reason.code ≠ Reason.noRules.code := by
  cases h with
  | refused _ _ => exact hstep reason hreason
  | misaligned _ _ _ _ =>
    cases hreason
    exact code_misaligned_ne _ _
  | agreed _ _ _ =>
    unfold endingAt at hreason
    split at hreason
    · cases hreason
    · cases hreason
      decide

/-- **A clean report covers the cascade.** Where the review of a configuration finds nothing, no run by
its rules that starts where the configuration says or on a finer timeframe ends for want of rules,
nor does any of its steps; and the same is true of the report that is made of the run. -/
theorem complete_covered {base : Registry} {config : Json}
    (hclean : (review base config).isClean = true) (hb : Book.compile base config = .ok b)
    (hstart : b.start.rank ≤ (options.start.getD b.start).rank) {r : Run}
    {records : List AuditRecord}
    (h : (Run.begin symbol runId b options).complete (ruleProcessors source build) b options w =
      (r, records, w')) :
    (∀ step ∈ r.steps, step.Ruled) ∧
      (∀ reason, r.result.reason = some reason → reason.code ≠ "NO_RULES_CONFIGURED") ∧
      ∀ report, Pipeline.report b r = .ok report → ∀ reason, report.result.reason = some reason →
        reason.code ≠ "NO_RULES_CONFIGURED" := by
  have hquiet : (review base config).warnings = [] := by
    rw [Report.isClean, Bool.and_eq_true, List.isEmpty_iff, List.isEmpty_iff] at hclean
    exact hclean.2
  have hcovers : b.Covers := Book.compile_covers hquiet hb
  obtain ⟨ending, done, tf, rest, before, step, he, hseq, hsteps, hatt, -, hends⟩ :=
    (complete_finished h).ending
  have hruled : ∀ step ∈ r.steps, step.Ruled := by
    refine hatt.ruled fun tf' htf' => hcovers tf' (Timeframe.sequence_subset hstart ?_)
    rw [hseq, List.append_cons]
    exact List.mem_append_left _ htf'
  have hlast : step.Ruled := by
    refine hruled step ?_
    rw [hsteps]
    exact List.mem_append_right _ List.mem_cons_self
  have hresult : ∀ reason, r.result.reason = some reason → reason.code ≠ Reason.noRules.code := by
    intro reason hreason
    rw [result_eq he] at hreason
    exact hends.ruled hlast hreason
  refine ⟨hruled, hresult, fun report hreport reason hreason => hresult reason ?_⟩
  dsimp only [Pipeline.report] at hreport
  split at hreport
  · cases hreport
  · cases hreport
    -- the choice of a timeframe to enter on changes no reason
    unfold Pipeline.withChoice at hreason
    split at hreason <;> exact hreason

/-- A configuration without findings, which spells one of its timeframes twice and in capitals. -/
def coveredConfig : Json :=
  .obj [("rules", .obj [("momentum", .obj [("gt_fields", .arr [.str "ema_fast", .str "ema_slow"])])]),
    ("validation", .obj [("start_from_timeframe", .str "15M"),
      ("timeframe", .obj [
        ("15M", .obj [("long", .arr [.str "momentum"]), ("short", .arr [])]),
        ("15m", .obj [("short", .arr [.str "rsi_bearish"])]),
        ("1m", .obj [("long", .arr [.str "momentum"])]),
        ("5m", .obj [("long", .arr [.str "rsi_bullish"])])])])]

/-- A start below that of the configuration. -/
def coveredOptions : RunOptions :=
  { now := ⟨86400, 0⟩, start := some .m5 }

/-- A run from there. -/
def coveredRun (b : Book) : Run × List AuditRecord × World Unit :=
  (Run.begin "BTCUSDT" "run" b coveredOptions).complete
    (ruleProcessors Pipeline.steadySource Pipeline.emptyBuilder) b coveredOptions ⟨.clear, ()⟩

/-- It ends at its first step for another reason. -/
theorem complete_covered_spelling : (review .builtin coveredConfig).isClean = true ∧
    ∃ b, Book.compile .builtin coveredConfig = .ok b ∧ b.start = .m15 ∧
      ((coveredRun b).1.result.reason = some .insufficientData) ∧
      ∀ reason, (coveredRun b).1.result.reason = some reason →
        reason.code ≠ "NO_RULES_CONFIGURED" := by
  have hclean : (review .builtin coveredConfig).isClean = true := by decide +kernel
  have hrun : ((Book.compile .builtin coveredConfig).toOption.map fun b =>
      (b.start, (coveredRun b).1.result.reason)) = some (.m15, some .insufficientData) := by
    decide +kernel
  obtain ⟨b, hb, hends⟩ := Option.map_eq_some_iff.mp hrun
  obtain ⟨hstart, hreason⟩ := Prod.mk.inj hends
  have hcompiles : Book.compile .builtin coveredConfig = .ok b := toOption_eq_some.mp hb
  have hfiner : b.start.rank ≤ (coveredOptions.start.getD b.start).rank := by
    rw [hstart]
    decide
  obtain ⟨-, hcode, -⟩ := complete_covered hclean hcompiles hfiner
    (show _ = coveredRun b from rfl)
  exact ⟨hclean, b, hcompiles, hstart, hreason, hcode⟩

end Run

end TopDown
