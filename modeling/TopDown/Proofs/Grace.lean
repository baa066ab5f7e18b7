import TopDown.Proofs.Account
import TopDown.Proofs.Compile
import TopDown.Proofs.Load

/-!
# Grace windows

The block of a timeframe writes its grace window as a count of seconds. The review asks for nothing
more than a count, so it may have 64 bits. The book keeps a duration of the clock, which has a sign
and may not be too long (`TopDown.longestGrace`), and on the way there the count is read as a signed
number. So there are three kinds of counts. One that is short enough is kept as it is written. One
near the end of the 64 bits reads as a short negative number, and a negative window never shuts its
gate. All others are no durations, and the compilation breaks down.

`TopDown.Book.compile_grace` says this of every configuration that the review passes, and says of the
steps by its book which of them the window stops. The window that counts for a timeframe is that of
the last key that spells it (`TopDown.graceFor`). `TopDown.Book.grace_unkept` is a configuration whose
window is lost in this way.
-/

namespace TopDown

/-! ### Counts that are read as signed numbers -/

/-- The longest grace window that can be kept, in seconds. -/
def longestGrace : Nat :=
  Instant.maxDuration.toNat

theorem longestGrace_eq : longestGrace = 9223372036854775 := by decide

theorem maxDuration_eq : Instant.maxDuration = 9223372036854775 := by decide

/-- A count in the upper half of the 64 bits stands for a negative number. -/
theorem toInt_toInt64 (n : UInt64) :
    n.toInt64.toInt = if n.toNat < 2 ^ 63 then (n.toNat : Int) else n.toNat - 2 ^ 64 := by
  have hcond : n.toInt64.toInt = if 2 * n.toNat < 2 ^ 64 then (n.toNat : Int)
      else (n.toNat : Int) - (2 ^ 64 : Nat) := BitVec.toInt_eq_toNat_cond n.toBitVec
  rw [hcond]
  split <;> split <;> omega

/-- **The count can be kept**: it is short enough as it is written, or as a negative number. -/
def Keepable (n : UInt64) : Prop :=
  n.toNat ≤ longestGrace ∨ UInt64.size ≤ n.toNat + longestGrace

theorem isDuration_iff (n : UInt64) : Instant.isDuration n.toInt64.toInt = true ↔ Keepable n := by
  have hlt := n.toNat_lt_size
  rw [Instant.isDuration, decide_eq_true_iff, toInt_toInt64, maxDuration_eq, Keepable,
    longestGrace_eq]
  simp only [UInt64.size] at hlt ⊢
  split <;> omega

/-- A count that can be kept is kept as it is written if it is short enough. -/
theorem toInt64_eq_iff {n : UInt64} (h : Keepable n) :
    n.toInt64.toInt = n.toNat ↔ n.toNat ≤ longestGrace := by
  rw [Keepable, longestGrace_eq] at h
  rw [toInt_toInt64, longestGrace_eq]
  simp only [UInt64.size] at h
  split <;> omega

/-- Otherwise it is kept as a negative number. -/
theorem toInt64_neg {n : UInt64} (h : Keepable n) (hlong : longestGrace < n.toNat) :
    n.toInt64.toInt < 0 := by
  have hlt := n.toNat_lt_size
  rw [Keepable, longestGrace_eq] at h
  rw [longestGrace_eq] at hlong
  rw [toInt_toInt64]
  simp only [UInt64.size] at h hlt
  split <;> omega

/-! ### Blocks -/

section Blocks

open Assemble

variable {root : Table Json} {rules : Table Rule} {a a' : Assembly}

theorem assembleBlock_grace {p : Path} {v : Json} {block : Block}
    (h : assembleBlock rules p v a = .ok (block, a')) :
    ∃ fields, v = .obj fields ∧ Keepable (writtenGrace fields) ∧
      block.graceSeconds = (writtenGrace fields).toInt64.toInt := by
  cases v with
  | obj fields =>
    obtain ⟨minBars, a₁, -, h⟩ := Assemble.bind_eq_ok.mp h
    obtain ⟨grace, a₂, hgrace, h⟩ := Assemble.bind_eq_ok.mp h
    obtain ⟨long, a₃, -, h⟩ := Assemble.bind_eq_ok.mp h
    obtain ⟨short, a₄, -, h⟩ := Assemble.bind_eq_ok.mp h
    obtain rfl := graceOf_eq_ok hgrace
    split at h
    · rename_i hduration
      obtain ⟨rfl, -⟩ := pure_eq_ok.mp h
      exact ⟨fields, rfl, (isDuration_iff _).mp hduration, rfl⟩
    · cases h
  | null | bool _ | int _ | real _ | str _ | arr _ => exact absurd h fail_ne_ok

/-- **All blocks that are assembled have windows that can be kept**, and each timeframe has that of
the key that counts. -/
theorem assembleBlocks_grace {p : Path} {fields : Table Json}
    (hfields : ∀ e ∈ fields, (Json.obj root).at? (p.key e.1) = some e.2)
    {former m : ByTimeframe Block} (h : assembleBlocks rules p former fields a = .ok (m, a')) :
    (∀ e ∈ fields, ∃ block, e.2 = .obj block ∧ Keepable (writtenGrace block)) ∧
      ByKeys fields (fun key block =>
        Keepable (writtenGrace ((Json.obj root).fieldsAt (p.key key))) ∧ block.graceSeconds =
          (writtenGrace ((Json.obj root).fieldsAt (p.key key))).toInt64.toInt) former m := by
  obtain ⟨hall, hkeys⟩ := assembleBlocks_each (fun _ _ _ _ _ => assembleBlock_grace) h
  refine ⟨fun e he => ?_, hkeys.imp ?_⟩
  · obtain ⟨-, -, written, hwritten, hkept, -⟩ := hall e he
    exact ⟨written, hwritten, hkept⟩
  · rintro key block ⟨v, hmem, written, rfl, hkept, hgrace⟩
    rw [Json.fieldsAt, hfields _ hmem]
    exact ⟨hkept, hgrace⟩

end Blocks

/-! ### Books -/

/-- The blocks of a configuration, under the keys that spell their timeframes. -/
def blocksOf (root : Table Json) : Table Json :=
  (Json.obj root).fieldsAt blocksPlace

/-- **The grace window that a configuration writes for a timeframe**, in seconds: that of the block
that counts. -/
def graceFor (root : Table Json) (tf : Timeframe) : UInt64 :=
  (spelling? (blocksOf root) tf).elim 0 fun key =>
    writtenGrace ((Json.obj root).fieldsAt (blocksPlace.key key))

/-- The grace window that a book has for a timeframe, in seconds. -/
def Book.grace (b : Book) (tf : Timeframe) : Int :=
  (b.blocks tf).elim 0 (·.graceSeconds)

section Books

variable {base : Registry} {root : Table Json} {b : Book}

/-- The places of the blocks. -/
theorem blocksOf_eq {validation blocks : Table Json}
    (hv : root.lookup "validation" = some (.obj validation))
    (hb : validation.lookup "timeframe" = some (.obj blocks)) : blocksOf root = blocks := by
  have hsection : (Json.obj root).fieldsAt [.key "validation"] = validation :=
    Json.fieldsAt_of_lookup (p := []) hv
  exact Json.fieldsAt_of_lookup (p := [.key "validation"]) (by rw [hsection, hb])

/-- **A compiled book has the windows that are written**, read as signed numbers. -/
theorem Book.compile_keepable (hordered : (Json.obj root).Ordered)
    (h : compile base (.obj root) = .ok b) :
    (∀ e ∈ blocksOf root, ∃ block, e.2 = .obj block ∧ Keepable (writtenGrace block)) ∧
      ∀ tf, Keepable (graceFor root tf) ∧ b.grace tf = (graceFor root tf).toInt64.toInt := by
  obtain ⟨rules, a₁, a₂, -, -, -, -, hvalidation, -⟩ := compile_cases h
  obtain ⟨validation, blocks, hv, hb, hm⟩ := assembleValidation_cases hvalidation
  have hblocks := blocksOf_eq hv hb
  have hplaces := at?_of_mem_fieldsAt hordered hblocks
  obtain ⟨hkept, hkeys⟩ := assembleBlocks_grace hplaces hm
  rw [← hblocks] at hkept hkeys
  refine ⟨hkept, fun tf => ?_⟩
  unfold graceFor Book.grace
  cases hs : spelling? (blocksOf root) tf with
  | none =>
    rw [hkeys.unspelt tf hs]
    exact ⟨.inl (Nat.zero_le _), rfl⟩
  | some key =>
    obtain ⟨block, hblock, hgrace⟩ := hkeys.spelt tf key hs
    rw [hblock]
    exact hgrace

/-- **Compiling what the review passes** gives a book, or stops over a grace window. -/
theorem Book.compile_safe {stops : Stop → Prop} (hclean : (review base (.obj root)).errors = [])
    (hgrace : GraceSafe stops root) : (∃ b, compile base (.obj root) = .ok b) ∨
      ∃ e, compile base (.obj root) = .error e ∧ stops e := by
  unfold review at hclean
  have hremarks := (Review.clean_append.mp (Review.clean_of_report hclean)).1
  simp only [Review.sections, Review.clean_append] at hremarks
  obtain ⟨⟨⟨hnamed, hvalidation⟩, hselection⟩, hcircles⟩ := hremarks
  have hsections := assembleSections_safe rfl hnamed hvalidation hselection hgrace
    (.inl (wellFounded_of_clean hcircles))
  rcases hsections with ⟨⟨start, blocks, selection⟩, a, hok⟩ | ⟨e, he, hstops⟩
  · exact .inl ⟨_, bind_eq_ok.mpr ⟨_, hok, rfl⟩⟩
  · exact .inr ⟨e, by rw [compile, he]; rfl, hstops⟩

/-- It gives a book exactly if all windows can be kept. -/
theorem Book.compile_iff_keepable (hclean : (review base (.obj root)).errors = [])
    (hordered : (Json.obj root).Ordered) : (∃ b, compile base (.obj root) = .ok b) ↔
      ∀ key block, (key, .obj block) ∈ blocksOf root → Keepable (writtenGrace block) := by
  constructor
  · rintro ⟨b, hb⟩ key block hmem
    obtain ⟨block', hblock, hkept⟩ := (compile_keepable hordered hb).1 _ hmem
    cases hblock
    exact hkept
  · intro hall
    have hgrace : GraceSafe (fun _ => False) root := by
      intro validation blocks key block hv hb hmem
      rw [← blocksOf_eq hv hb] at hmem
      exact .inl ((isDuration_iff _).mpr (hall key block hmem))
    rcases compile_safe hclean hgrace with hok | ⟨e, -, hnever⟩
    · exact hok
    · exact hnever.elim

end Books

/-! ### Steps -/

theorem inGraceWindow_iff_grace {b : Book} {tf : Timeframe} {now : Instant} :
    inGraceWindow b tf now = true ↔ 0 < b.grace tf ∧
      now.nanosSince (tf.barOpen now) < b.grace tf * Instant.nanosOfSecond := by
  unfold inGraceWindow Book.grace
  cases b.blocks tf with
  | none => simp
  | some block => simp

section Steps

variable {σ : Type} (source : BarSource σ) (symbol : String) (view : RunView) (tf : Timeframe)
  (w : World σ)

/-- **The step comes to its grace window**: it is not forced, there are enough bars, and no gate before
that of the window is shut. -/
inductive ComesToGrace : Prop
  /-- What the source tells the step, and the two gates. -/
  | intro {bars : List Bar} {newest : Option Bar} {last : Bar} {s s' : σ}
    (hforce : view.flags.forceRun = false)
    (hbars : source.bars symbol tf (view.book.minBars tf) w.source = (.ok bars, s))
    (henough : (view.book.minBars tf).toNat ≤ bars.length)
    (hnewest : source.last symbol tf s = (.ok newest, s'))
    (hlast : newest.or bars.getLast? = some last)
    (hfresh : freshness view last = .ok true)
    (hallows : w.switch.allows symbol tf view.now = true) : ComesToGrace

variable {source symbol view tf w}

/-- **Nothing but its grace window** stops such a step for it. -/
theorem ComesToGrace.takeStep_iff (h : ComesToGrace source symbol view tf w)
    (build : ContextBuilder) :
    (takeStep source build tf symbol view w).1 = .ok (.graceWindow tf) ↔
      inGraceWindow view.book tf view.now = true := by
  obtain ⟨hforce, hbars, henough, hnewest, hlast, hfresh, hallows⟩ := h
  rename_i bars _ last _ _
  have hstep : (takeStep source build tf symbol view w).1 =
      stepBehindBars build tf symbol view w.switch bars last := by
    simp only [takeStep, hbars, if_neg (Nat.not_lt.mpr henough), hnewest, hlast]
  have hshut : shutGate tf symbol view w.switch last =
      .ok (if inGraceWindow view.book tf view.now = true then some (.graceWindow tf) else none) := by
    rw [shutGate_eq, hfresh]
    show Except.ok _ = _
    rw [if_neg (by decide), if_neg (Bool.eq_false_iff.mp hforce), hallows, if_neg (by decide)]
  rw [hstep]
  constructor
  · intro hgrace
    by_contra hover
    rw [if_neg hover] at hshut
    -- all gates are open, so the step is a verdict or an error
    rcases stepBehindBars_cases hgrace with hsome | ⟨-, hjudged⟩
    · rw [hshut] at hsome
      cases hsome
    · simp [StepResult.Judged, StepResult.graceWindow] at hjudged
  · intro hin
    rw [stepBehindBars, hshut, if_pos hin]
    rfl

end Steps

/-! ### Windows that are kept -/

/-- **An account of the grace windows of a configuration.** -/
structure GraceAccount (base : Registry) (root : Table Json) : Prop where
  /-- If the compilation gives no book, it breaks down over a window. -/
  ends : (∃ b, Book.compile base (.obj root) = .ok b) ∨
    Book.compile base (.obj root) = .error (.crash .durationRange)
  /-- It gives a book exactly if all windows can be kept. -/
  compiles_iff : (∃ b, Book.compile base (.obj root) = .ok b) ↔
    ∀ key block, (key, .obj block) ∈ blocksOf root → Keepable (writtenGrace block)
  /-- The book has the window that is written exactly if that one is short enough. -/
  kept_iff : ∀ b, Book.compile base (.obj root) = .ok b → ∀ tf,
    (b.grace tf = (graceFor root tf).toNat ↔ (graceFor root tf).toNat ≤ longestGrace)
  /-- Otherwise it has a negative one. -/
  lost : ∀ b, Book.compile base (.obj root) = .ok b → ∀ tf,
    longestGrace < (graceFor root tf).toNat → b.grace tf < 0
  /-- A step that comes to its window before that is over stops there exactly if it is kept. -/
  quiet_iff : ∀ {σ : Type} (source : BarSource σ) (build : ContextBuilder) (symbol : String)
    (view : RunView) (tf : Timeframe) (w : World σ),
    Book.compile base (.obj root) = .ok view.book → ComesToGrace source symbol view tf w →
    view.now.nanosSince (tf.barOpen view.now)
      < (graceFor root tf).toNat * Instant.nanosOfSecond →
    ((takeStep source build tf symbol view w).1 = .ok (.graceWindow tf) ↔
      0 < (graceFor root tf).toNat ∧ (graceFor root tf).toNat ≤ longestGrace)

/-- **Grace windows are kept if they are short enough**: of every configuration that the review
passes, over any registry, the windows are accounted for. -/
theorem Book.compile_grace {base : Registry} {config : Json}
    (hclean : (review base config).errors = []) (hordered : config.Ordered) :
    ∃ root, config = .obj root ∧ GraceAccount base root := by
  cases config with
  | obj root =>
    refine ⟨root, rfl, ?_, compile_iff_keepable hclean hordered, fun b hb tf => ?_,
      fun b hb tf hlong => ?_, fun source build symbol view tf w hb hcomes hwithin => ?_⟩
    · have hgrace : GraceSafe (· = .crash .durationRange) root := fun _ _ _ _ _ _ _ => .inr rfl
      rcases compile_safe hclean hgrace with hok | ⟨e, he, rfl⟩
      · exact .inl hok
      · exact .inr he
    · obtain ⟨hkept, hgrace⟩ := (compile_keepable hordered hb).2 tf
      rw [hgrace]
      exact toInt64_eq_iff hkept
    · obtain ⟨hkept, hgrace⟩ := (compile_keepable hordered hb).2 tf
      rw [hgrace]
      exact toInt64_neg hkept hlong
    · obtain ⟨hkept, hgrace⟩ := (compile_keepable hordered hb).2 tf
      rw [hcomes.takeStep_iff, inGraceWindow_iff_grace, hgrace]
      by_cases hshort : (graceFor root tf).toNat ≤ longestGrace
      · rw [(toInt64_eq_iff hkept).mpr hshort]
        exact ⟨fun h => ⟨Int.natCast_pos.mp h.1, hshort⟩, fun h => ⟨Int.natCast_pos.mpr h.1, hwithin⟩⟩
      · have hneg := toInt64_neg hkept (Nat.not_le.mp hshort)
        exact iff_of_false (fun h => absurd h.1 hneg.asymm) fun h => hshort h.2
  | null | bool _ | int _ | real _ | str _ | arr _ =>
    exact absurd (Review.clean_of_report hclean) Review.not_clean_error

/-- The window of a minute is kept. -/
theorem Book.compile_grace_minute : (review .builtin (.obj plainConfig)).errors = [] ∧
    (Json.obj plainConfig).Ordered ∧ GraceAccount .builtin plainConfig ∧
    ∃ b, compile .builtin (.obj plainConfig) = .ok b ∧ b.grace .m15 = 60 := by
  have hclean : (review .builtin (.obj plainConfig)).errors.isEmpty = true := by decide +kernel
  have hordered : (Json.obj plainConfig).Ordered := by decide +kernel
  obtain ⟨root, hroot, haccount⟩ := compile_grace (List.isEmpty_iff.mp hclean) hordered
  cases hroot
  have hwritten : (graceFor plainConfig .m15).toNat = 60 := by decide +kernel
  obtain ⟨b, hb⟩ := haccount.compiles_iff.mpr fun key block hmem => by
    have hblocks : blocksOf plainConfig = [("15m", .obj plainBlock)] := rfl
    rw [hblocks, List.mem_singleton] at hmem
    cases hmem
    exact .inl (by decide)
  refine ⟨List.isEmpty_iff.mp hclean, hordered, haccount, b, hb, ?_⟩
  rw [(haccount.kept_iff b hb .m15).mpr (by rw [hwritten]; decide), hwritten]
  rfl

/-- A configuration with a grace window for one minute. -/
def withGrace (seconds : Int) : Table Json :=
  [("validation", .obj [("timeframe", .obj [("1m", .obj [("grace_window_secs", .int seconds),
    ("long", .arr [.str "rsi_bullish"])])])])]

/-- **Grace windows that are not kept**: the review passes the longest count, and the book has a
window of less than nothing; and it passes a count that lets the compilation break down. -/
theorem Book.grace_unkept :
    (review .builtin (.obj (withGrace 18446744073709551615))).errors = [] ∧
    (∃ b, compile .builtin (.obj (withGrace 18446744073709551615)) = .ok b ∧
      (graceFor (withGrace 18446744073709551615) .m1).toNat = 18446744073709551615 ∧
      b.grace .m1 = -1) ∧
    (review .builtin (.obj (withGrace 9223372036854776))).errors = [] ∧
    compile .builtin (.obj (withGrace 9223372036854776)) = .error (.crash .durationRange) := by
  have hclean : (review .builtin (.obj (withGrace 18446744073709551615))).errors.isEmpty = true := by
    decide +kernel
  have hclean' : (review .builtin (.obj (withGrace 9223372036854776))).errors.isEmpty = true := by
    decide +kernel
  have hgrace : ((compile .builtin (.obj (withGrace 18446744073709551615))).toOption.map fun b =>
      b.grace .m1) = some (-1) := by decide +kernel
  obtain ⟨b, hb, hgrace⟩ := Option.map_eq_some_iff.mp hgrace
  exact ⟨List.isEmpty_iff.mp hclean, ⟨b, toOption_eq_some.mp hb, by decide +kernel, hgrace⟩,
    List.isEmpty_iff.mp hclean', rfl⟩

end TopDown
