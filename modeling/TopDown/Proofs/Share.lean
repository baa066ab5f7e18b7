import TopDown.History.BarFiles
import TopDown.Proofs.Bind

/-!
# What a symbol has of the shared state

The runs of a batch share the kill switch and the folder of bars. Each of them looks only at a part
of this state, and changes only that part: what is switched off for its symbol, how long the symbol is
disabled, and what is kept of the symbol's files. We call it the *share* of the symbol.

An action on the state is *private* to a symbol (`TopDown.Private`) if its outcome and what it leaves
of the symbol's share depend on that share only, and if it leaves the shares of all other symbols as
they are. Private actions compose (`TopDown.Private.bind`), so we go from the bottom to the top: looking
into a file is private (`TopDown.BarFiles.private_read`), disabling a symbol is
(`TopDown.private_stepShortOfBars`), and so is a whole step
(`TopDown.secluded_ruleProcessors`).
-/

namespace TopDown

variable {σ τ α β : Type}

/-! ### Private actions -/

/-- **An action that is private to a symbol**, where `share` is what each symbol has of the state. -/
structure Private (share : String → σ → τ) (symbol : String) (f : σ → α × σ) : Prop where
  /-- The outcome and the symbol's new share depend on its old share. -/
  own : ∀ s s', share symbol s = share symbol s' →
    (f s).1 = (f s').1 ∧ share symbol (f s).2 = share symbol (f s').2
  /-- The other shares stay as they are. -/
  others : ∀ s other, other ≠ symbol → share other (f s).2 = share other s

namespace Private

variable {share : String → σ → τ} {symbol : String}

theorem pure (a : α) : Private share symbol fun s => (a, s) where
  own _ _ h := ⟨rfl, h⟩
  others _ _ _ := rfl

/-- Two private actions after each other make one. The second may depend on the outcome of the
first. -/
theorem bind {f : σ → α × σ} {g : α → σ → β × σ} (hf : Private share symbol f)
    (hg : ∀ s, Private share symbol (g (f s).1)) :
    Private share symbol fun s => g (f s).1 (f s).2 where
  own s s' h := by
    obtain ⟨hout, hshare⟩ := hf.own s s' h
    have hnext := (hg s).own (f s).2 (f s').2 hshare
    rw [hout] at hnext ⊢
    exact hnext
  others s other hne := by
    rw [(hg s).others _ other hne, hf.others s other hne]

/-- An action may be chosen by something that the symbol's share tells. -/
theorem choose {γ : Type} {pick : σ → γ} {f : γ → σ → α × σ}
    (hpick : ∀ s s', share symbol s = share symbol s' → pick s = pick s')
    (hf : ∀ c, Private share symbol (f c)) : Private share symbol fun s => f (pick s) s where
  own s s' h := by
    have hnext := (hf (pick s)).own s s' h
    rw [← hpick s s' h]
    exact hnext
  others s other hne := (hf (pick s)).others s other hne

/-- What is made of the outcome does not matter. -/
theorem map {f : σ → α × σ} (hf : Private share symbol f) (g : α → β) :
    Private share symbol fun s => (g (f s).1, (f s).2) where
  own s s' h := by
    obtain ⟨hout, hshare⟩ := hf.own s s' h
    exact ⟨congrArg g hout, hshare⟩
  others := hf.others

end Private

/-! ### The kill switch -/

namespace KillSwitch

/-- What is switched off for a symbol, and when its timed disable ends. -/
def share (symbol : String) (k : KillSwitch) : (Timeframe → Bool) × Option Instant :=
  (fun tf => k.off.contains (symbol, tf), k.disabledUntil symbol)

variable {symbol : String} {k k' : KillSwitch}

theorem allows_congr (h : k.share symbol = k'.share symbol) (tf : Timeframe) (now : Instant) :
    k.allows symbol tf now = k'.allows symbol tf now := by
  obtain ⟨hoff, huntil⟩ := Prod.mk.inj h
  have hoff : k.off.contains (symbol, tf) = k'.off.contains (symbol, tf) := congrFun hoff tf
  rw [allows, allows, hoff, huntil]

/-- The new end of a timed disable depends on the old one. -/
theorem disableUntil_share (h : k.share symbol = k'.share symbol) (t : Instant) :
    (k.disableUntil symbol t).share symbol = (k'.disableUntil symbol t).share symbol := by
  obtain ⟨hoff, huntil⟩ := Prod.mk.inj h
  refine Prod.ext hoff ?_
  show (Table.put symbol _ k.ends).lookup symbol = (Table.put symbol _ k'.ends).lookup symbol
  rw [Table.lookup_put_self, Table.lookup_put_self, huntil]

/-- Disabling a symbol does not touch another. -/
theorem disableUntil_others {other : String} (hne : other ≠ symbol) (t : Instant) :
    (k.disableUntil symbol t).share other = k.share other := by
  refine Prod.ext rfl ?_
  show (Table.put symbol _ k.ends).lookup other = k.ends.lookup other
  rw [Table.lookup_put_of_ne hne]

end KillSwitch

/-! ### The folder of bars -/

namespace BarFiles

/-- The files, and what is kept of those of a symbol. -/
def share (symbol : String) (b : BarFiles) : Disk × (Timeframe → Option (Int × List Bar)) :=
  (b.disk, fun tf => b.kept.lookup (symbol, tf))

theorem lookup_forget (symbol : String) (tf : Timeframe) (kept : KeptBars)
    (key : String × Timeframe) :
    (forget symbol tf kept).lookup key = if key = (symbol, tf) then none else kept.lookup key := by
  induction kept with
  | nil =>
    show none = _
    split <;> rfl
  | cons e rest ih =>
    obtain ⟨k, v⟩ := e
    rw [forget] at ih ⊢
    rw [List.filter_cons]
    by_cases hk : k = (symbol, tf)
    · -- the entry is forgotten
      rw [if_neg (by simp [hk]), ih]
      by_cases hkey : key = (symbol, tf)
      · rw [if_pos hkey, if_pos hkey]
      · have hb : (key == k) = false := by simp [hk, hkey]
        rw [if_neg hkey, if_neg hkey, List.lookup_cons, hb]
    · rw [if_pos (by simp [hk]), List.lookup_cons, List.lookup_cons, ih]
      by_cases hkey : key = k
      · subst hkey
        simp [hk]
      · have hb : (key == k) = false := by simp [hkey]
        rw [hb]

/-- The folder with another entry for a symbol on a timeframe, or with none. -/
def keep (symbol : String) (tf : Timeframe) (entry : Option (Int × List Bar)) (b : BarFiles) :
    BarFiles :=
  { b with kept := (entry.toList.map fun e => ((symbol, tf), e)) ++ forget symbol tf b.kept }

/-- Another entry changes the share of its symbol only, and there only what it is for. -/
theorem share_keep (symbol other : String) (tf : Timeframe) (entry : Option (Int × List Bar))
    (b : BarFiles) : share other (b.keep symbol tf entry) =
      (b.disk, fun t => if (other, t) = (symbol, tf) then entry else b.kept.lookup (other, t)) := by
  refine Prod.ext rfl (funext fun t => ?_)
  show ((entry.toList.map fun e => ((symbol, tf), e)) ++ forget symbol tf b.kept).lookup (other, t) =
    if (other, t) = (symbol, tf) then entry else b.kept.lookup (other, t)
  cases entry with
  | none =>
    exact lookup_forget symbol tf b.kept (other, t)
  | some e =>
    rw [Option.toList_some, List.map_singleton, List.singleton_append, List.lookup_cons, lookup_forget]
    by_cases h : (other, t) = (symbol, tf)
    · have hb : ((other, t) == (symbol, tf)) = true := beq_iff_eq.mpr h
      simp only [hb, if_pos h]
    · rw [beq_false_of_ne h, if_neg h, if_neg h]

variable {folder symbol : String} {tf : Timeframe}

/-- Keeping an entry for a symbol is private to it. -/
theorem private_keep (entry : Option (Int × List Bar)) (a : α) :
    Private share symbol fun b => (a, b.keep symbol tf entry) where
  own b b' h := by
    obtain ⟨hdisk, hkept⟩ := Prod.mk.inj h
    refine ⟨rfl, ?_⟩
    show share symbol (b.keep symbol tf entry) = share symbol (b'.keep symbol tf entry)
    rw [share_keep, share_keep, hdisk]
    refine Prod.ext rfl (funext fun t => ?_)
    have hlookup : b.kept.lookup (symbol, t) = b'.kept.lookup (symbol, t) := congrFun hkept t
    show (if _ then entry else b.kept.lookup (symbol, t)) =
      if _ then entry else b'.kept.lookup (symbol, t)
    rw [hlookup]
  others b other hne := by
    show share other (b.keep symbol tf entry) = share other b
    rw [share_keep]
    refine Prod.ext rfl (funext fun t => ?_)
    have hkey : (other, t) ≠ (symbol, tf) := fun h => hne (congrArg Prod.fst h)
    exact if_neg hkey

theorem private_reread (f : StoredFile) : Private share symbol (reread folder symbol tf f) := by
  unfold reread
  -- what the file says does not depend on the state
  cases parseFile folder symbol tf f.text with
  | ok bars => exact private_keep (some (f.modified, bars)) _
  | error stop => exact Private.pure _

/-- A look into a file, with what is found under its path and what is kept of it. -/
def readAs (folder symbol : String) (tf : Timeframe) :
    Found × Option (Int × List Bar) → BarFiles → Except Stop (List Bar) × BarFiles
  | (.nothing, _) => fun b => (.ok [], b.keep symbol tf none)
  | (.unreadable reason, _) => fun b => (.error (unreadable reason), b)
  | (.file f, some (modified, bars)) =>
    if modified = f.modified then fun b => (.ok bars, b) else reread folder symbol tf f
  | (.file f, none) => reread folder symbol tf f

/-- A look into a file asks for nothing else. -/
theorem read_eq (b : BarFiles) : read folder symbol tf b =
    readAs folder symbol tf (b.disk (path folder symbol tf), b.kept.lookup (symbol, tf)) b := by
  rw [read]
  cases b.disk (path folder symbol tf) with
  | nothing => rfl
  | unreadable reason => rfl
  | file f =>
    cases b.kept.lookup (symbol, tf) with
    | none => rfl
    | some e =>
      simp only [readAs]
      split <;> rfl

theorem private_readAs (c : Found × Option (Int × List Bar)) :
    Private share symbol (readAs folder symbol tf c) := by
  obtain ⟨found, kept⟩ := c
  cases found with
  | nothing => exact private_keep none _
  | unreadable reason => exact Private.pure _
  | file f =>
    cases kept with
    | none => exact private_reread f
    | some e =>
      obtain ⟨modified, bars⟩ := e
      simp only [readAs]
      split
      · exact Private.pure _
      · exact private_reread f

/-- **Looking into a file of a symbol is private to it.** -/
theorem private_read (folder symbol : String) (tf : Timeframe) :
    Private share symbol (read folder symbol tf) := by
  rw [show read folder symbol tf = _ from funext read_eq]
  refine Private.choose ?_ private_readAs
  intro b b' h
  obtain ⟨hdisk, hkept⟩ := Prod.mk.inj h
  have hlookup : b.kept.lookup (symbol, tf) = b'.kept.lookup (symbol, tf) := congrFun hkept tf
  rw [hdisk, hlookup]

end BarFiles

/-- A source of bars whose answers are private to the symbols that it is asked for. -/
structure BarSource.Secluded (source : BarSource σ) (share : String → σ → τ) : Prop where
  /-- Asking for the latest bars is private. -/
  bars : ∀ symbol tf limit, Private share symbol (source.bars symbol tf limit)
  /-- Asking for the latest bar is private. -/
  last : ∀ symbol tf, Private share symbol (source.last symbol tf)

theorem BarFiles.secluded_source (folder : String) :
    (BarFiles.source folder).Secluded BarFiles.share where
  bars symbol tf limit := (private_read folder symbol tf).map (·.map (latest limit))
  last symbol tf := (private_read folder symbol tf).map (·.map List.getLast?)

/-! ### Steps -/

/-- What a symbol has of the state that all runs share. -/
def World.share (share : String → σ → τ) (symbol : String) (w : World σ) :
    ((Timeframe → Bool) × Option Instant) × τ :=
  (w.switch.share symbol, share symbol w.source)

section Steps

variable {share : String → σ → τ} {symbol : String}

/-- What is private in the source of bars is private in the whole state. -/
theorem Private.ofSource {f : σ → α × σ} (hf : Private share symbol f) :
    Private (World.share share) symbol fun w =>
      ((f w.source).1, { w with source := (f w.source).2 }) where
  own w w' h := by
    obtain ⟨hswitch, hsource⟩ := Prod.mk.inj h
    obtain ⟨hout, hshare⟩ := hf.own _ _ hsource
    exact ⟨hout, Prod.ext hswitch hshare⟩
  others w other hne := Prod.ext rfl (hf.others _ other hne)

/-- Disabling a symbol for want of bars is private to it. -/
theorem private_stepShortOfBars (tf : Timeframe) (view : RunView) (needed available : Nat) :
    Private (World.share share) symbol (stepShortOfBars tf symbol view needed available) := by
  unfold stepShortOfBars KillSwitch.disableFor
  -- whether the end of the disable can be told does not depend on the state
  cases view.now.later (shortfallSeconds tf needed available) with
  | error crash => exact Private.pure _
  | ok t =>
    constructor
    · intro w w' h
      obtain ⟨hswitch, hsource⟩ := Prod.mk.inj h
      exact ⟨rfl, Prod.ext (KillSwitch.disableUntil_share hswitch t) hsource⟩
    · intro w other hne
      exact Prod.ext (KillSwitch.disableUntil_others hne t) rfl

/-- The gates behind the first look at what is switched off for the symbol, and change nothing. -/
theorem private_stepBehindBars (build : ContextBuilder) (tf : Timeframe) (view : RunView)
    (bars : List Bar) (last : Bar) : Private (World.share share) symbol fun w : World σ =>
      (stepBehindBars build tf symbol view w.switch bars last, w) where
  own w w' h := by
    refine ⟨?_, h⟩
    unfold stepBehindBars shutGate
    rw [KillSwitch.allows_congr (Prod.mk.inj h).1]
  others _ _ _ := rfl

/-- The step once the newest bar has been asked for. -/
def stepWithNewest (build : ContextBuilder) (tf : Timeframe) (symbol : String) (view : RunView)
    (bars : List Bar) : Except Stop (Option Bar) → World σ → Except Crash StepResult × World σ
  | .error stop => fun w => (StepResult.ofStop tf stop, w)
  | .ok newest =>
    match newest.or bars.getLast? with
    | none => fun w => (.ok (.skipped tf .insufficientData), w)
    | some last => fun w => (stepBehindBars build tf symbol view w.switch bars last, w)

/-- The step once the bars have been asked for. -/
def stepWithBars (source : BarSource σ) (build : ContextBuilder) (tf : Timeframe) (symbol : String)
    (view : RunView) : Except Stop (List Bar) → World σ → Except Crash StepResult × World σ
  | .error stop => fun w => (StepResult.ofStop tf stop, w)
  | .ok bars =>
    if bars.length < (view.book.minBars tf).toNat then
      stepShortOfBars tf symbol view (view.book.minBars tf).toNat bars.length
    else fun w =>
      let newest := source.last symbol tf w.source
      stepWithNewest build tf symbol view bars newest.1 { w with source := newest.2 }

theorem takeStep_eq (source : BarSource σ) (build : ContextBuilder) (tf : Timeframe)
    (view : RunView) (w : World σ) : takeStep source build tf symbol view w =
      let bars := source.bars symbol tf (view.book.minBars tf) w.source
      stepWithBars source build tf symbol view bars.1 { w with source := bars.2 } := by
  rw [takeStep]
  rcases source.bars symbol tf (view.book.minBars tf) w.source with ⟨_ | bars, s⟩
  · rfl
  · simp only [stepWithBars]
    split
    · rfl
    · dsimp only
      rcases source.last symbol tf s with ⟨_ | newest, s⟩
      · rfl
      · simp only [stepWithNewest]
        cases newest.or bars.getLast? <;> rfl

theorem private_stepWithNewest (build : ContextBuilder) (tf : Timeframe) (view : RunView)
    (bars : List Bar) (answer : Except Stop (Option Bar)) :
    Private (World.share share) symbol
      (stepWithNewest (σ := σ) build tf symbol view bars answer) := by
  cases answer with
  | error stop => exact Private.pure _
  | ok newest =>
    simp only [stepWithNewest]
    cases newest.or bars.getLast? with
    | none => exact Private.pure _
    | some last => exact private_stepBehindBars build tf view bars last

theorem private_stepWithBars {source : BarSource σ} (hsource : source.Secluded share)
    (build : ContextBuilder) (tf : Timeframe) (view : RunView) (answer : Except Stop (List Bar)) :
    Private (World.share share) symbol (stepWithBars source build tf symbol view answer) := by
  cases answer with
  | error stop => exact Private.pure _
  | ok bars =>
    simp only [stepWithBars]
    split
    · exact private_stepShortOfBars tf view _ _
    · exact (hsource.last symbol tf).ofSource.bind fun w => private_stepWithNewest build tf view bars _

/-- **A step of a symbol is private to it**, if what its source of bars does is. -/
theorem private_takeStep {source : BarSource σ} (hsource : source.Secluded share)
    (build : ContextBuilder) (tf : Timeframe) (view : RunView) :
    Private (World.share share) symbol (takeStep source build tf symbol view) := by
  rw [show takeStep source build tf symbol view = _ from funext (takeStep_eq source build tf view)]
  exact (hsource.bars symbol tf (view.book.minBars tf)).ofSource.bind fun w =>
    private_stepWithBars hsource build tf view _

end Steps

/-- **Processors that keep to themselves**: what one does for a symbol is private to the symbol. -/
def Secluded (processors : ByTimeframe (Processor σ)) (share : String → σ → τ) : Prop :=
  ∀ tf process, processors tf = some process → ∀ symbol view,
    Private share symbol (process symbol view)

/-- The processors that take steps by the rules keep to themselves. -/
theorem secluded_ruleProcessors {share : String → σ → τ} {source : BarSource σ}
    (hsource : source.Secluded share) (build : ContextBuilder) :
    Secluded (ruleProcessors source build) (World.share share) := by
  intro tf process hp symbol view
  cases hp
  exact private_takeStep hsource build tf view

end TopDown
