import TopDown.Proofs.Integrity
import TopDown.Selection

/-!
# Texts do not count

Some facts of a context are texts, such as the name of the run for which it was made. Contexts that
differ in their texts only have the same *figures* (`TopDown.Context.SameFigures`), and whatever can be
asked of a context for a number or a series has the same answer in both.

The conditions that are known from the start, and those that stand for checks, ask for nothing else
(`TopDown.Condition.HeedsFigures`). So the figures decide what the rules of a compiled book come to
(`TopDown.Book.evaluateList_figures`), and which timeframe is chosen to enter on
(`TopDown.Book.select_figures`).
-/

namespace TopDown

/-! ### Figures -/

/-- **Two contexts have the same figures**: they differ in texts only. -/
structure Context.SameFigures (c c' : Context) : Prop where
  /-- They are of one timeframe. -/
  timeframe : c.timeframe = c'.timeframe
  /-- They carry the same thresholds. -/
  thresholds : c.thresholds = c'.thresholds
  /-- A fact is the same in both, or a text in both. -/
  facts : ∀ key, c.get? key = c'.get? key ∨
    ∃ s s', c.get? key = some (.text s) ∧ c'.get? key = some (.text s')

namespace Context.SameFigures

variable {c c' : Context}

/-- The same thresholds may be laid over both. -/
theorem withThresholds (h : c.SameFigures c') (named : List (String × Float)) :
    (c.withThresholds named).SameFigures (c'.withThresholds named) where
  timeframe := h.timeframe
  thresholds := by
    show named.foldl _ c.thresholds = named.foldl _ c'.thresholds
    rw [h.thresholds]
  facts := h.facts

/-- The same fact may be added to both. -/
theorem withFact (h : c.SameFigures c') (key : String) (fact : Fact) :
    (c.withFact key fact).SameFigures (c'.withFact key fact) where
  timeframe := h.timeframe
  thresholds := h.thresholds
  facts k := by
    show (Table.put key fact c.facts).lookup k = (Table.put key fact c'.facts).lookup k ∨ ∃ s s',
      (Table.put key fact c.facts).lookup k = some (.text s) ∧
        (Table.put key fact c'.facts).lookup k = some (.text s')
    rw [Table.lookup_put, Table.lookup_put]
    by_cases hk : k = key
    · rw [if_pos hk, if_pos hk]
      exact .inl rfl
    · rw [if_neg hk, if_neg hk]
      exact h.facts k

/-! ### Asking -/

theorem threshold? (h : c.SameFigures c') (name : String) :
    c.threshold? name = c'.threshold? name := by
  rw [Context.threshold?, Context.threshold?, h.thresholds]

theorem thresholdOr (h : c.SameFigures c') (name : String) (default : Float) :
    c.thresholdOr name default = c'.thresholdOr name default := by
  rw [Context.thresholdOr, Context.thresholdOr, h.threshold?]

theorem storedSeries? (h : c.SameFigures c') (key : String) :
    c.storedSeries? key = c'.storedSeries? key := by
  unfold Context.storedSeries?
  rcases h.facts key with heq | ⟨s, s', hs, hs'⟩
  · rw [heq]
  · rw [hs, hs']

theorem storedNumber? (h : c.SameFigures c') (key : String) :
    c.storedNumber? key = c'.storedNumber? key := by
  unfold Context.storedNumber?
  rcases h.facts key with heq | ⟨s, s', hs, hs'⟩
  · simp only [heq, h.storedSeries?]
    cases c'.get? key with
    | some fact => cases fact <;> rfl
    | none =>
      cases c'.storedSeries? (seriesKey key) with
      | some xs => rfl
      | none =>
        cases Text.cutFirst '.' key with
        | none => rfl
        | some e =>
          -- the field is an entry of a table, and a text is no table
          rcases h.facts e.1 with htable | ⟨s, s', hs, hs'⟩
          · simp only [htable]
          · simp only [hs, hs']
  · rw [hs, hs']

theorem number (h : c.SameFigures c') (key : String) : c.number key = c'.number key := by
  rw [Context.number, Context.number, h.thresholds, h.storedNumber?]

theorem firstNumber (h : c.SameFigures c') (keys : List String) :
    c.firstNumber keys = c'.firstNumber keys := by
  rw [Context.firstNumber, Context.firstNumber, show c.number = c'.number from funext h.number]

theorem series (h : c.SameFigures c') (field : String) : c.series field = c'.series field := by
  rw [Context.series, Context.series, h.storedSeries?, h.storedSeries?]

theorem previous (h : c.SameFigures c') (field : String) :
    c.previous field = c'.previous field := by
  rw [Context.previous, Context.previous, h.number, h.series]

theorem slope (h : c.SameFigures c') (field : String) : c.slope field = c'.slope field := by
  rw [Context.slope, Context.slope, h.number, h.previous]

theorem changes (h : c.SameFigures c') (field : String) (length : UInt64) :
    c.changes field length = c'.changes field length := by
  rw [Context.changes, Context.changes, h.series]

theorem atrFraction (h : c.SameFigures c') (suffix : String) :
    c.atrFraction suffix = c'.atrFraction suffix := by
  rw [Context.atrFraction, Context.atrFraction, h.number, h.number, h.number]

theorem atrSamples (h : c.SameFigures c') (timeframes : List Timeframe) :
    c.atrSamples timeframes = c'.atrSamples timeframes := by
  simp only [Context.atrSamples, h.atrFraction, h.timeframe]

theorem operand (h : c.SameFigures c') (o : Operand) : o.value c = o.value c' := by
  cases o with
  | constant x => rfl
  | field name => exact h.number name

theorem subject (h : c.SameFigures c') (x : Subject) : x.value c = x.value c' := by
  cases x with
  | operand o => exact h.operand o
  | slope field => exact h.slope field

end Context.SameFigures

/-! ### Conditions -/

/-- **The condition heeds figures only.** -/
def Condition.HeedsFigures (k : Condition) : Prop :=
  ∀ c c' : Context, c.SameFigures c' → k c = k c'

/-- The conditions of the registry heed figures only. -/
def Registry.HeedsFigures (r : Registry) : Prop :=
  ∀ e ∈ r.entries, e.2.HeedsFigures

namespace Condition

theorem heedsFigures_onField (name : String) (fields : List String) (default : Float)
    (compare : Float → Float → Bool) : (onField name fields default compare).HeedsFigures := by
  intro c c' h
  simp only [onField, h.thresholdOr, h.firstNumber]

theorem heedsFigures_atrBelow (name : String) : (atrBelow name).HeedsFigures := by
  intro c c' h
  simp only [atrBelow, h.thresholdOr, h.number]

theorem heedsFigures_averagesAligned (name : String) (above : Bool) :
    (averagesAligned name above).HeedsFigures := by
  intro c c' h
  simp only [averagesAligned, h.thresholdOr, h.firstNumber]

theorem heedsFigures_priceBesideAverage (name : String) (above : Bool) :
    (priceBesideAverage name above).HeedsFigures := by
  intro c c' h
  simp only [priceBesideAverage, h.thresholdOr, h.number, h.firstNumber]

theorem heedsFigures_priceBesideVwap (above : Bool) : (priceBesideVwap above).HeedsFigures := by
  intro c c' h
  simp only [priceBesideVwap, h.number]

/-- The conditions that are known from the start heed figures only. -/
theorem heedsFigures_builtins : ∀ e ∈ builtins, e.2.HeedsFigures :=
  forall_builtins
    (fun name fields default compare _ => heedsFigures_onField name fields default compare)
    heedsFigures_atrBelow heedsFigures_averagesAligned heedsFigures_priceBesideAverage
    fun _ => heedsFigures_priceBesideVwap

end Condition

/-- **Checks heed figures only.** -/
theorem Check.heedsFigures (k : Check) (name : String) :
    Condition.HeedsFigures fun c => k.evaluate name c := by
  intro c c' h
  cases k with
  | compare left op right eps =>
    cases right with
    | constant x => simp only [Check.evaluate, h.subject, h.thresholdOr]
    | field f => simp only [Check.evaluate, h.subject, h.number]
  | fieldOrder direction fields =>
    have hnumber : c.number = c'.number := funext h.number
    simp only [Check.evaluate, hnumber]
  | trend direction field n eps => simp only [Check.evaluate, h.changes]
  | range min max timeframes adapts =>
    simp only [Check.evaluate, evaluateRange, h.number, h.atrSamples]
  | hysteresis field level gap coolDown fromBelow fromAbove =>
    simp only [Check.evaluate, evaluateHysteresis, h.threshold?, h.series, h.previous, h.number]
  | derivative field above below persist =>
    have hthreshold : c.thresholdOr name = c'.thresholdOr name := funext (h.thresholdOr name)
    simp only [Check.evaluate, h.changes, hthreshold]
  | bounds field min max => simp only [Check.evaluate, h.number]

theorem Registry.builtin_heedsFigures : Registry.builtin.HeedsFigures := by
  intro e he
  rcases Registry.mem_registerAll he with he | he
  · exact Condition.heedsFigures_builtins e he
  · exact absurd he List.not_mem_nil

/-- **A book that is compiled over conditions that heed figures only has only such conditions.** -/
theorem Book.compile_heedsFigures {base : Registry} {config : Json} {b : Book}
    (h : Book.compile base config = .ok b) (hbase : base.HeedsFigures) :
    b.registry.HeedsFigures := by
  rintro ⟨name, condition⟩ he
  rcases Book.compile_conditions h _ he with hold | ⟨k, hk⟩
  · exact hbase _ hold
  · have hcondition : condition = fun c => k.evaluate name c := hk
    rw [hcondition]
    exact k.heedsFigures name

/-! ### Rules -/

section Rules

variable {b : Book} {c c' : Context}

theorem Book.evaluate_figures (hb : b.registry.HeedsFigures) (h : c.SameFigures c')
    (id : Node.Id) : b.evaluate c id = b.evaluate c' id := by
  induction id using Nat.strong_induction_on with
  | _ id ih =>
    rw [Book.evaluate, Book.evaluate]
    cases b.nodes[id]? with
    | none => rfl
    | some node =>
      cases node with
      | leaf name place threshold =>
        simp only [Registry.evaluateAt, Registry.at?]
        cases he : b.registry.entries[place]? with
        | none => rfl
        | some e => exact hb e (List.mem_of_getElem? he) c c' h
      | group q label ids =>
        refine congrArg q.combine (List.map_congr_left fun m _ => ?_)
        -- a member that does not stand before its group is not checked at all
        by_cases hm : m < id
        · rw [dif_pos hm, dif_pos hm, ih m hm]
        · rw [dif_neg hm, dif_neg hm]

/-- **The figures decide what a list of rules comes to.** -/
theorem Book.evaluateList_figures (hb : b.registry.HeedsFigures) (h : c.SameFigures c')
    (roots : List Node.Id) : b.evaluateList c roots = b.evaluateList c' roots := by
  refine List.map_congr_left fun id _ => ?_
  rw [Book.evaluate_figures hb (h.withThresholds _) id]

end Rules

/-! ### Selections -/

/-- Two inputs of a selection have the same figures. -/
structure SelectionInput.SameFigures (i i' : SelectionInput) : Prop where
  /-- They are for the same side. -/
  side : i.side = i'.side
  /-- Their base contexts have the same figures. -/
  base : i.base.SameFigures i'.base
  /-- So have the contexts of each timeframe, if there are any. -/
  contexts : ∀ tf, Option.Rel Context.SameFigures (i.contexts tf) (i'.contexts tf)

section Selections

variable {b : Book} {i i' : SelectionInput}

theorem SelectionInput.SameFigures.withSide (h : i.SameFigures i') {c c' : Context}
    (hc : c.SameFigures c') : (i.withSide c).SameFigures (i'.withSide c') := by
  rw [SelectionInput.withSide, SelectionInput.withSide, h.side]
  exact hc.withFact _ _

theorem SelectionInput.SameFigures.contextOf (h : i.SameFigures i') (tf : Timeframe) :
    (i.contextOf tf).SameFigures (i'.contextOf tf) := by
  refine h.withSide ?_
  have htf := h.contexts tf
  cases hc : i.contexts tf with
  | none =>
    cases hc' : i'.contexts tf with
    | none => exact h.base
    | some c' =>
      rw [hc, hc'] at htf
      cases htf
  | some c =>
    cases hc' : i'.contexts tf with
    | none =>
      rw [hc, hc'] at htf
      cases htf
    | some c' =>
      rw [hc, hc'] at htf
      cases htf
      assumption

namespace Weigh

theorem group_figures (hb : b.registry.HeedsFigures) {c c' : Context} (h : c.SameFigures c')
    (q : Quantifier) (name : String) (rules : List Node.Id) :
    group b q name c rules = group b q name c' rules := by
  rw [group, group, Book.evaluateList_figures hb h]

theorem allowsMinute_figures (hb : b.registry.HeedsFigures) (h : i.SameFigures i') :
    allowsMinute b i = allowsMinute b i' := by
  rw [allowsMinute, allowsMinute, group_figures hb (h.contextOf .m1)]

theorem staysOn_figures (hb : b.registry.HeedsFigures) (h : i.SameFigures i') (tf : Timeframe)
    (g : Groups) : staysOn b i tf g = staysOn b i' tf g := by
  have hgroup := group_figures hb ((h.contextOf tf).withThresholds (b.thresholds g.all))
  simp only [staysOn, hgroup]

theorem firstStay_figures (hb : b.registry.HeedsFigures) (h : i.SameFigures i')
    (groups : ByTimeframe Groups) (order : List Timeframe) :
    firstStay b i groups order = firstStay b i' groups order := by
  induction order with
  | nil => rfl
  | cons tf rest ih =>
    rw [firstStay, firstStay]
    cases groups tf with
    | none => exact ih
    | some g => simp only [staysOn_figures hb h, ih]

theorem flat_figures (hb : b.registry.HeedsFigures) (h : i.SameFigures i') (g : Groups) :
    flat b i g = flat b i' g := by
  have hgroup := group_figures hb (h.contextOf .m15)
  simp only [flat, hgroup, allowsMinute_figures hb h]

theorem choice_figures (hb : b.registry.HeedsFigures) (h : i.SameFigures i') :
    choice b i = choice b i' := by
  have hbase : i.baseContext.SameFigures i'.baseContext := h.withSide h.base
  have hfilters : filtersFail b i.baseContext = filtersFail b i'.baseContext := by
    rw [filtersFail, filtersFail, Book.evaluateList_figures hb hbase]
  rw [choice, choice, hfilters]
  cases b.selection.layout with
  | byTimeframe order groups =>
    simp only [byTimeframe, firstStay_figures hb h, allowsMinute_figures hb h]
  | flat g => simp only [flat_figures hb h]

end Weigh

/-- **The figures decide which timeframe is chosen.** -/
theorem Book.select_figures (hb : b.registry.HeedsFigures) (h : i.SameFigures i') :
    b.select i = b.select i' := by
  have hbase : i.baseContext.SameFigures i'.baseContext := h.withSide h.base
  simp only [Book.select, Weigh.choice_figures hb h, hbase.number]

end Selections

end TopDown
