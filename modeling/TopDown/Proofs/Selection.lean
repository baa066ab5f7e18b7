import Mathlib.Data.List.Induction
import TopDown.Proofs.Gate
import TopDown.Proofs.Integrity
import TopDown.Selection

/-!
# How the timeframe to enter on is chosen

A selection comes past groups of rules and checks them on the way. We give each group that can come
up a name of its own, a `TopDown.Station`, with the rules it has, the context they are checked in and
what it means that it passes. All of this is read off the book and the input alone: it does not
depend on how the selection got there.

On top of the stations stands the decision. `TopDown.Book.Chooses` has one constructor for each way in
which a selection can end, with the choice, its ground, and the stations that were passed on the way.
`TopDown.Book.select_chooses` says that this is what `TopDown.Book.select` does: some way is always
open, and whichever is open, the selection takes it and keeps exactly the stations on it that have
rules.

A group is kept under its name, so the records of two stations must not get into each other's way.
They do not, because different stations have different names (`TopDown.Station.name_injective`), and
because a station that is passed twice gives the same record again.
-/

namespace TopDown

/-! ### Stations -/

/-- A group of rules that can come up when the timeframe to enter on is chosen. -/
inductive Station where
  /-- The mandatory filters. -/
  | filters
  /-- The rules for staying on a timeframe. -/
  | stay (tf : Timeframe)
  /-- The rules for going down from a timeframe. -/
  | drop (tf : Timeframe)
  /-- The rules against going down from a timeframe. -/
  | forbid (tf : Timeframe)
  /-- The rules for staying, in the flat layout. -/
  | stayFlat
  /-- The rules for going down, in the flat layout. -/
  | dropFlat
  /-- The rules against going down, in the flat layout. -/
  | forbidFlat
  /-- The rules that let one minute be chosen. -/
  | minute
  deriving DecidableEq

/-- The groups of a timeframe. The flat layout has none. -/
def Book.groupsAt (b : Book) (tf : Timeframe) : Option Groups :=
  match b.selection.layout with
  | .byTimeframe _ groups => groups tf
  | .flat _ => none

/-- The groups of the flat layout. The layout by timeframe has none. -/
def Book.flatGroups (b : Book) : Option Groups :=
  match b.selection.layout with
  | .byTimeframe _ _ => none
  | .flat g => some g

namespace Station

/-- The name under which a group is kept. -/
def name : Station → String
  | filters => "filters_mandatory"
  | stay tf => tf.name ++ ".stay_on_if"
  | drop tf => tf.name ++ ".drop_to_lower_if_any"
  | forbid tf => tf.name ++ ".forbid_drop_to_lower_if_any"
  | stayFlat => "stay_on_15m_if"
  | dropFlat => "drop_to_5m_if_any"
  | forbidFlat => "forbid_drop_to_5m_if_any"
  | minute => "allow_1m_only_for"

/-- Every station. -/
def all : List Station :=
  [filters, stayFlat, dropFlat, forbidFlat, minute]
    ++ Timeframe.all.flatMap fun tf => [stay tf, drop tf, forbid tf]

theorem mem_all (s : Station) : s ∈ all := by
  cases s with
  | filters | stayFlat | dropFlat | forbidFlat | minute => decide
  | stay tf | drop tf | forbid tf => cases tf <;> decide

/-- **No two groups are kept under one name.** -/
theorem name_injective : Function.Injective name := by
  intro s t h
  have hnodup : (all.map name).Nodup := by decide +kernel
  exact List.inj_on_of_nodup_map hnodup (mem_all s) (mem_all t) h

variable (b : Book) (input : SelectionInput)

/-- The rules of a group. A group that the book does not have is empty. -/
def rules : Station → List Node.Id
  | filters => b.selection.filters
  | stay tf => (b.groupsAt tf).elim [] (·.stay)
  | drop tf => (b.groupsAt tf).elim [] (·.drop)
  | forbid tf => (b.groupsAt tf).elim [] (·.forbid)
  | stayFlat => b.flatGroups.elim [] (·.stay)
  | dropFlat => b.flatGroups.elim [] (·.drop)
  | forbidFlat => b.flatGroups.elim [] (·.forbid)
  | minute => b.selection.minuteRules

/-- What the rules of a group are checked in. The groups of a timeframe share their thresholds. -/
def context : Station → Context
  | filters => input.baseContext
  | stay tf | drop tf | forbid tf =>
    (input.contextOf tf).withThresholds (b.thresholds ((b.groupsAt tf).elim [] Groups.all))
  | stayFlat | dropFlat | forbidFlat => input.contextOf .m15
  | minute => input.contextOf .m1

/-- The verdicts of the rules of a group. -/
def results (s : Station) : List Labelled :=
  b.evaluateList (s.context b input) (s.rules b)

/-- **A group passes**: no mandatory filter fails, the rules for staying carry, or some rule of
another group holds. A verdict that is not decided counts for nothing. -/
def Passes (s : Station) : Prop :=
  match s with
  | filters => ∀ l ∈ s.results b input, l.verdict.missing = false → l.verdict.passed = true
  | stay _ | stayFlat => Carries (s.results b input)
  | drop _ | forbid _ | dropFlat | forbidFlat | minute =>
    ∃ l ∈ s.results b input, l.verdict.missing = false ∧ l.verdict.passed = true

/-- Whether a group passes, as the selection finds it out. -/
def passes (s : Station) : Bool :=
  let verdicts := (s.results b input).map (·.verdict)
  match s with
  | filters => !verdicts.any Verdict.fails
  | stay _ | stayFlat => Quantifier.satisfied .all verdicts
  | drop _ | forbid _ | dropFlat | forbidFlat | minute => Quantifier.satisfied .any verdicts

/-- The selection finds it out. -/
theorem passes_iff (s : Station) : s.passes b input = true ↔ s.Passes b input := by
  cases s with
  | filters =>
    unfold passes Passes
    simp [Verdict.fails]
  | stay _ | stayFlat => exact allPassed_iff _
  | drop _ | forbid _ | dropFlat | forbidFlat | minute =>
    unfold passes Passes
    simp [Quantifier.satisfied, Verdict.anyPassed, Verdict.holds]

theorem passes_eq_false {s : Station} (h : ¬s.Passes b input) : s.passes b input = false :=
  Bool.eq_false_iff.mpr fun hp => h ((passes_iff b input s).mp hp)

/-- What is kept of a group. -/
def record (s : Station) : GroupRecord :=
  ⟨s.passes b input, s.results b input⟩

/-- The groups that are kept after a station has been passed. An empty group leaves no trace. -/
def enter (kept : Table GroupRecord) (s : Station) : Table GroupRecord :=
  if (s.rules b).isEmpty then kept else Table.put s.name (s.record b input) kept

/-- The stations of a timeframe. -/
def ofTimeframe (tf : Timeframe) : List Station :=
  [stay tf, drop tf, forbid tf]

end Station

/-! ### The ways a selection can go -/

/-- **How a timeframe is chosen**: the choice, its ground, and the stations on the way. -/
inductive Book.Chooses (b : Book) (input : SelectionInput) :
    Choice → Ground → List Station → Prop
  /-- A mandatory filter fails. Nothing else is looked at. -/
  | filtersFailed (hfilters : ¬Station.filters.Passes b input) :
      Chooses b input .none .filtersFailed [.filters]
  /-- Some timeframe of the order is the first that keeps the selection. -/
  | stay {order before after : List Timeframe} {tf : Timeframe} {groups : ByTimeframe Groups}
      (hfilters : Station.filters.Passes b input)
      (hlayout : b.selection.layout = .byTimeframe order groups)
      (horder : order = before ++ tf :: after)
      (hbefore : ∀ t ∈ before, ¬(Station.stay t).Passes b input)
      (hstay : (Station.stay tf).Passes b input) :
      Chooses b input (.ofTimeframe tf) (.stay tf)
        (.filters :: before.flatMap Station.ofTimeframe ++ [.stay tf])
  /-- No timeframe keeps it, and one minute is allowed. -/
  | minute {order : List Timeframe} {groups : ByTimeframe Groups}
      (hfilters : Station.filters.Passes b input)
      (hlayout : b.selection.layout = .byTimeframe order groups)
      (horder : ∀ t ∈ order, ¬(Station.stay t).Passes b input)
      (hallowed : b.selection.allowsMinute = true) (hminute : Station.minute.Passes b input) :
      Chooses b input .m1 .minute
        (.filters :: order.flatMap Station.ofTimeframe ++ [.minute])
  /-- No timeframe keeps it, and one minute is not allowed. -/
  | fallback {order : List Timeframe} {groups : ByTimeframe Groups}
      (hfilters : Station.filters.Passes b input)
      (hlayout : b.selection.layout = .byTimeframe order groups)
      (horder : ∀ t ∈ order, ¬(Station.stay t).Passes b input)
      (hminute : b.selection.allowsMinute = true → ¬Station.minute.Passes b input) :
      Chooses b input (.ofTimeframe b.selection.default) .fallback
        (.filters :: order.flatMap Station.ofTimeframe
          ++ if b.selection.allowsMinute then [.minute] else [])
  /-- The flat layout has no rules. -/
  | noRules {g : Groups} (hfilters : Station.filters.Passes b input)
      (hlayout : b.selection.layout = .flat g) (hempty : g.all = []) :
      Chooses b input (.ofTimeframe b.selection.default) .noRules [.filters]
  /-- The rules for staying on fifteen minutes carry. -/
  | stayFlat {g : Groups} (hfilters : Station.filters.Passes b input)
      (hlayout : b.selection.layout = .flat g) (hrules : g.all ≠ [])
      (hstay : Station.stayFlat.Passes b input) :
      Chooses b input .m15 .stayFlat [.filters, .stayFlat]
  /-- A rule speaks for going down and none against it, and one minute is allowed. -/
  | minuteFlat {g : Groups} (hfilters : Station.filters.Passes b input)
      (hlayout : b.selection.layout = .flat g) (hrules : g.all ≠ [])
      (hstay : ¬Station.stayFlat.Passes b input) (hdrop : Station.dropFlat.Passes b input)
      (hforbid : ¬Station.forbidFlat.Passes b input)
      (hallowed : b.selection.allowsMinute = true) (hminute : Station.minute.Passes b input) :
      Chooses b input .m1 .minute [.filters, .stayFlat, .dropFlat, .forbidFlat, .minute]
  /-- A rule speaks for going down and none against it, and one minute is not allowed. -/
  | drop {g : Groups} (hfilters : Station.filters.Passes b input)
      (hlayout : b.selection.layout = .flat g) (hrules : g.all ≠ [])
      (hstay : ¬Station.stayFlat.Passes b input) (hdrop : Station.dropFlat.Passes b input)
      (hforbid : ¬Station.forbidFlat.Passes b input)
      (hminute : b.selection.allowsMinute = true → ¬Station.minute.Passes b input) :
      Chooses b input .m5 .drop
        ([.filters, .stayFlat, .dropFlat, .forbidFlat]
          ++ if b.selection.allowsMinute then [.minute] else [])
  /-- A rule speaks against going down. -/
  | forbid {g : Groups} (hfilters : Station.filters.Passes b input)
      (hlayout : b.selection.layout = .flat g) (hrules : g.all ≠ [])
      (hstay : ¬Station.stayFlat.Passes b input) (hforbid : Station.forbidFlat.Passes b input) :
      Chooses b input .m15 .forbid [.filters, .stayFlat, .dropFlat, .forbidFlat]
  /-- No rule speaks for anything. -/
  | fallbackFlat {g : Groups} (hfilters : Station.filters.Passes b input)
      (hlayout : b.selection.layout = .flat g) (hrules : g.all ≠ [])
      (hstay : ¬Station.stayFlat.Passes b input) (hdrop : ¬Station.dropFlat.Passes b input)
      (hforbid : ¬Station.forbidFlat.Passes b input) :
      Chooses b input (.ofTimeframe b.selection.default) .fallback
        [.filters, .stayFlat, .dropFlat, .forbidFlat]

variable {b : Book} {input : SelectionInput}

/-- **Some way is always open.** -/
theorem Book.exists_chooses (b : Book) (input : SelectionInput) :
    ∃ choice ground way, b.Chooses input choice ground way := by
  by_cases hfilters : Station.filters.Passes b input
  · cases hlayout : b.selection.layout with
    | byTimeframe order groups =>
      -- either some timeframe keeps the selection, and then a first one does, or none
      cases hfind : order.find? fun t => (Station.stay t).passes b input with
      | some tf =>
        obtain ⟨hstay, before, after, horder, hbefore⟩ := List.find?_eq_some_iff_append.mp hfind
        refine ⟨_, _, _, .stay hfilters hlayout horder ?_ ((Station.passes_iff b input _).mp hstay)⟩
        intro t ht hp
        have hnot := hbefore t ht
        rw [(Station.passes_iff b input _).mpr hp] at hnot
        cases hnot
      | none =>
        have hnone : ∀ t ∈ order, ¬(Station.stay t).Passes b input := fun t ht hp =>
          List.find?_eq_none.mp hfind t ht ((Station.passes_iff b input _).mpr hp)
        by_cases hminute : b.selection.allowsMinute = true ∧ Station.minute.Passes b input
        · exact ⟨_, _, _, .minute hfilters hlayout hnone hminute.1 hminute.2⟩
        · exact ⟨_, _, _, .fallback hfilters hlayout hnone fun ha hp => hminute ⟨ha, hp⟩⟩
    | flat g =>
      by_cases hrules : g.all = []
      · exact ⟨_, _, _, .noRules hfilters hlayout hrules⟩
      · by_cases hstay : Station.stayFlat.Passes b input
        · exact ⟨_, _, _, .stayFlat hfilters hlayout hrules hstay⟩
        · by_cases hforbid : Station.forbidFlat.Passes b input
          · exact ⟨_, _, _, .forbid hfilters hlayout hrules hstay hforbid⟩
          · by_cases hdrop : Station.dropFlat.Passes b input
            · by_cases hminute : b.selection.allowsMinute = true ∧ Station.minute.Passes b input
              · exact ⟨_, _, _,
                  .minuteFlat hfilters hlayout hrules hstay hdrop hforbid hminute.1 hminute.2⟩
              · exact ⟨_, _, _, .drop hfilters hlayout hrules hstay hdrop hforbid
                  fun ha hp => hminute ⟨ha, hp⟩⟩
            · exact ⟨_, _, _, .fallbackFlat hfilters hlayout hrules hstay hdrop hforbid⟩
  · exact ⟨_, _, _, .filtersFailed hfilters⟩

/-! ### The way that is taken -/

namespace Weigh

variable {α β : Type} {kept : Table GroupRecord}

/-- The groups that are kept after some stations have been passed. -/
def visit (b : Book) (input : SelectionInput) (way : List Station) (kept : Table GroupRecord) :
    Table GroupRecord :=
  way.foldl (Station.enter b input) kept

theorem visit_append (way way' : List Station) :
    visit b input (way ++ way') kept = visit b input way' (visit b input way kept) :=
  List.foldl_append

theorem bind_run (x : Weigh α) (f : α → Weigh β) : (x >>= f) kept = f (x kept).1 (x kept).2 := rfl

/-- **Checking a group** finds out whether it passes, and keeps it if it has rules. -/
theorem group_run {s : Station} {q : Quantifier}
    (hq : s.passes b input = q.satisfied ((s.results b input).map (·.verdict))) :
    group b q s.name (s.context b input) (s.rules b) kept =
      (s.passes b input, s.enter b input kept) := by
  unfold group Station.enter
  cases hrules : (s.rules b).isEmpty with
  | true =>
    -- without rules there is no verdict, and so no decided one
    have hresults : s.results b input = [] := by
      rw [Station.results, List.isEmpty_iff.mp hrules]
      rfl
    rw [hq, hresults]
    cases q <;> rfl
  | false =>
    rw [Station.record, hq]
    rfl

theorem filtersFail_run :
    filtersFail b input.baseContext kept =
      (!Station.filters.passes b input, Station.filters.enter b input kept) := by
  have hrules : Station.filters.rules b = b.selection.filters := rfl
  unfold filtersFail Station.enter
  rw [hrules]
  cases hempty : b.selection.filters.isEmpty with
  | true =>
    have hresults : Station.filters.results b input = [] := by
      rw [Station.results, hrules, List.isEmpty_iff.mp hempty]
      rfl
    rw [Station.passes, hresults]
    rfl
  | false =>
    rw [Station.record, Station.passes, Bool.not_not]
    rfl

theorem allowsMinute_run :
    allowsMinute b input kept =
      (b.selection.allowsMinute && Station.minute.passes b input,
        visit b input (if b.selection.allowsMinute then [.minute] else []) kept) := by
  unfold allowsMinute
  cases b.selection.allowsMinute with
  | true => exact group_run (s := .minute) rfl
  | false => rfl

/-- One minute is chosen exactly where it is allowed and its group passes. -/
theorem minute_eq_true (h : b.selection.allowsMinute = true)
    (hp : Station.minute.Passes b input) :
    (b.selection.allowsMinute && Station.minute.passes b input) = true := by
  rw [h, (Station.passes_iff b input .minute).mpr hp]
  rfl

theorem minute_eq_false
    (h : b.selection.allowsMinute = true → ¬Station.minute.Passes b input) :
    (b.selection.allowsMinute && Station.minute.passes b input) = false := by
  cases ha : b.selection.allowsMinute with
  | true => exact Station.passes_eq_false b input (h ha)
  | false => rfl

/-! ### The layout by timeframe -/

/-- **A timeframe keeps the selection** where its rules for staying carry. Where they do not, its
other groups are passed as well. -/
theorem staysOn_run {tf : Timeframe} {g : Groups} (hg : b.groupsAt tf = some g) :
    staysOn b input tf g kept =
      ((Station.stay tf).passes b input,
        visit b input
          (if (Station.stay tf).passes b input then [.stay tf] else Station.ofTimeframe tf) kept) := by
  -- the three groups of the timeframe are those of its stations, in one context
  have hcontext : (input.contextOf tf).withThresholds (b.thresholds g.all) =
      (Station.stay tf).context b input := by rw [Station.context, hg]; rfl
  have hstay (kept : Table GroupRecord) : group b .all (tf.name ++ ".stay_on_if")
      ((Station.stay tf).context b input) g.stay kept =
        ((Station.stay tf).passes b input, (Station.stay tf).enter b input kept) := by
    have hrules : g.stay = (Station.stay tf).rules b := by rw [Station.rules, hg]; rfl
    rw [hrules]
    exact group_run (s := .stay tf) rfl
  have hdrop (kept : Table GroupRecord) : group b .any (tf.name ++ ".drop_to_lower_if_any")
      ((Station.stay tf).context b input) g.drop kept =
        ((Station.drop tf).passes b input, (Station.drop tf).enter b input kept) := by
    have hrules : g.drop = (Station.drop tf).rules b := by rw [Station.rules, hg]; rfl
    rw [hrules]
    exact group_run (s := .drop tf) rfl
  have hforbid (kept : Table GroupRecord) : group b .any
      (tf.name ++ ".forbid_drop_to_lower_if_any") ((Station.stay tf).context b input) g.forbid kept =
        ((Station.forbid tf).passes b input, (Station.forbid tf).enter b input kept) := by
    have hrules : g.forbid = (Station.forbid tf).rules b := by rw [Station.rules, hg]; rfl
    rw [hrules]
    exact group_run (s := .forbid tf) rfl
  unfold staysOn
  rw [hcontext, bind_run, hstay]
  cases (Station.stay tf).passes b input with
  | true => rfl
  | false =>
    simp only [Bool.false_eq_true, if_false]
    rw [bind_run, hdrop, bind_run, hforbid]
    rfl

/-- A timeframe that has no groups is passed over. -/
theorem visit_of_none {tf : Timeframe} (hg : b.groupsAt tf = none) (kept : Table GroupRecord) :
    visit b input (Station.ofTimeframe tf) kept = kept ∧ ¬(Station.stay tf).Passes b input := by
  have hstay : (Station.stay tf).rules b = [] := by rw [Station.rules, hg]; rfl
  have hdrop : (Station.drop tf).rules b = [] := by rw [Station.rules, hg]; rfl
  have hforbid : (Station.forbid tf).rules b = [] := by rw [Station.rules, hg]; rfl
  constructor
  · simp [visit, Station.ofTimeframe, Station.enter, hstay, hdrop, hforbid]
  · rintro ⟨⟨l, hl, -⟩, -⟩
    rw [Station.results, hstay] at hl
    exact absurd hl List.not_mem_nil

/-- Timeframes that do not keep the selection are passed, one after the other. -/
theorem firstStay_skip {groups : ByTimeframe Groups} (hgroups : b.groupsAt = groups)
    {before : List Timeframe} (h : ∀ t ∈ before, ¬(Station.stay t).Passes b input)
    (rest : List Timeframe) (kept : Table GroupRecord) :
    firstStay b input groups (before ++ rest) kept =
      firstStay b input groups rest (visit b input (before.flatMap Station.ofTimeframe) kept) := by
  induction before generalizing kept with
  | nil => rfl
  | cons tf before ih =>
    have hnot := h tf List.mem_cons_self
    have hrest := fun t ht => h t (List.mem_cons_of_mem _ ht)
    rw [List.flatMap_cons, visit_append, List.cons_append, firstStay]
    cases hg : groups tf with
    | none =>
      rw [← hgroups] at hg
      rw [(visit_of_none hg _).1]
      exact ih hrest kept
    | some g =>
      rw [← hgroups] at hg
      simp only
      rw [bind_run, staysOn_run hg, Station.passes_eq_false b input hnot]
      exact ih hrest _

/-- The first timeframe that keeps the selection is found. -/
theorem firstStay_run {groups : ByTimeframe Groups} (hgroups : b.groupsAt = groups)
    {tf : Timeframe} (hstay : (Station.stay tf).Passes b input) (after : List Timeframe) :
    firstStay b input groups (tf :: after) kept =
      (some tf, visit b input [.stay tf] kept) := by
  rw [firstStay]
  cases hg : groups tf with
  | none =>
    rw [← hgroups] at hg
    exact absurd hstay (visit_of_none hg kept).2
  | some g =>
    rw [← hgroups] at hg
    simp only
    rw [bind_run, staysOn_run hg, (Station.passes_iff b input _).mpr hstay]
    rfl

/-- The layout by timeframe, where some timeframe keeps the selection. -/
theorem byTimeframe_stay {order : List Timeframe} {groups : ByTimeframe Groups}
    (hlayout : b.selection.layout = .byTimeframe order groups) {before : List Timeframe}
    (hbefore : ∀ t ∈ before, ¬(Station.stay t).Passes b input) {tf : Timeframe}
    (hstay : (Station.stay tf).Passes b input) (after : List Timeframe) :
    byTimeframe b input (before ++ tf :: after) groups kept =
      ((.ofTimeframe tf, .stay tf),
        visit b input (before.flatMap Station.ofTimeframe ++ [.stay tf]) kept) := by
  have hgroups : b.groupsAt = groups := by
    funext t
    rw [Book.groupsAt, hlayout]
  unfold byTimeframe
  rw [bind_run, firstStay_skip hgroups hbefore, firstStay_run hgroups hstay, visit_append]
  rfl

/-- The layout by timeframe, where none does. -/
theorem byTimeframe_none {order : List Timeframe} {groups : ByTimeframe Groups}
    (hlayout : b.selection.layout = .byTimeframe order groups)
    (h : ∀ t ∈ order, ¬(Station.stay t).Passes b input) :
    byTimeframe b input order groups kept =
      (if b.selection.allowsMinute && Station.minute.passes b input then (.m1, .minute)
        else (.ofTimeframe b.selection.default, .fallback),
        visit b input (order.flatMap Station.ofTimeframe
          ++ if b.selection.allowsMinute then [.minute] else []) kept) := by
  have hgroups : b.groupsAt = groups := by
    funext t
    rw [Book.groupsAt, hlayout]
  have hskip : firstStay b input groups order kept =
      (none, visit b input (order.flatMap Station.ofTimeframe) kept) := by
    have hall := firstStay_skip hgroups h [] kept
    rw [List.append_nil] at hall
    exact hall
  unfold byTimeframe
  rw [bind_run, hskip]
  show (allowsMinute b input >>= _) _ = _
  rw [bind_run, allowsMinute_run, visit_append]
  cases b.selection.allowsMinute && Station.minute.passes b input <;> rfl

/-! ### The flat layout -/

/-- **In the flat layout** the rules for staying come first, and then those for and against going
down are both passed before anything is decided. -/
theorem flat_run {g : Groups} (hlayout : b.selection.layout = .flat g) (hrules : g.all ≠ []) :
    flat b input g kept =
      if Station.stayFlat.passes b input then
        ((.m15, .stayFlat), visit b input [.stayFlat] kept)
      else
        let kept' := visit b input [.stayFlat, .dropFlat, .forbidFlat] kept
        if Station.dropFlat.passes b input && !Station.forbidFlat.passes b input then
          (if b.selection.allowsMinute && Station.minute.passes b input then (.m1, .minute)
            else (.m5, .drop),
            visit b input (if b.selection.allowsMinute then [.minute] else []) kept')
        else if Station.forbidFlat.passes b input then ((.m15, .forbid), kept')
        else ((.ofTimeframe b.selection.default, .fallback), kept') := by
  have hg : b.flatGroups = some g := by rw [Book.flatGroups, hlayout]
  have hstay (kept : Table GroupRecord) : group b .all "stay_on_15m_if" (input.contextOf .m15) g.stay
      kept = (Station.stayFlat.passes b input, Station.stayFlat.enter b input kept) := by
    have hs : g.stay = Station.stayFlat.rules b := by rw [Station.rules, hg]; rfl
    rw [hs]
    exact group_run (s := .stayFlat) rfl
  have hdrop (kept : Table GroupRecord) : group b .any "drop_to_5m_if_any" (input.contextOf .m15)
      g.drop kept = (Station.dropFlat.passes b input, Station.dropFlat.enter b input kept) := by
    have hs : g.drop = Station.dropFlat.rules b := by rw [Station.rules, hg]; rfl
    rw [hs]
    exact group_run (s := .dropFlat) rfl
  have hforbid (kept : Table GroupRecord) : group b .any "forbid_drop_to_5m_if_any"
      (input.contextOf .m15) g.forbid kept =
        (Station.forbidFlat.passes b input, Station.forbidFlat.enter b input kept) := by
    have hs : g.forbid = Station.forbidFlat.rules b := by rw [Station.rules, hg]; rfl
    rw [hs]
    exact group_run (s := .forbidFlat) rfl
  have hsome : (g.stay.isEmpty && g.drop.isEmpty && g.forbid.isEmpty) = false := by
    rw [Bool.eq_false_iff]
    intro hempty
    simp only [Bool.and_eq_true, List.isEmpty_iff] at hempty
    obtain ⟨⟨hs, hd⟩, hf⟩ := hempty
    exact hrules (by rw [Groups.all, hs, hd, hf]; rfl)
  unfold flat
  rw [hsome]
  simp only [Bool.false_eq_true, if_false]
  rw [bind_run, hstay]
  cases Station.stayFlat.passes b input with
  | true => rfl
  | false =>
    simp only [Bool.false_eq_true, if_false]
    rw [bind_run, hdrop, bind_run, hforbid]
    -- both groups have been passed; what they say decides
    cases Station.dropFlat.passes b input <;> cases Station.forbidFlat.passes b input
    case true.false =>
      simp only [Bool.not_false, Bool.and_true, if_true]
      rw [bind_run, allowsMinute_run]
      cases b.selection.allowsMinute && Station.minute.passes b input <;> rfl
    all_goals rfl

/-- Without rules the flat layout decides nothing. -/
theorem flat_run_empty {g : Groups} (hempty : g.all = []) :
    flat b input g kept = ((.ofTimeframe b.selection.default, .noRules), kept) := by
  simp only [Groups.all, List.append_eq_nil_iff] at hempty
  obtain ⟨⟨hstay, hdrop⟩, hforbid⟩ := hempty
  unfold flat
  rw [hstay, hdrop, hforbid]
  rfl

/-! ### The whole selection -/

/-- Where the filters pass, the layout decides. -/
theorem choice_of_passes (hfilters : Station.filters.Passes b input) :
    Weigh.choice b input kept =
      (match b.selection.layout with
        | .byTimeframe order groups => byTimeframe b input order groups
        | .flat g => flat b input g) (visit b input [.filters] kept) := by
  unfold Weigh.choice
  rw [bind_run, filtersFail_run, (Station.passes_iff b input _).mpr hfilters]
  rfl

/-- **The selection takes the way that is open.** -/
theorem choice_run {choice : Choice} {ground : Ground} {way : List Station}
    (h : b.Chooses input choice ground way) (kept : Table GroupRecord) :
    Weigh.choice b input kept = ((choice, ground), visit b input way kept) := by
  cases h with
  | filtersFailed hfilters =>
    unfold Weigh.choice
    rw [bind_run, filtersFail_run, Station.passes_eq_false b input hfilters]
    rfl
  | stay hfilters hlayout horder hbefore hstay =>
    rw [choice_of_passes hfilters, hlayout, horder]
    exact byTimeframe_stay hlayout hbefore hstay _
  | minute hfilters hlayout horder hallowed hminute =>
    rw [choice_of_passes hfilters, hlayout]
    simp only
    rw [byTimeframe_none hlayout horder, minute_eq_true hallowed hminute, hallowed]
    rfl
  | fallback hfilters hlayout horder hminute =>
    rw [choice_of_passes hfilters, hlayout]
    simp only
    rw [byTimeframe_none hlayout horder, minute_eq_false hminute]
    rfl
  | noRules hfilters hlayout hempty =>
    rw [choice_of_passes hfilters, hlayout]
    exact flat_run_empty hempty
  | stayFlat hfilters hlayout hrules hstay =>
    rw [choice_of_passes hfilters, hlayout]
    simp only
    rw [flat_run hlayout hrules, (Station.passes_iff b input _).mpr hstay]
    rfl
  | minuteFlat hfilters hlayout hrules hstay hdrop hforbid hallowed hminute =>
    rw [choice_of_passes hfilters, hlayout]
    simp only
    rw [flat_run hlayout hrules, Station.passes_eq_false b input hstay,
      (Station.passes_iff b input _).mpr hdrop, Station.passes_eq_false b input hforbid,
      minute_eq_true hallowed hminute, hallowed]
    rfl
  | drop hfilters hlayout hrules hstay hdrop hforbid hminute =>
    rw [choice_of_passes hfilters, hlayout]
    simp only
    rw [flat_run hlayout hrules, Station.passes_eq_false b input hstay,
      (Station.passes_iff b input _).mpr hdrop, Station.passes_eq_false b input hforbid,
      minute_eq_false hminute]
    rfl
  | forbid hfilters hlayout hrules hstay hforbid =>
    rw [choice_of_passes hfilters, hlayout]
    simp only
    rw [flat_run hlayout hrules, Station.passes_eq_false b input hstay,
      (Station.passes_iff b input _).mpr hforbid, Bool.not_true, Bool.and_false]
    rfl
  | fallbackFlat hfilters hlayout hrules hstay hdrop hforbid =>
    rw [choice_of_passes hfilters, hlayout]
    simp only
    rw [flat_run hlayout hrules, Station.passes_eq_false b input hstay,
      Station.passes_eq_false b input hdrop, Station.passes_eq_false b input hforbid]
    rfl

end Weigh

/-! ### What is kept -/

section Kept

open Weigh

variable {way : List Station}

/-- **The groups that are kept** are those of the stations on the way that have rules, each under its
name. -/
theorem lookup_visit {name : String} {r : GroupRecord} :
    (visit b input way []).lookup name = some r ↔
      ∃ s ∈ way, s.rules b ≠ [] ∧ s.name = name ∧ s.record b input = r := by
  induction way using List.reverseRecOn with
  | nil => simp [visit]
  | append_singleton way s ih =>
    have hlast : visit b input (way ++ [s]) [] = s.enter b input (visit b input way []) :=
      visit_append way [s]
    rw [hlast, Station.enter]
    split
    · rename_i hempty
      rw [ih]
      constructor
      · rintro ⟨t, ht, hrest⟩
        exact ⟨t, List.mem_append_left _ ht, hrest⟩
      · rintro ⟨t, ht, hrules, hrest⟩
        rcases List.mem_append.mp ht with ht | ht
        · exact ⟨t, ht, hrules, hrest⟩
        · rw [List.mem_singleton.mp ht] at hrules
          exact absurd (List.isEmpty_iff.mp hempty) hrules
    · rename_i hrules
      have hrules : s.rules b ≠ [] := fun h => hrules (List.isEmpty_iff.mpr h)
      rw [Table.lookup_put]
      split
      · rename_i hname
        rw [Option.some.injEq]
        constructor
        · intro hr
          exact ⟨s, by simp, hrules, hname.symm, hr⟩
        · rintro ⟨t, -, -, ht, hr⟩
          -- a station that was passed before under this name is the same one
          obtain rfl : t = s := Station.name_injective (ht.trans hname)
          exact hr
      · rename_i hname
        rw [ih]
        constructor
        · rintro ⟨t, ht, hrest⟩
          exact ⟨t, List.mem_append_left _ ht, hrest⟩
        · rintro ⟨t, ht, htrules, htname, hr⟩
          rcases List.mem_append.mp ht with ht | ht
          · exact ⟨t, ht, htrules, htname, hr⟩
          · rw [List.mem_singleton.mp ht] at htname
            exact absurd htname.symm hname

theorem ordered_visit : Table.Ordered (visit b input way []) := by
  induction way using List.reverseRecOn with
  | nil => exact List.Pairwise.nil
  | append_singleton way s ih =>
    have hlast : visit b input (way ++ [s]) [] = s.enter b input (visit b input way []) :=
      visit_append way [s]
    rw [hlast, Station.enter]
    split
    · exact ih
    · exact ih.put _ _

/-- A selection breaks down exactly where a rule on its way does. -/
theorem firstCrash_visit :
    Verdict.firstCrash ((visit b input way []).flatMap fun g => g.2.results.map (·.verdict)) =
      none ↔ ∀ s ∈ way, ∀ l ∈ s.results b input, l.verdict.crash = none := by
  rw [Verdict.firstCrash_eq_none]
  constructor
  · intro h s hs l hl
    by_cases hrules : s.rules b = []
    · rw [Station.results, hrules] at hl
      exact absurd hl List.not_mem_nil
    · have hkept : (visit b input way []).lookup s.name = some (s.record b input) :=
        lookup_visit.mpr ⟨s, hs, hrules, rfl, rfl⟩
      exact h _ (List.mem_flatMap.mpr
        ⟨_, Table.mem_of_lookup hkept, List.mem_map_of_mem hl⟩)
  · intro h v hv
    obtain ⟨⟨name, r⟩, he, hv⟩ := List.mem_flatMap.mp hv
    obtain ⟨l, hl, rfl⟩ := List.mem_map.mp hv
    obtain ⟨s, hs, -, -, rfl⟩ := lookup_visit.mp (Table.lookup_of_mem ordered_visit.nodup he)
    exact h s hs l hl

end Kept

/-! ### Decisions -/

/-- The rules of a station are rules that the book lists. -/
theorem Station.rules_subset (s : Station) : s.rules b ⊆ b.ids := by
  intro id hid
  refine List.mem_append_right _ ?_
  have hgroups (tf : Timeframe) (f : Groups → List Node.Id) (hf : ∀ g, f g ⊆ g.all)
      (hid : id ∈ (b.groupsAt tf).elim [] f) : id ∈ b.selection.ids := by
    cases hg : b.groupsAt tf with
    | none =>
      rw [hg] at hid
      exact absurd hid List.not_mem_nil
    | some g =>
      rw [hg] at hid
      refine List.mem_append_right _ ?_
      unfold Book.groupsAt at hg
      cases hlayout : b.selection.layout with
      | byTimeframe order groups =>
        rw [hlayout] at hg
        exact ByTimeframe.mem_ids.mpr ⟨tf, g, hg, hf g hid⟩
      | flat g' =>
        rw [hlayout] at hg
        cases hg
  have hflat (f : Groups → List Node.Id) (hf : ∀ g, f g ⊆ g.all)
      (hid : id ∈ b.flatGroups.elim [] f) : id ∈ b.selection.ids := by
    unfold Book.flatGroups at hid
    refine List.mem_append_right _ ?_
    cases hlayout : b.selection.layout with
    | byTimeframe order groups =>
      rw [hlayout] at hid
      exact absurd hid List.not_mem_nil
    | flat g =>
      rw [hlayout] at hid
      exact hf g hid
  have hstay (g : Groups) : g.stay ⊆ g.all := fun _ h =>
    List.mem_append_left _ (List.mem_append_left _ h)
  have hdrop (g : Groups) : g.drop ⊆ g.all := fun _ h =>
    List.mem_append_left _ (List.mem_append_right _ h)
  have hforbid (g : Groups) : g.forbid ⊆ g.all := fun _ h => List.mem_append_right _ h
  cases s with
  | filters => exact List.mem_append_left _ (List.mem_append_left _ hid)
  | minute => exact List.mem_append_left _ (List.mem_append_right _ hid)
  | stay tf => exact hgroups tf _ hstay hid
  | drop tf => exact hgroups tf _ hdrop hid
  | forbid tf => exact hgroups tf _ hforbid hid
  | stayFlat => exact hflat _ hstay hid
  | dropFlat => exact hflat _ hdrop hid
  | forbidFlat => exact hflat _ hforbid hid

/-- In a coherent book no station breaks down, if no condition does. -/
theorem Station.results_crash (hb : b.Coherent) (hsteady : b.registry.Steady) (s : Station) :
    ∀ l ∈ s.results b input, l.verdict.crash = none := by
  intro l hl
  obtain ⟨id, hid, rfl⟩ := List.mem_map.mp hl
  exact Book.evaluate_crash hb hsteady _ (hb.lists id (s.rules_subset hid))

/-- The selection of a coherent book breaks down only where a condition does. -/
theorem Book.select_steady (hb : b.Coherent) (hsteady : b.registry.Steady) (input : SelectionInput) :
    (b.select input).crash = none := by
  obtain ⟨choice, ground, way, hway⟩ := b.exists_chooses input
  have hgroups : (b.select input).groups = Weigh.visit b input way [] :=
    congrArg (·.2) (Weigh.choice_run hway [])
  rw [Decision.crash, hgroups]
  exact firstCrash_visit.mpr fun s _ => s.results_crash hb hsteady

/-- **How the timeframe to enter on is chosen**, for every compiled book and every input. Some way of
choosing is open, and whichever is open, the decision has its choice and its ground; it keeps a group
under a name exactly when that is a station on the way that has rules, with the verdicts of these
rules and whether the station passes. The selection breaks down exactly where a rule on the way does,
which cannot be where no condition of the book breaks down. -/
theorem Book.select_chooses {base : Registry} {config : Json}
    (h : Book.compile base config = .ok b) (input : SelectionInput) :
    (∃ choice ground way, b.Chooses input choice ground way) ∧
      ∀ choice ground way, b.Chooses input choice ground way →
        (b.select input).choice = choice ∧ (b.select input).ground = ground ∧
        Table.Ordered (b.select input).groups ∧
        (∀ name r, (b.select input).groups.lookup name = some r ↔
          ∃ s ∈ way, s.rules b ≠ [] ∧ s.name = name ∧
            r.results = s.results b input ∧ (r.passed = true ↔ s.Passes b input)) ∧
        ((b.select input).crash = none ↔
          ∀ s ∈ way, ∀ l ∈ s.results b input, l.verdict.crash = none) ∧
        (b.registry.Steady → (b.select input).crash = none) := by
  refine ⟨b.exists_chooses input, ?_⟩
  intro choice ground way hway
  have hrun := Weigh.choice_run hway []
  have hgroups : (b.select input).groups = Weigh.visit b input way [] := congrArg (·.2) hrun
  have hcrash : (b.select input).crash = none ↔
      ∀ s ∈ way, ∀ l ∈ s.results b input, l.verdict.crash = none := by
    rw [Decision.crash, hgroups]
    exact firstCrash_visit
  refine ⟨congrArg (·.1.1) hrun, congrArg (·.1.2) hrun, ?_, ?_, hcrash,
    fun hsteady => b.select_steady (Book.compile_coherent h) hsteady input⟩
  · rw [hgroups]
    exact ordered_visit
  · intro name r
    rw [hgroups, lookup_visit]
    refine exists_congr fun s => and_congr_right fun _ => and_congr_right fun _ =>
      and_congr_right fun _ => ?_
    rw [← Station.passes_iff, Bool.eq_iff_iff.symm]
    constructor
    · rintro rfl
      exact ⟨rfl, rfl⟩
    · obtain ⟨passed, results⟩ := r
      rintro ⟨rfl, rfl⟩
      rfl

/-! ### A selection -/

/-- A configuration that tries two timeframes, the first of which has no groups. -/
def twoTimeframes : Table Json :=
  [("execution_selector", .obj [
      ("execution_timeframes", .arr [.str "15m", .str "5m"]),
      ("per_timeframe", .obj [("5m", .obj [("stay_on_if", .arr [
        .obj [("increasing", .str "rsi"), ("n", .int 2)]])])])]),
    ("filters_mandatory", .arr [.obj [("decreasing", .str "spread_bps"), ("n", .int 2)]]),
    ("validation", .obj [("timeframe", .obj [])])]

/-- A signal for buying, with a rising index and an unknown spread. -/
def risingInput : SelectionInput :=
  ⟨.long, .ofFacts "BTCUSDT" .m1 [("rsi", .series [50.0, 60.0, 70.0])], ByTimeframe.empty⟩

/-- It is entered on five minutes, because the rules for staying on them hold; the filter could not
be decided. -/
theorem Book.select_chooses_rising : ∃ b way, Book.compile .builtin (.obj twoTimeframes) = .ok b ∧
    b.Chooses risingInput .m5 (.stay .m5) way ∧ (b.select risingInput).crash = none := by
  have hselect : ((Book.compile .builtin (.obj twoTimeframes)).toOption.map fun b =>
      ((b.select risingInput).choice, (b.select risingInput).ground,
        (b.select risingInput).crash.isNone)) = some (.m5, .stay .m5, true) := by decide +kernel
  obtain ⟨b, hb, hselect⟩ := Option.map_eq_some_iff.mp hselect
  simp only [Prod.mk.injEq, Option.isNone_iff_eq_none] at hselect
  obtain ⟨hm5, hstay, hcrash⟩ := hselect
  have hcompile := toOption_eq_some.mp hb
  obtain ⟨⟨choice, ground, way, hway⟩, hall⟩ := Book.select_chooses hcompile risingInput
  obtain ⟨hchoice, hground, -⟩ := hall choice ground way hway
  rw [hm5] at hchoice
  rw [hstay] at hground
  subst hchoice hground
  exact ⟨b, way, hcompile, hway, hcrash⟩

/-! ### A selection that breaks down -/

/-- A configuration whose mandatory filter has the longest cool-down that can be written. -/
def longCoolDown : Table Json :=
  [("execution_selector", .obj [("filters_mandatory", .arr [.obj [
      ("cool_down_bars", .int 18446744073709551615), ("field", .str "rsi"),
      ("min_gap", .int 1)]])]),
    ("validation", .obj [("timeframe", .obj [])])]

/-- A signal for buying, with two values of the index. -/
def shortSeries : SelectionInput :=
  ⟨.long, .ofFacts "BTCUSDT" .h1 [("rsi", .series [50.0, 1.0])], ByTimeframe.empty⟩

/-- **It compiles, and the selection breaks down.** The window of the filter is two bars longer than
the cool-down, and this length cannot be counted in 64 bits, whatever the series. -/
theorem Book.select_longCoolDown : ∃ b, Book.compile .builtin (.obj longCoolDown) = .ok b ∧
    (b.select shortSeries).crash ≠ none := by
  have hcrash : ((Book.compile .builtin (.obj longCoolDown)).toOption.map fun b =>
      (b.select shortSeries).crash.isSome) = some true := by decide +kernel
  obtain ⟨b, hb, hsome⟩ := Option.map_eq_some_iff.mp hcrash
  refine ⟨b, toOption_eq_some.mp hb, fun hnone => ?_⟩
  rw [hnone] at hsome
  cases hsome

end TopDown
