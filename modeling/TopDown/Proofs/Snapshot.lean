import TopDown.Proofs.Columns

/-!
# What a snapshot reports

A snapshot makes three facts of each column, and a context answers three questions about a field by
looking for facts in several places. Here the two are put together: the answers about a column are its
newest value, the value before and all its values, where a value that is missing, infinite or
undefined is not known and is not replaced by an older one (`TopDown.Snapshot.build_reports`).

The keys of the facts are made of the names of the columns, and two columns may have a key in common.
We therefore ask that the name of a column is not that of another fact and does not read like one
(`TopDown.Snapshot.Plain`). This leaves a single clash: the series of a column `prev` and the value
before of a column `series` have the same key. It is the key `prev_series`, the second column is
written later, and which of the two is found depends on whether it has a value before. So one of them
loses its series, or is told a value of the other (`TopDown.Snapshot.build_clash`).
-/

namespace TopDown

namespace Snapshot

/-! ### Contexts of snapshots -/

/-- The keys that a snapshot fills by itself. -/
def ownKeys : List String :=
  ["ema", "atr", "symbol", "timeframe", "bar_count", "run_id"] ++
    Timeframe.all.map fun tf => "signal_" ++ tf.name

theorem previousKey_not_own (name : String) : Context.previousKey name ∉ ownKeys := by
  intro h
  have hnone : ∀ key ∈ ownKeys, ¬['p', 'r', 'e', 'v', '_'] <+: key.toList := by decide
  exact Context.ne_previousKey_iff.mpr (hnone _ h) name rfl

theorem seriesKey_not_own (name : String) : Context.seriesKey name ∉ ownKeys := by
  intro h
  have hnone : ∀ key ∈ ownKeys, ¬['_', 's', 'e', 'r', 'i', 'e', 's'] <:+ key.toList := by decide
  exact Context.ne_seriesKey_iff.mpr (hnone _ h) name rfl

/-- **The facts of the context come from the columns**, but for those that a snapshot adds by itself.
Of these a table of averages is the only table. -/
structure OfColumns (bars : List Bar) (c : Context) : Prop where
  /-- There are no thresholds. -/
  thresholds : c.thresholds = []
  /-- Keys of columns. -/
  get?_eq : ∀ key, key ∉ ownKeys → c.get? key = (columnFacts bars).lookup key
  /-- The table of averages, if there is any. -/
  averages_eq : c.get? "ema" =
    if (averages bars (extraColumns bars)).isEmpty then (columnFacts bars).lookup "ema"
    else some (.map (averages bars (extraColumns bars)))

theorem lookup_withSignals {key : String} (hkey : ∀ tf : Timeframe, key ≠ "signal_" ++ tf.name)
    (known : List KnownSignal) (facts : Table Fact) :
    (withSignals known facts).lookup key = facts.lookup key := by
  induction known generalizing facts with
  | nil => rfl
  | cons k rest ih => exact (ih _).trans (Table.lookup_put_of_ne (hkey k.timeframe) _ _)

/-- The facts of the bars, but for the average true range. -/
theorem lookup_barFacts {key : String} (hkey : key ≠ "atr") (period : Nat) (bars : List Bar) :
    (barFacts period bars).lookup key =
      (if (averages bars (extraColumns bars)).isEmpty then columnFacts bars
        else Table.put "ema" (.map (averages bars (extraColumns bars))) (columnFacts bars)).lookup
          key := by
  unfold barFacts
  extract_lets columns averages facts
  change _ = facts.lookup key
  split
  · rfl
  · split
    · exact Table.lookup_put_of_ne hkey _ _
    · rfl

/-- The facts with those that do not come from the bars. -/
def ownFacts (symbol : String) (tf : Timeframe) (count : Nat) (runId : Option String)
    (known : List KnownSignal) (facts : Table Fact) : Table Fact :=
  let facts := Table.put "symbol" (.text symbol) facts
  let facts := Table.put "timeframe" (.text tf.name) facts
  let facts := Table.put "bar_count" (.number (Float.ofNat count)) facts
  withSignals known ((runId.map fun id => Table.put "run_id" (.text id) facts).getD facts)

theorem lookup_ownFacts {key : String} (hkey : key ∈ ["ema", "atr"] ∨ key ∉ ownKeys)
    (symbol : String) (tf : Timeframe) (count : Nat) (runId : Option String)
    (known : List KnownSignal) (facts : Table Fact) :
    (ownFacts symbol tf count runId known facts).lookup key = facts.lookup key := by
  have hne {own : String} (hown : own ∈ ownKeys) (hbars : own ∉ ["ema", "atr"]) : key ≠ own := by
    rintro rfl
    exact hkey.elim hbars fun h => h hown
  have hsignal (tf : Timeframe) : key ≠ "signal_" ++ tf.name := by
    cases tf <;> exact hne (by decide) (by decide)
  unfold ownFacts
  rw [lookup_withSignals hsignal]
  cases runId with
  | none =>
    rw [Option.map_none, Option.getD_none, Table.lookup_put_of_ne (hne (by decide) (by decide)),
      Table.lookup_put_of_ne (hne (by decide) (by decide)),
      Table.lookup_put_of_ne (hne (by decide) (by decide))]
  | some id =>
    rw [Option.map_some, Option.getD_some, Table.lookup_put_of_ne (hne (by decide) (by decide)),
      Table.lookup_put_of_ne (hne (by decide) (by decide)),
      Table.lookup_put_of_ne (hne (by decide) (by decide)),
      Table.lookup_put_of_ne (hne (by decide) (by decide))]

theorem build_eq {bars : List Bar} (hbars : bars ≠ []) (period : Nat) (symbol : String)
    (tf : Timeframe) (runId : Option String) (known : List KnownSignal) :
    build period symbol tf bars runId known = .ok (Context.ofFacts symbol tf
      (ownFacts symbol tf bars.length runId known (barFacts (max 1 period) bars))) := by
  rw [build, if_neg fun h => hbars (List.isEmpty_iff.mp h)]
  rfl

/-- **A snapshot of some bars has a context**, and its facts come from their columns. -/
theorem build_ofColumns {bars : List Bar} (hbars : bars ≠ []) (period : Nat) (symbol : String)
    (tf : Timeframe) (runId : Option String) (known : List KnownSignal) :
    ∃ c, build period symbol tf bars runId known = .ok c ∧ OfColumns bars c := by
  refine ⟨_, build_eq hbars period symbol tf runId known, rfl, fun key hkey => ?_, ?_⟩
  · have hne {own : String} (hown : own ∈ ownKeys) : key ≠ own := fun h => hkey (h ▸ hown)
    refine (lookup_ownFacts (.inr hkey) _ _ _ _ _ _).trans ?_
    rw [lookup_barFacts (hne (by decide))]
    split
    · rfl
    · exact Table.lookup_put_of_ne (hne (by decide)) _ _
  · refine (lookup_ownFacts (.inl (by decide)) _ _ _ _ _ _).trans ?_
    rw [lookup_barFacts (by decide)]
    split
    · rfl
    · exact Table.lookup_put_self _ _ _

/-! ### Plain columns -/

/-- **The column is plain**: its name is not that of another fact, and does not read like the key of
one, and no other column is named like one of its facts. -/
structure Plain (bars : List Bar) (name : String) : Prop where
  /-- It is a further column. -/
  column : HasColumn bars name
  /-- It is not one that every bar has. -/
  core : ∀ e ∈ coreColumns, name ≠ e.1
  /-- It is not a fact that a snapshot adds by itself. -/
  own : name ∉ ownKeys
  /-- It does not read like a value before. -/
  previous : ∀ n, name ≠ Context.previousKey n
  /-- It does not read like a series. -/
  series : ∀ n, name ≠ Context.seriesKey n
  /-- The value before is not a column. -/
  noPrevious : ¬HasColumn bars (Context.previousKey name)
  /-- The series is not a column. -/
  noSeries : ¬HasColumn bars (Context.seriesKey name)

section Lookups

variable {bars : List Bar} {name : String}

theorem plain_iff : Plain bars name ↔ HasColumn bars name ∧ (∀ e ∈ coreColumns, name ≠ e.1) ∧
    name ∉ ownKeys ∧ ¬['p', 'r', 'e', 'v', '_'] <+: name.toList ∧
    ¬['_', 's', 'e', 'r', 'i', 'e', 's'] <:+ name.toList ∧
    ¬HasColumn bars (Context.previousKey name) ∧ ¬HasColumn bars (Context.seriesKey name) := by
  rw [← Context.ne_previousKey_iff, ← Context.ne_seriesKey_iff]
  exact ⟨fun ⟨column, core, own, previous, series, noPrevious, noSeries⟩ =>
      ⟨column, core, own, previous, series, noPrevious, noSeries⟩,
    fun ⟨column, core, own, previous, series, noPrevious, noSeries⟩ =>
      ⟨column, core, own, previous, series, noPrevious, noSeries⟩⟩

instance : Decidable (Plain bars name) :=
  decidable_of_iff _ plain_iff.symm

/-- No name of a column that every bar has is the key of a value before or of a series. -/
theorem core_plain : ∀ e ∈ coreColumns,
    (∀ n, e.1 ≠ Context.previousKey n) ∧ ∀ n, e.1 ≠ Context.seriesKey n := by
  have hprevious : ∀ e ∈ coreColumns, ¬['p', 'r', 'e', 'v', '_'] <+: e.1.toList := by decide
  have hseries : ∀ e ∈ coreColumns, ¬['_', 's', 'e', 'r', 'i', 'e', 's'] <:+ e.1.toList := by
    decide
  exact fun e he => ⟨Context.ne_previousKey_iff.mpr (hprevious e he),
    Context.ne_seriesKey_iff.mpr (hseries e he)⟩

/-- The keys of values before are those of the same columns, unless a series has such a key. -/
theorem previousKey_mem_keysOf {n : String} (h : Context.previousKey name ∈ keysOf n) :
    n = Context.previousKey name ∨ n = name ∨ (∃ m, name = Context.seriesKey m) ∨
      name = "series" ∧ n = "prev" := by
  rcases mem_keysOf.mp h with h | h | h
  · exact .inl h.symm
  · exact .inr (.inl (Context.previousKey_inj.mp h).symm)
  · rcases Context.previousKey_eq_seriesKey h with ⟨m, hm, -⟩ | hclash
    · exact .inr (.inr (.inl ⟨m, hm⟩))
    · exact .inr (.inr (.inr hclash))

theorem seriesKey_mem_keysOf {n : String} (h : Context.seriesKey name ∈ keysOf n) :
    n = Context.seriesKey name ∨ n = name ∨ (∃ m, name = Context.previousKey m) ∨
      name = "prev" ∧ n = "series" := by
  rcases mem_keysOf.mp h with h | h | h
  · exact .inl h.symm
  · rcases Context.previousKey_eq_seriesKey h.symm with ⟨m, -, hm⟩ | ⟨hn, hname⟩
    · exact .inr (.inr (.inl ⟨m, hm⟩))
    · exact .inr (.inr (.inr ⟨hname, hn⟩))
  · exact .inr (.inl (Context.seriesKey_inj.mp h).symm)

/-- Under its own name a column has its newest value, if that is known. -/
theorem lookup_self (hbars : bars ≠ []) (hcolumn : HasColumn bars name)
    (hcore : ∀ e ∈ coreColumns, name ≠ e.1) (hprevious : ∀ n, name ≠ Context.previousKey n)
    (hseries : ∀ n, name ≠ Context.seriesKey n) :
    (columnFacts bars).lookup name = (newest? bars name).map .number := by
  have hnot {n : String} (hne : name ≠ n) : name ∉ keysOf n := by
    rw [mem_keysOf]
    rintro (h | h | h)
    · exact hne h
    · exact hprevious n h
    · exact hseries n h
  rw [columnFacts_of_only hbars (fun e he => hnot (hcore e he)) hcolumn, entry_self]
  intro n _ hentry
  by_contra hne
  exact hnot (Ne.symm hne) (mem_keysOf_of_entry hentry)

variable (hbars : bars ≠ []) (hplain : Plain bars name)
include hbars hplain

/-- Under the key of the value before, it has that one. -/
theorem Plain.lookup_previousKey (hname : name ≠ "series") :
    (columnFacts bars).lookup (Context.previousKey name) = (before? bars name).map .number := by
  rw [columnFacts_of_only hbars ?_ hplain.column ?_, entry_previousKey]
  · intro e he hmem
    rcases previousKey_mem_keysOf hmem with h | h | ⟨m, h⟩ | ⟨h, -⟩
    · exact (core_plain e he).1 _ h
    · exact hplain.core e he h.symm
    · exact hplain.series m h
    · exact hname h
  · intro n hn hentry
    rcases previousKey_mem_keysOf (mem_keysOf_of_entry hentry) with h | h | ⟨m, h⟩ | ⟨h, -⟩
    · exact absurd (h ▸ hn) hplain.noPrevious
    · exact h
    · exact absurd h (hplain.series m)
    · exact absurd h hname

/-- Under the key of its series, it has that, unless the value before of another column takes its
place. -/
theorem Plain.lookup_seriesKey (hname : name = "prev" → before? bars "series" = none) :
    (columnFacts bars).lookup (Context.seriesKey name) = some (.series (extraValues bars name)) := by
  rw [columnFacts_of_only hbars ?_ hplain.column ?_, entry_seriesKey]
  · intro e he hmem
    rcases seriesKey_mem_keysOf hmem with h | h | ⟨m, h⟩ | ⟨-, h⟩
    · exact (core_plain e he).2 _ h
    · exact hplain.core e he h.symm
    · exact hplain.previous m h
    · exact absurd (h ▸ List.mem_map_of_mem he : "series" ∈ coreColumns.map Prod.fst) (by decide)
  · intro n hn hentry
    rcases seriesKey_mem_keysOf (mem_keysOf_of_entry hentry) with h | h | ⟨m, h⟩ | ⟨h, rfl⟩
    · exact absurd (h ▸ hn) hplain.noSeries
    · exact h
    · exact absurd h (hplain.previous m)
    · -- the other column has no value before to put there
      subst h
      refine absurd ?_ hentry
      have hkey : Context.seriesKey "prev" = Context.previousKey "series" := by decide
      rw [hkey, entry_previousKey, hname rfl]
      rfl

end Lookups

/-! ### The clash -/

section Clash

variable {bars : List Bar} (hbars : bars ≠ []) (hfree : ¬HasColumn bars "prev_series")
include hfree

/-- The columns that have a fact under the key of the clash. -/
theorem prevSeries_mem_keysOf {n : String} (hn : HasColumn bars n)
    (h : "prev_series" ∈ keysOf n) : n = "series" ∨ n = "prev" := by
  have hkey : "prev_series" = Context.previousKey "series" := by decide
  rw [hkey] at h hfree
  rcases previousKey_mem_keysOf h with h | h | ⟨m, h⟩ | ⟨-, h⟩
  · exact absurd (h ▸ hn) hfree
  · exact .inl h
  · exact absurd h (Context.ne_seriesKey_iff.mpr (by decide) m)
  · exact .inr h

include hbars

/-- The value before of the column `series` is found, if there is one. -/
theorem prevSeries_of_before {x : Float} (h : before? bars "series" = some x) :
    (columnFacts bars).lookup "prev_series" = some (.number x) := by
  obtain ⟨b, hb, hx⟩ := Option.bind_eq_some_iff.mp h
  have hcolumn : HasColumn bars "series" :=
    hasColumn_of_value? (List.mem_of_mem_dropLast (List.mem_of_getLast? hb)) hx
  refine columnFacts_of_last hbars hcolumn (fun n hn hkey => ?_) ?_
  · rcases prevSeries_mem_keysOf hfree hn hkey with h | h
    · exact .inl h
    · exact .inr (h ▸ by decide)
  · exact (entry_previousKey bars "series").trans (by rw [h]; rfl)

/-- Otherwise it is the series of the column `prev`, if there is such a column. -/
theorem prevSeries_of_none (h : before? bars "series" = none) :
    (columnFacts bars).lookup "prev_series" = some (.series (extraValues bars "prev")) ∨
      (columnFacts bars).lookup "prev_series" = none ∧ newest? bars "prev" = none := by
  have hcore : ∀ e ∈ coreColumns, "prev_series" ∉ keysOf e.1 := by decide
  have hlost : entry "series" (extraValues bars "series") "prev_series" = none :=
    (entry_previousKey bars "series").trans (by rw [h]; rfl)
  by_cases hprev : HasColumn bars "prev"
  · refine .inl ?_
    rw [columnFacts_of_only hbars hcore hprev]
    · exact entry_seriesKey "prev" _
    · intro n hn hentry
      rcases prevSeries_mem_keysOf hfree hn (mem_keysOf_of_entry hentry) with rfl | hn
      · exact absurd hlost hentry
      · exact hn
  · refine .inr ⟨columnFacts_eq_none hbars hcore fun n hn => ?_, ?_⟩
    · by_cases hkey : "prev_series" ∈ keysOf n
      · rcases prevSeries_mem_keysOf hfree hn hkey with rfl | rfl
        · exact hlost
        · exact absurd hn hprev
      · exact entry_eq_none hkey _
    · refine Option.eq_none_iff_forall_ne_some.mpr fun x hx => hprev ?_
      obtain ⟨b, hb, hx⟩ := Option.bind_eq_some_iff.mp hx
      exact hasColumn_of_value? (List.mem_of_getLast? hb) hx

end Clash

/-- A text that is cut behind a value before is cut in the name of the column. -/
theorem cutFirst_previousKey {name table entry : String}
    (h : Text.cutFirst '.' (Context.previousKey name) = some (table, entry)) :
    ∃ n, table = Context.previousKey n := by
  have hlist := Text.cutFirst_eq_some h
  rw [Context.toList_previousKey] at hlist
  obtain ⟨n, htable, -⟩ | ⟨m, hprev, hrest⟩ := List.append_eq_append_iff.mp hlist
  · exact ⟨String.ofList n, by
      rw [← String.toList_inj, Context.toList_previousKey, String.toList_ofList, htable]⟩
  · cases m with
    | nil =>
      refine ⟨"", ?_⟩
      rw [← String.toList_inj, Context.toList_previousKey]
      exact (hprev.trans (List.append_nil _)).symm
    | cons a m =>
      -- there is no dot in the beginning of the key
      obtain ⟨ha, -⟩ := List.cons.inj hrest
      have hdot : '.' ∈ ['p', 'r', 'e', 'v', '_'] := by
        rw [hprev, ha]
        exact List.mem_append_right _ List.mem_cons_self
      exact absurd hdot (by decide)

/-! ### Answers about a column -/

theorem filter_newest? (bars : List Bar) (name : String) :
    (newest? bars name).filter Float.isFinite = newest? bars name := by
  rw [newest?_eq, Option.filter_filter]
  simp

theorem filter_before? (bars : List Bar) (name : String) :
    (before? bars name).filter Float.isFinite = before? bars name := by
  rw [before?_eq, Option.filter_filter]
  simp

section Answers

variable {bars : List Bar} {c : Context} {name : String} (hbars : bars ≠ [])
  (hc : OfColumns bars c)
include hbars hc

/-- A series that is stored under the key for it has the values of a column. -/
theorem OfColumns.eq_of_storedSeries? (hcore : ∀ e ∈ coreColumns, name ≠ e.1) {xs : List Float}
    (h : c.storedSeries? (Context.seriesKey name) = some xs) :
    HasColumn bars name ∧ xs = extraValues bars name := by
  rw [Context.storedSeries?_eq_some, hc.get?_eq _ (seriesKey_not_own name)] at h
  rcases columnFacts_series hbars h with ⟨e, he, hname⟩ | hcolumn
  · exact absurd hname (hcore e he)
  · exact hcolumn

theorem OfColumns.storedSeries?_eq_none (hcore : ∀ e ∈ coreColumns, name ≠ e.1)
    (hfree : ¬HasColumn bars name) : c.storedSeries? (Context.seriesKey name) = none :=
  Option.eq_none_iff_forall_ne_some.mpr fun _ h =>
    hfree (hc.eq_of_storedSeries? hbars hcore h).1

/-- **The number of a column** is its newest value: an older one is not found in any way. -/
theorem OfColumns.number_eq (hcore : ∀ e ∈ coreColumns, name ≠ e.1) (hown : name ∉ ownKeys)
    (hself : (columnFacts bars).lookup name = (newest? bars name).map .number)
    (hcut : (columnFacts bars).lookup (Context.seriesKey name) ≠
      some (.series (extraValues bars name)) → Text.cutFirst '.' name = none) :
    c.number name = newest? bars name := by
  have hget := (hc.get?_eq name hown).trans hself
  rw [Context.number_eq_filter hc.thresholds]
  cases hnewest : newest? bars name with
  | some x =>
    rw [hnewest] at hget
    rw [Context.storedNumber?_of_number hget, ← hnewest, filter_newest?]
  | none =>
    rw [hnewest] at hget
    cases hstored : c.storedSeries? (Context.seriesKey name) with
    | some xs =>
      obtain ⟨-, rfl⟩ := hc.eq_of_storedSeries? hbars hcore hstored
      rw [Context.storedNumber?_behind hget hstored, ← newest?_eq, hnewest]
    | none =>
      have hnone : Text.cutFirst '.' name = none := hcut fun h => by
        rw [← hc.get?_eq _ (seriesKey_not_own name), ← Context.storedSeries?_eq_some, hstored] at h
        cases h
      rw [Context.storedNumber?_beyond hget hstored, hnone]
      rfl

/-- Where nothing stands under the key of the value before, nothing is found for it: neither a series
nor an entry of a table. -/
theorem OfColumns.number_previousKey_eq_none
    (hnone : (columnFacts bars).lookup (Context.previousKey name) = none)
    (hfree : ¬HasColumn bars (Context.previousKey name)) :
    c.number (Context.previousKey name) = none := by
  have hget := (hc.get?_eq _ (previousKey_not_own name)).trans hnone
  have hstored := hc.storedSeries?_eq_none hbars
    (fun e he => ((core_plain e he).1 name).symm) hfree
  rw [Context.number_eq_filter hc.thresholds, Context.storedNumber?_beyond hget hstored]
  cases hcut : Text.cutFirst '.' (Context.previousKey name) with
  | none => rfl
  | some e =>
    obtain ⟨n, hn⟩ := cutFirst_previousKey hcut
    have hfact := hc.get?_eq _ (hn ▸ previousKey_not_own n)
    rw [Option.bind_some, hfact]
    split
    · rename_i entries hmap
      exact absurd hmap (columnFacts_ne_map hbars _ entries)
    · rfl

variable (hplain : Plain bars name)
include hplain

/-- The series of a column is found under one key only. -/
theorem OfColumns.series_eq_storedSeries :
    c.series name = c.storedSeries? (Context.seriesKey name) := by
  refine Context.series_eq_storedSeries fun xs h => ?_
  rw [hc.get?_eq name hplain.own,
    lookup_self hbars hplain.column hplain.core hplain.previous hplain.series] at h
  exact map_number_ne_series _ xs h

/-- What is found for the key of the value before, if that has not been lost. -/
theorem OfColumns.number_previousKey : c.number (Context.previousKey name) =
    (before? bars name).or (if name = "series" then newest? bars "prev" else none) := by
  have hget := hc.get?_eq _ (previousKey_not_own name)
  have hnumber {x : Float} (hx : before? bars name = some x)
      (hlookup : (columnFacts bars).lookup (Context.previousKey name) = some (.number x)) :
      c.number (Context.previousKey name) = before? bars name := by
    rw [Context.number_eq_filter hc.thresholds,
      Context.storedNumber?_of_number (hget.trans hlookup), ← hx, filter_before?]
  by_cases hname : name = "series"
  · subst hname
    rw [if_pos rfl]
    cases hbefore : before? bars "series" with
    | some x =>
      rw [Option.some_or, ← hbefore]
      exact hnumber hbefore (prevSeries_of_before hbars hplain.noPrevious hbefore)
    | none =>
      rw [Option.none_or]
      rcases prevSeries_of_none hbars hplain.noPrevious hbefore with h | ⟨h, hprev⟩
      · rw [Context.number_eq_filter hc.thresholds,
          Context.storedNumber?_of_series (hget.trans h), ← newest?_eq]
      · rw [hprev]
        exact hc.number_previousKey_eq_none hbars h hplain.noPrevious
  · rw [if_neg hname, Option.or_none]
    have hlookup := hplain.lookup_previousKey hbars hname
    cases hbefore : before? bars name with
    | some x =>
      rw [hbefore] at hlookup
      exact (hnumber hbefore hlookup).trans hbefore
    | none =>
      rw [hbefore] at hlookup
      exact hc.number_previousKey_eq_none hbars hlookup hplain.noPrevious

/-- **The value before**: an older one is not found in any way, but one of another column may be. -/
theorem OfColumns.previous_eq : c.previous name =
    (before? bars name).or (if name = "series" then newest? bars "prev" else none) := by
  unfold Context.previous
  rw [hc.number_previousKey hbars hplain]
  cases hfound : (before? bars name).or (if name = "series" then newest? bars "prev" else none) with
  | some x => rfl
  | none =>
    dsimp only
    rw [hc.series_eq_storedSeries hbars hplain]
    cases hstored : c.storedSeries? (Context.seriesKey name) with
    | none => rfl
    | some xs =>
      obtain ⟨-, rfl⟩ := hc.eq_of_storedSeries? hbars hplain.core hstored
      rw [Option.bind_some, ← before?_eq]
      exact (Option.or_eq_none_iff.mp hfound).1

/-- **The series of a column** has one value for each bar, unless its place has been taken. -/
theorem OfColumns.series_eq : c.series name =
    if name = "prev" ∧ (before? bars "series").isSome = true then none
    else some (extraValues bars name) := by
  rw [hc.series_eq_storedSeries hbars hplain]
  have hget := hc.get?_eq _ (seriesKey_not_own name)
  split
  · rename_i hlost
    obtain ⟨rfl, hsome⟩ := hlost
    obtain ⟨x, hx⟩ := Option.isSome_iff_exists.mp hsome
    have hlookup := prevSeries_of_before hbars hplain.noSeries hx
    refine Option.eq_none_iff_forall_ne_some.mpr fun xs hxs => ?_
    rw [Context.storedSeries?_eq_some, hget] at hxs
    cases hlookup.symm.trans hxs
  · rename_i hkept
    rw [Context.storedSeries?_eq_some, hget]
    refine hplain.lookup_seriesKey hbars fun hname => ?_
    exact Option.not_isSome_iff_eq_none.mp fun h => hkept ⟨hname, h⟩

/-- **The number of a plain column** is its newest value. -/
theorem OfColumns.number_plain : c.number name = newest? bars name := by
  have hself := lookup_self hbars hplain.column hplain.core hplain.previous hplain.series
  refine hc.number_eq hbars hplain.core hplain.own hself fun h => ?_
  -- the series can be missing for one column only, and there is no dot in its name
  by_cases hname : name = "prev"
  · subst hname
    decide
  · exact absurd (hplain.lookup_seriesKey hbars fun hprev => absurd hprev hname) h

end Answers

/-! ### Averages -/

section Averages

variable {bars : List Bar} {digits : String}

theorem periodOf?_eq_some {name : String} : periodOf? name = some digits ↔
    name = "ema_" ++ digits ∧ digits.toList.all Char.isDigit = true := by
  unfold periodOf?
  constructor
  · intro h
    split at h
    · rename_i period hperiod
      split at h
      · rename_i hdigits
        cases h
        rw [String.toList_ofList]
        refine ⟨?_, hdigits⟩
        rw [← String.toList_inj, String.toList_append]
        exact (Text.afterStart?_eq_some_iff.mp hperiod).trans
          (congrArg _ String.toList_ofList.symm)
      · cases h
    · cases h
  · rintro ⟨rfl, hdigits⟩
    have hperiod : Text.afterStart? "ema_".toList ("ema_" ++ digits).toList = some digits.toList :=
      Text.afterStart?_eq_some_iff.mpr String.toList_append
    rw [hperiod]
    dsimp only
    rw [if_pos hdigits, String.ofList_toList]

/-- The table of averages has the newest values. -/
theorem lookup_averages (hdigits : digits.toList.all Char.isDigit = true)
    (hcolumn : HasColumn bars ("ema_" ++ digits)) :
    (averages bars (extraColumns bars)).lookup digits = newest? bars ("ema_" ++ digits) := by
  refine Table.lookup_ofEntries_of_unique fun x => ?_
  rw [List.mem_filterMap, newest?_eq, Option.filter_eq_some_iff]
  constructor
  · rintro ⟨name, -, h⟩
    obtain ⟨period, hperiod, h⟩ := Option.bind_eq_some_iff.mp h
    obtain ⟨newest, hnewest, h⟩ := Option.bind_eq_some_iff.mp h
    split at h
    · rename_i hfinite
      cases h
      obtain ⟨rfl, -⟩ := periodOf?_eq_some.mp hperiod
      exact ⟨hnewest, hfinite⟩
    · cases h
  · rintro ⟨hnewest, hfinite⟩
    refine ⟨"ema_" ++ digits, mem_extraColumns.mpr hcolumn, ?_⟩
    refine Option.bind_eq_some_iff.mpr ⟨digits, periodOf?_eq_some.mpr ⟨rfl, hdigits⟩, ?_⟩
    refine Option.bind_eq_some_iff.mpr ⟨x, hnewest, ?_⟩
    rw [if_pos hfinite]

/-- A text that ends in digits is not the key of a series. -/
theorem ne_seriesKey_of_digits {start : String} (hstart : start.toList.getLast? ≠ some 's')
    (hdigits : digits.toList.all Char.isDigit = true) (n : String) :
    start ++ digits ≠ Context.seriesKey n := by
  intro h
  have hlast := congrArg (fun s => s.toList.getLast?) h
  simp only [Context.toList_seriesKey, String.toList_append, List.getLast?_append] at hlast
  cases hd : digits.toList.getLast? with
  | none =>
    rw [hd] at hlast
    exact hstart hlast
  | some d =>
    rw [hd] at hlast
    cases hlast
    exact absurd (List.all_eq_true.mp hdigits _ (List.mem_of_getLast? hd)) (by decide)

/-- A text that begins like an average is not the key of a value before. -/
theorem ne_previousKey_of_start {start : String} {a : Char} (hstart : start.toList.head? = some a)
    (ha : a ≠ 'p') (n : String) : start ++ digits ≠ Context.previousKey n := by
  intro h
  have hhead := congrArg (fun s => s.toList.head?) h
  simp only [Context.toList_previousKey, String.toList_append, List.head?_append, hstart] at hhead
  exact ha (Option.some.inj hhead)

/-- A text that begins unlike all the keys is none of them. -/
theorem not_mem_of_start {start : String} {keys : List String}
    (hkeys : ∀ key ∈ keys, ¬start.toList <+: key.toList) : start ++ digits ∉ keys :=
  fun h => hkeys _ h ⟨digits.toList, String.toList_append.symm⟩

variable {c : Context} (hbars : bars ≠ []) (hc : OfColumns bars c)
  (hdigits : digits.toList.all Char.isDigit = true) (hcolumn : HasColumn bars ("ema_" ++ digits))
include hbars hc hdigits hcolumn

/-- **An average is found in its column**, whatever other columns there are. -/
theorem OfColumns.number_column :
    c.number ("ema_" ++ digits) = newest? bars ("ema_" ++ digits) := by
  have hnames : "ema_" ++ digits ∉ coreColumns.map Prod.fst := not_mem_of_start (by decide)
  have hcore : ∀ e ∈ coreColumns, "ema_" ++ digits ≠ e.1 := fun e he h =>
    hnames (h ▸ List.mem_map_of_mem he)
  have hown : "ema_" ++ digits ∉ ownKeys := not_mem_of_start (by decide)
  have hself := lookup_self hbars hcolumn hcore (ne_previousKey_of_start rfl (by decide))
    (ne_seriesKey_of_digits (by decide) hdigits)
  refine hc.number_eq hbars hcore hown hself fun _ => Text.cutFirst_eq_none ?_
  rw [String.toList_append, List.mem_append]
  rintro (hdot | hdot)
  · exact absurd hdot (by decide)
  · exact absurd (List.all_eq_true.mp hdigits _ hdot) (by decide)

/-- **An average is found in the table** under its period, unless there is a column of that name. -/
theorem OfColumns.number_entry (hfree : ¬HasColumn bars ("ema." ++ digits)) :
    c.number ("ema." ++ digits) = newest? bars ("ema_" ++ digits) := by
  have hnames : "ema." ++ digits ∉ coreColumns.map Prod.fst := not_mem_of_start (by decide)
  have hcore : ∀ e ∈ coreColumns, "ema." ++ digits ≠ e.1 := fun e he h =>
    hnames (h ▸ List.mem_map_of_mem he)
  have hown : "ema." ++ digits ∉ ownKeys := not_mem_of_start (by decide)
  have hnot {n : String} (hne : "ema." ++ digits ≠ n) : "ema." ++ digits ∉ keysOf n := by
    rw [mem_keysOf]
    rintro (h | h | h)
    · exact hne h
    · exact ne_previousKey_of_start rfl (by decide) n h
    · exact ne_seriesKey_of_digits (by decide) hdigits n h
  have hget : c.get? ("ema." ++ digits) = none := by
    rw [hc.get?_eq _ hown]
    exact columnFacts_eq_none hbars (fun e he => hnot (hcore e he)) fun n hn =>
      entry_eq_none (hnot fun h => hfree (h ▸ hn)) _
  have hstored := hc.storedSeries?_eq_none hbars hcore hfree
  have hcut : Text.cutFirst '.' ("ema." ++ digits) = some ("ema", digits) :=
    Text.cutFirst_eq_some_iff.mpr ⟨String.toList_append, by decide⟩
  have haverage := lookup_averages hdigits hcolumn
  rw [Context.number_eq_filter hc.thresholds, Context.storedNumber?_beyond hget hstored, hcut,
    Option.bind_some, hc.averages_eq, ← filter_newest?, ← haverage]
  split
  · rename_i entries hentries
    split at hentries
    · exact absurd hentries (columnFacts_ne_map hbars _ entries)
    · cases hentries
      rfl
  · -- without a table there is no average that is known
    rename_i hno
    split at hno
    · rename_i hempty
      rw [List.isEmpty_iff.mp hempty]
      rfl
    · exact absurd rfl (hno _)

end Averages

/-! ### What is reported -/

/-- **What a context reports of a column**: its newest value, and, unless the key of the clash stands
between, the value before and the values of all bars. -/
structure Reported (bars : List Bar) (c : Context) (name : String) : Prop where
  /-- The number is the newest value. -/
  number : c.number name = newest? bars name
  /-- The previous number is the value before, but for a column `series` that has none and gets the
  newest value of a column `prev`. -/
  previous_iff : c.previous name = before? bars name ↔
    ¬(name = "series" ∧ before? bars "series" = none ∧ (newest? bars "prev").isSome = true)
  /-- The series has one value for each bar, but for a column `prev` that loses its place to the value
  before of a column `series`. -/
  series_iff : c.series name = some (extraValues bars name) ↔
    ¬(name = "prev" ∧ (before? bars "series").isSome = true)

/-- **Snapshots report what is in the columns**: every plain column is reported, and the averages are
found under their periods. -/
theorem build_reports {bars : List Bar} (hbars : bars ≠ []) (period : Nat) (symbol : String)
    (tf : Timeframe) (runId : Option String) (known : List KnownSignal) :
    ∃ c, build period symbol tf bars runId known = .ok c ∧
      (∀ name, Plain bars name → Reported bars c name) ∧
      ∀ digits, digits.toList.all Char.isDigit = true → HasColumn bars ("ema_" ++ digits) →
        ¬HasColumn bars ("ema." ++ digits) →
        c.number ("ema." ++ digits) = c.number ("ema_" ++ digits) := by
  obtain ⟨c, hbuild, hc⟩ := build_ofColumns hbars period symbol tf runId known
  refine ⟨c, hbuild, fun name hplain => ⟨hc.number_plain hbars hplain, ?_, ?_⟩,
    fun digits hdigits hcolumn hfree => ?_⟩
  · rw [hc.previous_eq hbars hplain]
    by_cases hname : name = "series"
    · subst hname
      cases before? bars "series" with
      | some x => simp
      | none => cases newest? bars "prev" <;> simp
    · simp [hname]
  · rw [hc.series_eq hbars hplain]
    split
    · rename_i hlost
      exact iff_of_false (by simp) fun h => h hlost
    · rename_i hkept
      exact iff_of_true rfl hkept
  · rw [hc.number_entry hbars hdigits hcolumn hfree, hc.number_column hbars hdigits hcolumn]

/-- Two bars with further columns. -/
def twoBars (before newest : Table Float) : List Bar :=
  [⟨"BTCUSDT", .h1, ⟨0, 0⟩, 1.0, 1.0, 1.0, 1.0, 1.0, before⟩,
    ⟨"BTCUSDT", .h1, ⟨3600, 0⟩, 1.0, 1.0, 1.0, 1.0, 1.0, newest⟩]

theorem twoBars_ne_nil {before newest : Table Float} : twoBars before newest ≠ [] :=
  List.cons_ne_nil _ _

theorem before?_twoBars {before newest : Table Float} {name : String} {x : Float}
    (h : before.lookup name = some x) (hx : x.isFinite = true) :
    before? (twoBars before newest) name = some x :=
  Option.filter_eq_some_iff.mpr ⟨h, hx⟩

theorem newest?_twoBars {before newest : Table Float} {name : String} {x : Float}
    (h : newest.lookup name = some x) (hx : x.isFinite = true) :
    newest? (twoBars before newest) name = some x :=
  Option.filter_eq_some_iff.mpr ⟨h, hx⟩

/-- A column without a newest value has no number: the value before does not stand in for it. -/
theorem build_reports_gap :
    twoBars [("ema_50", 3.0), ("rsi", 50.0)] [("ema_50", 4.0)] ≠ [] ∧
    ∃ c, build 14 "BTCUSDT" .h1 (twoBars [("ema_50", 3.0), ("rsi", 50.0)] [("ema_50", 4.0)]) none []
        = .ok c ∧
      Plain (twoBars [("ema_50", 3.0), ("rsi", 50.0)] [("ema_50", 4.0)]) "rsi" ∧
      c.number "rsi" = none ∧ c.previous "rsi" = some 50.0 ∧
      c.series "rsi" = some [50.0, undefined] ∧
      c.number "ema.50" = c.number "ema_50" := by
  have hplain : Plain (twoBars [("ema_50", 3.0), ("rsi", 50.0)] [("ema_50", 4.0)]) "rsi" := by decide
  have hfinite : (50.0 : Float).isFinite = true := by decide +kernel
  have hbars : twoBars [("ema_50", 3.0), ("rsi", 50.0)] [("ema_50", 4.0)] ≠ [] := twoBars_ne_nil
  obtain ⟨c, hbuild, hreported, haverage⟩ := build_reports hbars 14 "BTCUSDT" .h1 none []
  obtain ⟨hnumber, hprevious, hseries⟩ := hreported "rsi" hplain
  have hbefore := hprevious.mpr (by simp)
  rw [before?_twoBars rfl hfinite] at hbefore
  exact ⟨hbars, c, hbuild, hplain, hnumber, hbefore,
    hseries.mpr (by simp), haverage "50" (by decide) (by decide) (by decide)⟩

/-- **Two columns clash**: a column `series` without a value before is told the newest value of a
column `prev`, and if it has one, the column `prev` has no series. -/
theorem build_clash :
    (∃ c, build 14 "BTCUSDT" .h1 (twoBars [("prev", 3.0)] [("prev", 4.0), ("series", 8.0)]) none []
        = .ok c ∧
      Plain (twoBars [("prev", 3.0)] [("prev", 4.0), ("series", 8.0)]) "series" ∧
      before? (twoBars [("prev", 3.0)] [("prev", 4.0), ("series", 8.0)]) "series" = none ∧
      c.previous "series" = some 4.0) ∧
    ∃ c, build 14 "BTCUSDT" .h1
        (twoBars [("prev", 3.0), ("series", 7.0)] [("prev", 4.0), ("series", 8.0)]) none [] = .ok c ∧
      Plain (twoBars [("prev", 3.0), ("series", 7.0)] [("prev", 4.0), ("series", 8.0)]) "prev" ∧
      c.series "prev" = none := by
  have hplain : Plain (twoBars [("prev", 3.0)] [("prev", 4.0), ("series", 8.0)]) "series" := by decide
  have hplain' : Plain (twoBars [("prev", 3.0), ("series", 7.0)] [("prev", 4.0), ("series", 8.0)])
      "prev" := by decide
  have hfour : (4.0 : Float).isFinite = true := by decide +kernel
  have hseven : (7.0 : Float).isFinite = true := by decide +kernel
  have hbars : twoBars [("prev", 3.0)] [("prev", 4.0), ("series", 8.0)] ≠ [] := twoBars_ne_nil
  have hbars' : twoBars [("prev", 3.0), ("series", 7.0)] [("prev", 4.0), ("series", 8.0)] ≠ [] :=
    twoBars_ne_nil
  obtain ⟨c, hbuild, hc⟩ := build_ofColumns hbars 14 "BTCUSDT" .h1 none []
  obtain ⟨c', hbuild', hc'⟩ := build_ofColumns hbars' 14 "BTCUSDT" .h1 none []
  refine ⟨⟨c, hbuild, hplain, rfl, ?_⟩, c', hbuild', hplain', ?_⟩
  · rw [hc.previous_eq hbars hplain, if_pos rfl]
    exact newest?_twoBars rfl hfour
  · rw [hc'.series_eq hbars' hplain', before?_twoBars rfl hseven]
    rfl

end Snapshot

end TopDown
