import TopDown.Proofs.Overwriting
import TopDown.Proofs.Reading
import TopDown.Proofs.RunName

/-!
# Facts of columns

A snapshot puts up to three facts of a column into its table: its newest value, the value before under
`prev_`, and all its values under `_series`. We say what one column puts under a key
(`TopDown.Snapshot.entry`) and what is found after all of them: the fact of the last column that has
one (`TopDown.Snapshot.columnFacts_lookup`). So a fact is that of a column where no other has one under
the same key (`TopDown.Snapshot.columnFacts_of_only`), or where the others come earlier
(`TopDown.Snapshot.columnFacts_of_last`).

Two columns may share a key in a few ways only: if neither name reads like the key of a fact itself,
the key of a value before is that of a series for the columns `series` and `prev` alone
(`TopDown.Context.previousKey_eq_seriesKey`).
-/

namespace TopDown

/-! ### Texts -/

namespace Text

theorem afterStart?_eq_some_iff {start s rest : List Char} :
    afterStart? start s = some rest ↔ s = start ++ rest := by
  induction start generalizing s with
  | nil => simp [afterStart?]
  | cons a start ih =>
    cases s with
    | nil => simp [afterStart?]
    | cons c s =>
      rw [afterStart?, List.cons_append, List.cons.injEq]
      split
      · rename_i h
        rw [ih]
        simp [h]
      · rename_i h
        simp [Ne.symm h]

/-- The parts of a text that is cut make up the text. -/
theorem cutFirstOf_eq_some {sep : Char} {s before after : List Char}
    (h : cutFirstOf sep s = some (before, after)) : s = before ++ sep :: after := by
  induction s generalizing before after with
  | nil => cases h
  | cons c s ih =>
    rw [cutFirstOf] at h
    split at h
    · rename_i hc
      cases h
      rw [hc, List.nil_append]
    · obtain ⟨⟨a, b⟩, hab, heq⟩ := Option.map_eq_some_iff.mp h
      cases heq
      rw [ih hab, List.cons_append]

/-- A text is cut at the first separator. -/
theorem not_mem_of_cutFirstOf {sep : Char} {s before after : List Char}
    (h : cutFirstOf sep s = some (before, after)) : sep ∉ before := by
  induction s generalizing before after with
  | nil => cases h
  | cons c s ih =>
    rw [cutFirstOf] at h
    split at h
    · cases h
      exact List.not_mem_nil
    · rename_i hc
      obtain ⟨⟨a, b⟩, hab, heq⟩ := Option.map_eq_some_iff.mp h
      cases heq
      exact List.not_mem_cons_of_ne_of_not_mem (Ne.symm hc) (ih hab)

/-- A text with separators is cut at the first of them. -/
theorem cutFirstOf_append {sep : Char} {before after : List Char} (h : sep ∉ before) :
    cutFirstOf sep (before ++ sep :: after) = some (before, after) := by
  induction before with
  | nil => simp [cutFirstOf]
  | cons c before ih =>
    rw [List.mem_cons, not_or] at h
    rw [List.cons_append, cutFirstOf, if_neg (Ne.symm h.1), ih h.2]
    rfl

theorem cutFirst_eq_some {sep : Char} {s before after : String}
    (h : cutFirst sep s = some (before, after)) :
    s.toList = before.toList ++ sep :: after.toList := by
  obtain ⟨⟨a, b⟩, hab, heq⟩ := Option.map_eq_some_iff.mp h
  cases heq
  rw [String.toList_ofList, String.toList_ofList]
  exact cutFirstOf_eq_some hab

/-- **The parts of a cut** make up the text, and the separator between them is the first one. -/
theorem cutFirst_eq_some_iff {sep : Char} {s before after : String} :
    cutFirst sep s = some (before, after) ↔
      s.toList = before.toList ++ sep :: after.toList ∧ sep ∉ before.toList := by
  constructor
  · intro h
    refine ⟨cutFirst_eq_some h, ?_⟩
    obtain ⟨⟨a, b⟩, hab, heq⟩ := Option.map_eq_some_iff.mp h
    cases heq
    rw [String.toList_ofList]
    exact not_mem_of_cutFirstOf hab
  · rintro ⟨hs, hbefore⟩
    rw [cutFirst, hs, cutFirstOf_append hbefore, Option.map_some]
    exact congrArg some (Prod.ext String.ofList_toList String.ofList_toList)

theorem cutFirst_eq_none {sep : Char} {s : String} (h : sep ∉ s.toList) : cutFirst sep s = none := by
  refine Option.eq_none_iff_forall_ne_some.mpr fun e he => h ?_
  rw [cutFirst_eq_some he]
  exact List.mem_append_right _ List.mem_cons_self

end Text

namespace Context

theorem toList_previousKey (name : String) :
    (previousKey name).toList = ['p', 'r', 'e', 'v', '_'] ++ name.toList :=
  String.toList_append

theorem toList_seriesKey (name : String) :
    (seriesKey name).toList = name.toList ++ ['_', 's', 'e', 'r', 'i', 'e', 's'] :=
  String.toList_append

theorem previousKey_inj {a b : String} : previousKey a = previousKey b ↔ a = b := by
  rw [← String.toList_inj, toList_previousKey, toList_previousKey, List.append_cancel_left_eq,
    String.toList_inj]

theorem seriesKey_inj {a b : String} : seriesKey a = seriesKey b ↔ a = b := by
  rw [← String.toList_inj, toList_seriesKey, toList_seriesKey, List.append_cancel_right_eq,
    String.toList_inj]

/-- The keys of values before are told by their beginning. -/
theorem ne_previousKey_iff {key : String} :
    (∀ name, key ≠ previousKey name) ↔ ¬['p', 'r', 'e', 'v', '_'] <+: key.toList := by
  constructor
  · rintro h ⟨rest, hrest⟩
    refine h (String.ofList rest) ?_
    rw [← String.toList_inj, toList_previousKey, String.toList_ofList, hrest]
  · rintro h name rfl
    exact h ⟨name.toList, (toList_previousKey name).symm⟩

/-- The keys of series are told by their ending. -/
theorem ne_seriesKey_iff {key : String} :
    (∀ name, key ≠ seriesKey name) ↔ ¬['_', 's', 'e', 'r', 'i', 'e', 's'] <:+ key.toList := by
  constructor
  · rintro h ⟨rest, hrest⟩
    refine h (String.ofList rest) ?_
    rw [← String.toList_inj, toList_seriesKey, String.toList_ofList, hrest]
  · rintro h name rfl
    exact h ⟨name.toList, (toList_seriesKey name).symm⟩

theorem ne_previousKey_self (name : String) : name ≠ previousKey name := by
  intro h
  have hlength := congrArg (fun s => s.toList.length) h
  simp only [toList_previousKey, List.length_append, List.length_cons, List.length_nil] at hlength
  omega

theorem ne_seriesKey_self (name : String) : name ≠ seriesKey name := by
  intro h
  have hlength := congrArg (fun s => s.toList.length) h
  simp only [toList_seriesKey, List.length_append, List.length_cons, List.length_nil] at hlength
  omega

/-- **Numbers of a context without thresholds**: one that is stored is known if it is finite. -/
theorem number_eq_filter {c : Context} (hc : c.thresholds = []) (key : String) :
    c.number key = (c.storedNumber? key).filter Float.isFinite := by
  rw [number, hc]
  rfl

theorem storedSeries?_eq_some {c : Context} {key : String} {xs : List Float} :
    c.storedSeries? key = some xs ↔ c.get? key = some (.series xs) := by
  unfold storedSeries?
  split
  · rename_i ys h
    rw [h, Option.some.injEq, Option.some.injEq, Fact.series.injEq]
  · rename_i h
    exact iff_of_false (by simp) (h xs)

theorem storedNumber?_of_number {c : Context} {key : String} {x : Float}
    (h : c.get? key = some (.number x)) : c.storedNumber? key = some x := by
  rw [storedNumber?, h]

theorem storedNumber?_of_series {c : Context} {key : String} {xs : List Float}
    (h : c.get? key = some (.series xs)) : c.storedNumber? key = xs.getLast? := by
  rw [storedNumber?, h]

/-- Where there is no fact of its own, the last value of the series counts. -/
theorem storedNumber?_behind {c : Context} {key : String} {xs : List Float}
    (h : c.get? key = none) (hseries : c.storedSeries? (seriesKey key) = some xs) :
    c.storedNumber? key = xs.getLast? := by
  rw [storedNumber?, h]
  simp only [hseries]

/-- Where there is no series either, the key is cut and the entry of a table counts. -/
theorem storedNumber?_beyond {c : Context} {key : String} (h : c.get? key = none)
    (hseries : c.storedSeries? (seriesKey key) = none) : c.storedNumber? key =
      (Text.cutFirst '.' key).bind fun e => match c.get? e.1 with
        | some (.map entries) => entries.lookup e.2
        | _ => none := by
  rw [storedNumber?, h]
  simp only [hseries]
  cases Text.cutFirst '.' key <;> rfl

/-- A series is stored under the key for it, unless the field itself is one. -/
theorem series_eq_storedSeries {c : Context} {field : String}
    (h : ∀ xs, c.get? field ≠ some (.series xs)) :
    c.series field = c.storedSeries? (seriesKey field) := by
  unfold series
  cases c.storedSeries? (seriesKey field) with
  | some xs => rfl
  | none => exact Option.eq_none_iff_forall_ne_some.mpr fun xs hxs => h xs (storedSeries?_eq_some.mp hxs)

/-- **The keys of values before and those of series** have one text in common, if neither name reads
like such a key itself. -/
theorem previousKey_eq_seriesKey {a b : String} (h : previousKey a = seriesKey b) :
    (∃ m, a = seriesKey m ∧ b = previousKey m) ∨ a = "series" ∧ b = "prev" := by
  have hlist := congrArg String.toList h
  rw [toList_previousKey, toList_seriesKey] at hlist
  obtain ⟨m, hb, ha⟩ | ⟨m, hprev, hseries⟩ := List.append_eq_append_iff.mp hlist
  · refine .inl ⟨String.ofList m, ?_, ?_⟩
    · rw [← String.toList_inj, toList_seriesKey, String.toList_ofList, ha]
    · rw [← String.toList_inj, toList_previousKey, String.toList_ofList, hb]
  · -- the beginning of the one and the ending of the other overlap in the underscore at most
    rcases m with _ | ⟨c, m⟩
    · refine .inl ⟨"", ?_, ?_⟩
      · rw [← String.toList_inj, toList_seriesKey]
        exact hseries.symm
      · rw [← String.toList_inj, toList_previousKey]
        exact (hprev.trans (List.append_nil _)).symm
    · refine .inr ?_
      obtain ⟨hc, hrest⟩ := List.cons.inj hseries
      subst hc
      have hplace (n : Nat) (hn : ['p', 'r', 'e', 'v', '_'][n]? = some '_') : n = 4 := by
        match n with
        | 4 => rfl
        | 0 | 1 | 2 | 3 => exact absurd hn (by decide)
        | n + 5 => cases hn
      have hlength : b.toList.length = 4 := hplace _ (by
        rw [hprev, List.getElem?_append_right (Nat.le_refl _), Nat.sub_self]
        rfl)
      have hsplit : ['p', 'r', 'e', 'v'] ++ ['_'] = b.toList ++ '_' :: m := hprev
      obtain ⟨hb, hm⟩ := List.append_inj hsplit hlength.symm
      rw [← String.toList_inj, ← String.toList_inj, ← hb]
      cases hm
      exact ⟨hrest.symm, rfl⟩

end Context

namespace Table

/-- A value that all entries of a name agree on is found. -/
theorem lookup_ofEntries_of_unique {α : Type} {entries : List (String × α)} {key : String}
    {o : Option α} (h : ∀ v, (key, v) ∈ entries ↔ o = some v) :
    (ofEntries entries).lookup key = o := by
  refine Option.ext fun v => ?_
  rw [lookup_ofEntries_of_agree fun v v' hv hv' =>
    Option.some.inj (((h v).mp hv).symm.trans ((h v').mp hv')), h]

end Table

/-! ### Columns -/

/-- The value that a bar has in a further column, if it is finite. -/
def Bar.value? (name : String) (b : Bar) : Option Float :=
  (b.extras.lookup name).filter Float.isFinite

namespace Snapshot

/-- Some bar has the further column. -/
def HasColumn (bars : List Bar) (name : String) : Prop :=
  ∃ b ∈ bars, b.extras.has name = true

instance (bars : List Bar) (name : String) : Decidable (HasColumn bars name) :=
  inferInstanceAs (Decidable (∃ b ∈ bars, b.extras.has name = true))

/-- The newest value of a further column. -/
def newest? (bars : List Bar) (name : String) : Option Float :=
  bars.getLast?.bind (Bar.value? name)

/-- The value before. -/
def before? (bars : List Bar) (name : String) : Option Float :=
  bars.dropLast.getLast?.bind (Bar.value? name)

theorem mem_extraColumns {bars : List Bar} {name : String} :
    name ∈ extraColumns bars ↔ HasColumn bars name := by
  rw [extraColumns, Table.mem_names_ofEntries]
  simp only [List.mem_map, List.mem_flatMap, Prod.mk.injEq, HasColumn, Table.has_iff]
  constructor
  · rintro ⟨v, n, hn, rfl, -⟩
    exact hn
  · exact fun h => ⟨(), name, h, rfl, trivial⟩

theorem pairwise_extraColumns (bars : List Bar) : (extraColumns bars).Pairwise (· < ·) :=
  Table.ordered_ofEntries _

theorem hasColumn_of_value? {bars : List Bar} {name : String} {b : Bar} (hb : b ∈ bars) {x : Float}
    (h : b.value? name = some x) : HasColumn bars name := by
  refine ⟨b, hb, ?_⟩
  rw [Table.has, (Option.filter_eq_some_iff.mp h).1]
  rfl

theorem isFinite_undefined : undefined.isFinite = false := by decide +kernel

/-- An undefined number stands for a value that is not there, and is as little known as it is. -/
theorem filter_getD_undefined (o : Option Float) :
    (some (o.getD undefined)).filter Float.isFinite = o.filter Float.isFinite := by
  cases o with
  | some x => rfl
  | none =>
    rw [Option.getD_none, Option.filter_some, isFinite_undefined]
    rfl

theorem newest?_eq (bars : List Bar) (name : String) :
    newest? bars name = (extraValues bars name).getLast?.filter Float.isFinite := by
  rw [newest?, extraValues, List.getLast?_map]
  cases bars.getLast? with
  | none => rfl
  | some b => exact (filter_getD_undefined _).symm

theorem before?_eq (bars : List Bar) (name : String) :
    before? bars name = (Context.lastButOne? (extraValues bars name)).filter Float.isFinite := by
  have hlast : Context.lastButOne? (extraValues bars name) =
      bars.dropLast.getLast?.map fun b => (b.extras.lookup name).getD undefined := by
    rw [extraValues, Context.lastButOne?, ← List.map_reverse, ← List.reverse_reverse bars,
      List.dropLast_reverse, List.getLast?_reverse, List.reverse_reverse]
    match bars.reverse with
    | [] | [_] | _ :: _ :: _ => rfl
  rw [before?, hlast]
  cases bars.dropLast.getLast? with
  | none => rfl
  | some b => exact (filter_getD_undefined _).symm

/-! ### Facts of columns -/

/-- The keys under which a column may have facts. -/
def keysOf (name : String) : List String :=
  [name, Context.previousKey name, Context.seriesKey name]

/-- **What a column puts under a key.** -/
def entry (name : String) (values : List Float) (key : String) : Option Fact :=
  if key = Context.seriesKey name then some (.series values)
  else if key = Context.previousKey name then
    ((Context.lastButOne? values).filter Float.isFinite).map .number
  else if key = name then (values.getLast?.filter Float.isFinite).map .number
  else none

/-- The facts with a number, if there is one and it is finite. -/
def withFinite (name : String) (o : Option Float) (facts : Table Fact) : Table Fact :=
  match o.filter Float.isFinite with
  | some x => Table.put name (.number x) facts
  | none => facts

theorem lookup_withFinite (name key : String) (o : Option Float) (facts : Table Fact) :
    (withFinite name o facts).lookup key =
      (if key = name then (o.filter Float.isFinite).map Fact.number else none).or
        (facts.lookup key) := by
  unfold withFinite
  cases o.filter Float.isFinite with
  | none => rw [Option.map_none, ite_self, Option.none_or]
  | some x =>
    dsimp only
    rw [Table.lookup_put, Option.map_some]
    split <;> rfl

theorem withColumn_eq {name : String} {values : List Float} (hvalues : values ≠ [])
    (facts : Table Fact) : withColumn name values facts =
      Table.put (Context.seriesKey name) (.series values)
        (withFinite (Context.previousKey name) (Context.lastButOne? values)
          (withFinite name values.getLast? facts)) := by
  have hfinite (key : String) (x : Float) (facts : Table Fact) :
      (if x.isFinite then Table.put key (.number x) facts else facts)
        = withFinite key (some x) facts := by
    rw [withFinite, Option.filter_some]
    cases x.isFinite <;> rfl
  unfold withColumn Context.lastButOne?
  rw [List.getLast?_eq_head?_reverse]
  match h : values.reverse with
  | [] => exact absurd (List.reverse_eq_nil_iff.mp h) hvalues
  | [newest] =>
    dsimp only
    rw [hfinite]
    rfl
  | newest :: before :: _ =>
    dsimp only
    rw [hfinite, hfinite]
    rfl

/-- A column changes what is found under its keys, and nothing else. -/
theorem lookup_withColumn {name : String} {values : List Float} (hvalues : values ≠ [])
    (facts : Table Fact) (key : String) : (withColumn name values facts).lookup key =
      (entry name values key).or (facts.lookup key) := by
  rw [withColumn_eq hvalues, Table.lookup_put, lookup_withFinite, lookup_withFinite, entry]
  by_cases hseries : key = Context.seriesKey name
  · rw [if_pos hseries, if_pos hseries]
    rfl
  · rw [if_neg hseries, if_neg hseries]
    by_cases hprevious : key = Context.previousKey name
    · have hname : key ≠ name := fun h => Context.ne_previousKey_self name (h.symm.trans hprevious)
      rw [if_pos hprevious, if_pos hprevious, if_neg hname, Option.none_or]
    · rw [if_neg hprevious, if_neg hprevious, Option.none_or]

theorem mem_keysOf {name key : String} : key ∈ keysOf name ↔
    key = name ∨ key = Context.previousKey name ∨ key = Context.seriesKey name := by
  simp [keysOf]

theorem entry_eq_none {name key : String} (h : key ∉ keysOf name) (values : List Float) :
    entry name values key = none := by
  simp only [mem_keysOf, not_or] at h
  rw [entry, if_neg h.2.2, if_neg h.2.1, if_neg h.1]

theorem mem_keysOf_of_entry {name key : String} {values : List Float}
    (h : entry name values key ≠ none) : key ∈ keysOf name := by
  by_contra hno
  exact h (entry_eq_none hno values)

/-- Under its name a column has its newest value. -/
theorem entry_self (bars : List Bar) (name : String) :
    entry name (extraValues bars name) name = (newest? bars name).map .number := by
  rw [entry, if_neg (Context.ne_seriesKey_self name), if_neg (Context.ne_previousKey_self name),
    if_pos rfl, newest?_eq]

theorem entry_previousKey (bars : List Bar) (name : String) :
    entry name (extraValues bars name) (Context.previousKey name)
      = (before? bars name).map .number := by
  have hne : Context.previousKey name ≠ Context.seriesKey name := by
    intro h
    rcases Context.previousKey_eq_seriesKey h with ⟨m, rfl, hm⟩ | ⟨rfl, hm⟩
    · exact absurd (congrArg (fun s => s.toList.length) hm) (by
        simp [Context.toList_seriesKey, Context.toList_previousKey])
    · exact absurd hm (by decide)
  rw [entry, if_neg hne, if_pos rfl, before?_eq]

theorem entry_seriesKey (name : String) (values : List Float) :
    entry name values (Context.seriesKey name) = some (.series values) := by
  rw [entry, if_pos rfl]

theorem map_number_ne_map (o : Option Float) (m : Table Float) :
    o.map Fact.number ≠ some (.map m) := by
  cases o <;> simp

theorem map_number_ne_series (o : Option Float) (xs : List Float) :
    o.map Fact.number ≠ some (.series xs) := by
  cases o <;> simp

/-- The facts of columns are numbers and series. -/
theorem entry_ne_map (name : String) (values : List Float) (key : String) (m : Table Float) :
    entry name values key ≠ some (.map m) := by
  unfold entry
  split
  · simp
  · split
    · exact map_number_ne_map _ m
    · split
      · exact map_number_ne_map _ m
      · simp

/-- The one series that a column has stands under the key for it. -/
theorem entry_series {name key : String} {values xs : List Float}
    (h : entry name values key = some (.series xs)) :
    key = Context.seriesKey name ∧ xs = values := by
  unfold entry at h
  split at h
  · cases h
    exact ⟨‹_›, rfl⟩
  · split at h
    · exact absurd h (map_number_ne_series _ xs)
    · split at h
      · exact absurd h (map_number_ne_series _ xs)
      · cases h

/-- **Of several columns with facts under one key the last counts.** -/
theorem lookup_foldl {α : Type} (columns : List α) (name : α → String) (values : α → List Float)
    (hvalues : ∀ n, values n ≠ []) (facts : Table Fact) (key : String) :
    (columns.foldl (fun facts n => withColumn (name n) (values n) facts) facts).lookup key =
      (columns.reverse.findSome? fun n => entry (name n) (values n) key).or (facts.lookup key) := by
  induction columns generalizing facts with
  | nil => rfl
  | cons n rest ih =>
    rw [List.foldl_cons, ih, lookup_withColumn (hvalues n), List.reverse_cons,
      List.findSome?_append, List.findSome?_singleton, Option.or_assoc]

section Columns

variable {bars : List Bar} {name key : String}

theorem columnFacts_lookup (hbars : bars ≠ []) (key : String) : (columnFacts bars).lookup key =
    ((extraColumns bars).reverse.findSome? fun n => entry n (extraValues bars n) key).or
      (coreColumns.reverse.findSome? fun e => entry e.1 (bars.map e.2) key) := by
  have hmap {f : Bar → Float} : bars.map f ≠ [] := fun h => hbars (List.map_eq_nil_iff.mp h)
  have hextra := lookup_foldl (extraColumns bars) id (extraValues bars) fun _ => hmap
  have hcore := lookup_foldl coreColumns Prod.fst (fun e => bars.map e.2) (fun _ => hmap) []
  refine (hextra _ key).trans (congrArg _ ((hcore key).trans ?_))
  exact Option.or_none

/-- A key under which no column has a fact has none. -/
theorem columnFacts_eq_none (hbars : bars ≠ []) (hcore : ∀ e ∈ coreColumns, key ∉ keysOf e.1)
    (hextra : ∀ n, HasColumn bars n → entry n (extraValues bars n) key = none) :
    (columnFacts bars).lookup key = none := by
  rw [columnFacts_lookup hbars, Option.or_eq_none_iff, List.findSome?_eq_none_iff,
    List.findSome?_eq_none_iff]
  exact ⟨fun n hn => hextra n (mem_extraColumns.mp (List.mem_reverse.mp hn)),
    fun e he => entry_eq_none (hcore e (List.mem_reverse.mp he)) _⟩

/-- A series is that of the column which the key is made of. -/
theorem columnFacts_series (hbars : bars ≠ []) {xs : List Float}
    (h : (columnFacts bars).lookup (Context.seriesKey name) = some (.series xs)) :
    (∃ e ∈ coreColumns, name = e.1) ∨ HasColumn bars name ∧ xs = extraValues bars name := by
  rw [columnFacts_lookup hbars] at h
  rcases Option.or_eq_some_iff.mp h with h | ⟨-, h⟩
  · obtain ⟨n, hn, hentry⟩ := List.exists_of_findSome?_eq_some h
    obtain ⟨hkey, rfl⟩ := entry_series hentry
    rw [Context.seriesKey_inj.mp hkey]
    exact .inr ⟨mem_extraColumns.mp (List.mem_reverse.mp hn), rfl⟩
  · obtain ⟨e, he, hentry⟩ := List.exists_of_findSome?_eq_some h
    exact .inl ⟨e, List.mem_reverse.mp he, Context.seriesKey_inj.mp (entry_series hentry).1⟩

theorem columnFacts_ne_map (hbars : bars ≠ []) (key : String) (m : Table Float) :
    (columnFacts bars).lookup key ≠ some (.map m) := by
  rw [columnFacts_lookup hbars]
  intro h
  rcases Option.or_eq_some_iff.mp h with h | ⟨-, h⟩
  · obtain ⟨n, -, hn⟩ := List.exists_of_findSome?_eq_some h
    exact entry_ne_map _ _ _ _ hn
  · obtain ⟨e, -, he⟩ := List.exists_of_findSome?_eq_some h
    exact entry_ne_map _ _ _ _ he

/-- Where one further column alone has a fact under a key, that one is found. -/
theorem columnFacts_of_only (hbars : bars ≠ []) (hcore : ∀ e ∈ coreColumns, key ∉ keysOf e.1)
    (hname : HasColumn bars name)
    (honly : ∀ n, HasColumn bars n → entry n (extraValues bars n) key ≠ none → n = name) :
    (columnFacts bars).lookup key = entry name (extraValues bars name) key := by
  rw [columnFacts_lookup hbars]
  have hnone : (coreColumns.reverse.findSome? fun e => entry e.1 (bars.map e.2) key) = none :=
    List.findSome?_eq_none_iff.mpr fun e he => entry_eq_none (hcore e (List.mem_reverse.mp he)) _
  rw [hnone, Option.or_none]
  cases h : (extraColumns bars).reverse.findSome? fun n => entry n (extraValues bars n) key with
  | none =>
    have hmem := List.mem_reverse.mpr (mem_extraColumns.mpr hname)
    exact (List.findSome?_eq_none_iff.mp h name hmem).symm
  | some fact =>
    obtain ⟨n, hn, hfact⟩ := List.exists_of_findSome?_eq_some h
    rw [← honly n (mem_extraColumns.mp (List.mem_reverse.mp hn)) (hfact ▸ Option.some_ne_none _),
      hfact]

/-- Where the other columns with a fact under the key come earlier, the last one is found if it has a
fact. -/
theorem columnFacts_of_last (hbars : bars ≠ []) (hname : HasColumn bars name)
    (hlast : ∀ n, HasColumn bars n → key ∈ keysOf n → n = name ∨ n < name) {fact : Fact}
    (hfact : entry name (extraValues bars name) key = some fact) :
    (columnFacts bars).lookup key = some fact := by
  rw [columnFacts_lookup hbars]
  have hordered := pairwise_extraColumns bars
  have hcolumns (n : String) (hn : n ∈ extraColumns bars) : HasColumn bars n :=
    mem_extraColumns.mp hn
  obtain ⟨earlier, later, hsplit⟩ := List.append_of_mem (mem_extraColumns.mpr hname)
  rw [hsplit] at hordered hcolumns ⊢
  have hlater : (later.reverse.findSome? fun n => entry n (extraValues bars n) key) = none := by
    refine List.findSome?_eq_none_iff.mpr fun n hn => entry_eq_none (fun hkey => ?_) _
    have hn := List.mem_reverse.mp hn
    have hlt : name < n := List.rel_of_pairwise_cons (List.pairwise_append.mp hordered).2.1 hn
    have hmem : n ∈ earlier ++ name :: later :=
      List.mem_append_right _ (List.mem_cons_of_mem _ hn)
    rcases hlast n (hcolumns n hmem) hkey with rfl | hgt
    · exact String.lt_irrefl _ hlt
    · exact String.lt_irrefl _ (String.lt_trans hlt hgt)
  rw [List.reverse_append, List.reverse_cons, List.findSome?_append, List.findSome?_append, hlater,
    Option.none_or, List.findSome?_singleton, hfact]
  rfl

end Columns

end Snapshot

end TopDown
