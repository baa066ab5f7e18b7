import TopDown.Proofs.Overwriting
import TopDown.Proofs.Registry

/-!
# A history of registrations

A registry is made by registering conditions one after the other. This file says what it then answers,
in terms of that history alone (`TopDown.Registry.Represents`): which names it has, that it has each of
them once, in a place that can be looked up under the name, and that in this place stands the condition
that was registered last.

One registration keeps the places of all names, and the conditions of all names but its own; so it is
with any number of them (`TopDown.Registry.find?_registerAll`, `TopDown.Registry.place?_registerAll`).
Those who look up a name once can therefore go on asking its place. Those who ask for several names at
a time are told of the first one that is not there, before any condition is checked
(`TopDown.Registry.resolve_of_unknown`), and else have the verdict of every name they asked for.
-/

namespace TopDown

namespace Registry

variable {r : Registry} {calls : List (String × Condition)} {name key : String} {i : Nat}

/-! ### Any number of registrations -/

theorem registerAll_append (r : Registry) (calls later : List (String × Condition)) :
    r.registerAll (calls ++ later) = (r.registerAll calls).registerAll later :=
  List.foldl_append

/-- **A place is kept**, whatever is registered later. -/
theorem place?_registerAll (h : r.place? name = some i) :
    (r.registerAll calls).place? name = some i := by
  induction calls generalizing r with
  | nil => exact h
  | cons call calls ih => exact ih (place?_register h)

theorem mem_names_registerAll :
    name ∈ (r.registerAll calls).names ↔ name ∈ r.names ∨ name ∈ calls.map (·.1) := by
  induction calls generalizing r with
  | nil => simp [registerAll]
  | cons call calls ih =>
    have hrest : name ∈ ((r.register call.1 call.2).registerAll calls).names ↔ _ := ih
    rw [List.map_cons, List.mem_cons, ← or_assoc, ← mem_names_register]
    exact hrest

/-- **The condition of a name** is the one that was registered last, or else the one of before. -/
theorem find?_registerAll (r : Registry) (calls : List (String × Condition)) (name : String) :
    (r.registerAll calls).find? name = (calls.reverse.lookup name).or (r.find? name) :=
  Table.lookup_or_of_steps (·.find? name) (fun r call => find?_register r call.1 name call.2) r

/-- In the place of a name its condition is checked. -/
theorem evaluateAt_of_place? (h : r.place? name = some i) {condition : Condition}
    (hfind : r.find? name = some condition) (c : Context) : r.evaluateAt i c = condition c := by
  rw [evaluateAt, at?_of_place? h, hfind]

/-- Where a registration leaves a place alone, the verdict there is the same. -/
theorem evaluateAt_register (hkey : key ≠ name) (condition : Condition) (h : r.place? key = some i)
    (c : Context) : (r.register name condition).evaluateAt i c = r.evaluateAt i c := by
  obtain ⟨k, hk⟩ := Option.isSome_iff_exists.mp
    (find?_isSome.mpr (place?_isSome.mp (by rw [h]; rfl)))
  have hfind : (r.register name condition).find? key = some k := by
    rw [find?_register, if_neg hkey, hk]
  rw [evaluateAt_of_place? h hk, evaluateAt_of_place? (place?_register h) hfind]

/-! ### Several names at a time -/

/-- **Names that are known have their places.** -/
theorem resolve_of_known {names : List String} (h : ∀ name ∈ names, name ∈ r.names) :
    ∃ places, r.resolve names = .ok places ∧
      ∀ name i, (name, i) ∈ places ↔ name ∈ names ∧ r.place? name = some i := by
  induction names with
  | nil => exact ⟨[], rfl, by simp⟩
  | cons n names ih =>
    obtain ⟨places, hplaces, hmem⟩ := ih fun name hname => h name (List.mem_cons_of_mem _ hname)
    obtain ⟨j, hj⟩ := Option.isSome_iff_exists.mp (place?_isSome.mpr (h n List.mem_cons_self))
    refine ⟨(n, j) :: places, ?_, fun name i => ?_⟩
    · rw [resolve, hj, hplaces]
      rfl
    · rw [List.mem_cons, List.mem_cons, Prod.mk.injEq, hmem]
      constructor
      · rintro (⟨rfl, rfl⟩ | ⟨hname, hi⟩)
        · exact ⟨.inl rfl, hj⟩
        · exact ⟨.inr hname, hi⟩
      · rintro ⟨rfl | hname, hi⟩
        · exact .inl ⟨rfl, Option.some.inj (hi.symm.trans hj)⟩
        · exact .inr ⟨hname, hi⟩

/-- **The first name that is not known is reported.** -/
theorem resolve_of_unknown {before : List String} (hbefore : ∀ name ∈ before, name ∈ r.names)
    (hname : name ∉ r.names) (after : List String) :
    r.resolve (before ++ name :: after) = .error (.unknownCondition name [.key "registry"]) := by
  induction before with
  | nil => rw [List.nil_append, resolve, place?_eq_none_iff.mpr hname]
  | cons n before ih =>
    obtain ⟨j, hj⟩ := Option.isSome_iff_exists.mp (place?_isSome.mpr (hbefore n List.mem_cons_self))
    rw [List.cons_append, resolve, hj, ih fun name hmem => hbefore name (List.mem_cons_of_mem _ hmem)]
    rfl

/-- Names are all known, or there is a first one that is not. -/
theorem known_or_first (r : Registry) (names : List String) :
    (∀ name ∈ names, name ∈ r.names) ∨ ∃ before name after, names = before ++ name :: after ∧
      (∀ m ∈ before, m ∈ r.names) ∧ name ∉ r.names := by
  induction names with
  | nil => exact .inl (by simp)
  | cons n names ih =>
    by_cases hn : n ∈ r.names
    · rcases ih with hknown | ⟨before, name, after, rfl, hbefore, hname⟩
      · exact .inl (List.forall_mem_cons.mpr ⟨hn, hknown⟩)
      · exact .inr ⟨n :: before, name, after, rfl, List.forall_mem_cons.mpr ⟨hn, hbefore⟩, hname⟩
    · exact .inr ⟨[], n, names, rfl, by simp, hn⟩

/-- **The verdicts of known names**, one under each name. -/
theorem evaluate_of_known {names : List String} (h : ∀ name ∈ names, name ∈ r.names) (c : Context) :
    ∃ t, r.evaluate c names = .ok t ∧ Table.Ordered t ∧ ∀ name v, t.lookup name = some v ↔
      name ∈ names ∧ ∃ i, r.place? name = some i ∧ v = r.evaluateAt i c := by
  obtain ⟨places, hplaces, hmem⟩ := resolve_of_known h
  refine ⟨Table.ofEntries (places.map fun e => (e.1, r.evaluateAt e.2 c)), ?_,
    Table.ordered_ofEntries _, fun name v => ?_⟩
  · rw [evaluate, hplaces]
    rfl
  · have hentry {v : Verdict} : (name, v) ∈ places.map (fun e => (e.1, r.evaluateAt e.2 c)) ↔
        name ∈ names ∧ ∃ i, r.place? name = some i ∧ v = r.evaluateAt i c := by
      rw [List.mem_map]
      constructor
      · rintro ⟨⟨n, i⟩, hplace, heq⟩
        cases heq
        obtain ⟨hname, hi⟩ := (hmem n i).mp hplace
        exact ⟨hname, i, hi, rfl⟩
      · rintro ⟨hname, i, hi, rfl⟩
        exact ⟨(name, i), (hmem name i).mpr ⟨hname, hi⟩, rfl⟩
    -- a name that is asked for twice has the same verdict each time
    rw [Table.lookup_ofEntries_of_agree fun v v' hv hv' => ?_, hentry]
    obtain ⟨-, i, hi, rfl⟩ := hentry.mp hv
    obtain ⟨-, j, hj, rfl⟩ := hentry.mp hv'
    rw [Option.some.inj (hi.symm.trans hj)]

/-! ### What a history comes to -/

/-- **The registry represents a history of registrations.** -/
structure Represents (r : Registry) (calls : List (String × Condition)) : Prop where
  /-- No name is there twice. -/
  nodup : r.names.Nodup
  /-- The place of a name is where it stands. -/
  place_iff : ∀ name i, r.place? name = some i ↔ r.names[i]? = some name
  /-- A name has no place if it was never registered. -/
  absent_iff : ∀ name, r.place? name = none ↔ name ∉ calls.map (·.1)
  /-- In the place of a name the condition is checked that was registered last. -/
  checks : ∀ name i, r.place? name = some i → ∃ condition, Table.LastUnder calls name condition ∧
    ∀ c, r.evaluateAt i c = condition c
  /-- Of several names the first one is reported that was never registered. -/
  error_iff : ∀ c names e, r.evaluate c names = .error e ↔
    ∃ before name after, names = before ++ name :: after ∧ (∀ m ∈ before, m ∈ calls.map (·.1)) ∧
      name ∉ calls.map (·.1) ∧ e = .unknownCondition name [.key "registry"]
  /-- If they all were, each has the verdict of the condition that was registered last. -/
  verdicts : ∀ c names, (∀ name ∈ names, name ∈ calls.map (·.1)) →
    ∃ t, r.evaluate c names = .ok t ∧ Table.Ordered t ∧ ∀ name v, t.lookup name = some v ↔
      name ∈ names ∧ ∃ condition, Table.LastUnder calls name condition ∧ v = condition c

section History

variable (calls)

theorem mem_names_history : name ∈ (empty.registerAll calls).names ↔ name ∈ calls.map (·.1) := by
  rw [mem_names_registerAll]
  simp [empty, names]

/-- The condition that was registered last stands in the place of its name. -/
theorem evaluateAt_history (h : (empty.registerAll calls).place? name = some i) :
    ∃ condition, Table.LastUnder calls name condition ∧
      ∀ c, (empty.registerAll calls).evaluateAt i c = condition c := by
  have hname := place?_isSome.mp (Option.isSome_iff_exists.mpr ⟨i, h⟩)
  obtain ⟨condition, hlast⟩ := Table.exists_lastUnder.mpr ((mem_names_history calls).mp hname)
  refine ⟨condition, hlast, evaluateAt_of_place? h ?_⟩
  rw [find?_registerAll, Table.lastUnder_iff.mp hlast, Option.some_or]

theorem evaluate_history_error (c : Context) (names : List String) (e : Fault) :
    (empty.registerAll calls).evaluate c names = .error e ↔
      ∃ before name after, names = before ++ name :: after ∧ (∀ m ∈ before, m ∈ calls.map (·.1)) ∧
        name ∉ calls.map (·.1) ∧ e = .unknownCondition name [.key "registry"] := by
  simp only [← mem_names_history]
  have hreport {before after : List String} {name : String}
      (hbefore : ∀ m ∈ before, m ∈ (empty.registerAll calls).names)
      (hname : name ∉ (empty.registerAll calls).names) :
      (empty.registerAll calls).evaluate c (before ++ name :: after) =
        .error (.unknownCondition name [.key "registry"]) := by
    rw [evaluate, resolve_of_unknown hbefore hname]
    rfl
  constructor
  · intro h
    rcases known_or_first (empty.registerAll calls) names with
      hknown | ⟨before, name, after, rfl, hbefore, hname⟩
    · obtain ⟨t, ht, -⟩ := evaluate_of_known hknown c
      cases ht.symm.trans h
    · exact ⟨before, name, after, rfl, hbefore, hname,
        Except.error.inj (h.symm.trans (hreport hbefore hname))⟩
  · rintro ⟨before, name, after, rfl, hbefore, hname, rfl⟩
    exact hreport hbefore hname

theorem evaluate_history_ok (c : Context) {names : List String}
    (h : ∀ name ∈ names, name ∈ calls.map (·.1)) :
    ∃ t, (empty.registerAll calls).evaluate c names = .ok t ∧ Table.Ordered t ∧
      ∀ name v, t.lookup name = some v ↔ name ∈ names ∧
        ∃ condition, Table.LastUnder calls name condition ∧ v = condition c := by
  have hknown : ∀ name ∈ names, name ∈ (empty.registerAll calls).names :=
    fun name hname => (mem_names_history calls).mpr (h name hname)
  obtain ⟨t, ht, hordered, hlookup⟩ := evaluate_of_known hknown c
  refine ⟨t, ht, hordered, fun name v => (hlookup name v).trans (and_congr_right fun hname => ?_)⟩
  obtain ⟨i, hi⟩ := Option.isSome_iff_exists.mp (place?_isSome.mpr (hknown name hname))
  obtain ⟨condition, hlast, hchecks⟩ := evaluateAt_history calls hi
  constructor
  · rintro ⟨j, hj, rfl⟩
    obtain rfl : i = j := Option.some.inj (hi.symm.trans hj)
    exact ⟨condition, hlast, hchecks c⟩
  · rintro ⟨condition', hlast', rfl⟩
    obtain rfl := hlast.unique hlast'
    exact ⟨i, hi, (hchecks c).symm⟩

/-- **A registry is what its history makes it.** After any sequence of registrations the registry
represents them: no name is there twice, the place of a name is where it stands, a name has a place if
and only if it was registered, and there the condition is checked that was registered last. A place that
was given out on the way is still the place of its name. Where several names are asked for, the first
one that was never registered is reported, if there is one; or else each of them has the verdict of the
condition that was registered last under it, and no other name has one. And one registration, in any
registry, changes neither the place of another name nor what is checked there. -/
theorem registerAll_represents :
    (empty.registerAll calls).Represents calls ∧
      (∀ before name condition after, calls = before ++ (name, condition) :: after →
        (empty.registerAll calls).names[((empty.registerAll before).enter name condition).2]? =
          some name) ∧
      ∀ (r : Registry) name condition other, other ≠ name →
        (r.register name condition).place? other = r.place? other ∧
          ∀ i, r.place? other = some i → ∀ c,
            (r.register name condition).evaluateAt i c = r.evaluateAt i c := by
  refine ⟨⟨nodup_names _, fun _ _ => place?_eq_some_iff, fun name => ?_,
    fun _ _ => evaluateAt_history calls, evaluate_history_error calls,
    fun c _ => evaluate_history_ok calls c⟩, ?_, fun r name condition other hother => ⟨?_, ?_⟩⟩
  · rw [place?_eq_none_iff, mem_names_history]
  · rintro before name condition after rfl
    have hgiven := place?_register_eq (empty.registerAll before) name name condition
    rw [if_pos rfl] at hgiven
    have hkept : (((empty.registerAll before).register name condition).registerAll after).place? name =
        some ((empty.registerAll before).enter name condition).2 := place?_registerAll hgiven
    rw [registerAll_append]
    exact place?_eq_some_iff.mp hkept
  · rw [place?_register_eq, if_neg hother]
  · exact fun i hi c => evaluateAt_register hother condition hi c

end History

/-- The verdict of one who always says the same. -/
def saying (passed : Bool) : Condition := fun _ => .decided passed .null none

/-- A condition is registered, another one, and then the first one again with another verdict. -/
def changedMind : List (String × Condition) :=
  [("open", saying true), ("liquid", saying true), ("open", saying false)]

/-- The place that the first registration gave out is still that of its name, and there the third one
counts. Of names that were never registered the first one is reported. -/
theorem registerAll_represents_changedMind :
    (empty.registerAll changedMind).names[(empty.enter "open" (saying true)).2]? = some "open" ∧
      (empty.registerAll changedMind).place? "open" = some 0 ∧
      (∃ condition, Table.LastUnder changedMind "open" condition ∧
        ∀ c, (empty.registerAll changedMind).evaluateAt 0 c = condition c) ∧
      (∀ c, ∃ t, (empty.registerAll changedMind).evaluate c ["open", "open"] = .ok t) ∧
      ("liquid" ≠ "open" ∧ ∀ c,
        ((empty.registerAll changedMind).register "open" (saying true)).evaluateAt 1 c =
          (empty.registerAll changedMind).evaluateAt 1 c) ∧
      ∀ c, (empty.registerAll changedMind).evaluate c ["liquid", "deep", "wide"] =
        .error (.unknownCondition "deep" [.key "registry"]) := by
  obtain ⟨hrepresents, hkept, hframe⟩ := registerAll_represents changedMind
  have hopen : (empty.registerAll changedMind).place? "open" = some 0 := by decide +kernel
  have hliquid : (empty.registerAll changedMind).place? "liquid" = some 1 := by decide +kernel
  refine ⟨hkept [] "open" (saying true) _ rfl, hopen, hrepresents.checks "open" 0 hopen,
    fun c => ?_, ⟨by decide, (hframe _ "open" (saying true) "liquid" (by decide)).2 1 hliquid⟩,
    fun c => ?_⟩
  · obtain ⟨t, ht, -⟩ := hrepresents.verdicts c ["open", "open"] (by decide)
    exact ⟨t, ht⟩
  · exact (hrepresents.error_iff c _ _).mpr
      ⟨["liquid"], "deep", ["wide"], rfl, by decide, by decide, rfl⟩

end Registry

end TopDown
