import TopDown.KillSwitch

/-!
# What the kill switch tells of its calls

Operators switch symbols off, and operators and runs disable symbols for some time, in any order and
any number of times. The kill switch keeps of all this what is switched off, and one instant for each
symbol. Here it is shown which one: the latest of the ends of all timed disables of the symbol
(`TopDown.KillSwitch.Follows`). So the order of the calls does not matter
(`TopDown.KillSwitch.Follows.disabledUntil_perm`), and a further call never brings a symbol back
(`TopDown.KillSwitch.Follows.later`, `TopDown.KillSwitch.Follows.allows_of_later`).

A duration that leads out of the calendar has no end. Such a call breaks down and changes nothing.
-/

namespace TopDown

/-! ### The order of time -/

namespace Instant

variable {a b c : Instant}

theorem upTo_iff : a.upTo b = true ↔
    a.seconds < b.seconds ∨ (a.seconds = b.seconds ∧ a.nanos ≤ b.nanos) := by
  simp only [upTo, before, Bool.not_eq_true', Bool.or_eq_false_iff, Bool.and_eq_false_iff,
    decide_eq_false_iff_not]
  omega

theorem upTo_refl (a : Instant) : a.upTo a = true :=
  upTo_iff.mpr (.inr ⟨rfl, Nat.le_refl _⟩)

theorem upTo_trans (hab : a.upTo b = true) (hbc : b.upTo c = true) : a.upTo c = true := by
  rw [upTo_iff] at hab hbc ⊢
  omega

theorem upTo_antisymm (hab : a.upTo b = true) (hba : b.upTo a = true) : a = b := by
  rw [upTo_iff] at hab hba
  have hseconds : a.seconds = b.seconds := by omega
  have hnanos : a.nanos = b.nanos := by omega
  cases a
  cases b
  exact congr (congrArg Instant.mk hseconds) hnanos

theorem upTo_eq_false : a.upTo b = false ↔ b.before a = true := by
  rw [upTo, Bool.not_eq_false']

theorem upTo_of_before (h : a.before b = true) : a.upTo b = true := by
  simp only [before, Bool.or_eq_true, Bool.and_eq_true, decide_eq_true_eq] at h
  rw [upTo_iff]
  omega

/-- The later of two instants is one of them, and neither comes after it. -/
theorem latest_spec (a b : Instant) :
    (a.latest b = a ∨ a.latest b = b) ∧ a.upTo (a.latest b) = true ∧ b.upTo (a.latest b) = true := by
  unfold latest
  split
  · rename_i h
    exact ⟨.inr rfl, upTo_of_before h, upTo_refl b⟩
  · rename_i h
    exact ⟨.inl rfl, upTo_refl a, (Bool.not_eq_true' _).mpr (Bool.not_eq_true _ ▸ h)⟩

/-- **The latest of some instants**, if there are any. -/
def LatestOf (instants : List Instant) : Option Instant → Prop
  | none => instants = []
  | some t => t ∈ instants ∧ ∀ u ∈ instants, u.upTo t = true

variable {instants more : List Instant} {t : Instant} {o o' : Option Instant}

/-- There is one latest instant, and the order in which the instants are listed does not matter. -/
theorem LatestOf.unique (h : LatestOf instants o) (h' : LatestOf more o')
    (hsame : ∀ t, t ∈ instants ↔ t ∈ more) : o = o' := by
  cases o with
  | none =>
    cases o' with
    | none => rfl
    | some t =>
      have ht : t ∈ instants := (hsame t).mpr h'.1
      rw [show instants = [] from h] at ht
      exact absurd ht List.not_mem_nil
  | some t =>
    have ht : t ∈ more := (hsame t).mp h.1
    cases o' with
    | none =>
      rw [show more = [] from h'] at ht
      exact absurd ht List.not_mem_nil
    | some t' => exact congrArg some (upTo_antisymm (h'.2 t ht) (h.2 t' ((hsame t').mpr h'.1)))

/-- Where there are more instants, the latest of them does not come earlier. -/
theorem LatestOf.upTo_of_subset (h : LatestOf instants (some t)) (h' : LatestOf more o)
    (hsub : ∀ t ∈ instants, t ∈ more) : ∃ u, o = some u ∧ t.upTo u = true := by
  have ht : t ∈ more := hsub t h.1
  cases o with
  | none =>
    rw [show more = [] from h'] at ht
    exact absurd ht List.not_mem_nil
  | some u => exact ⟨u, rfl, h'.2 t ht⟩

/-- One more instant is the latest if it comes after the one that was. -/
theorem LatestOf.snoc (h : LatestOf instants o) (t : Instant) :
    LatestOf (instants ++ [t]) (some ((o.map fun earlier => earlier.latest t).getD t)) := by
  cases o with
  | none =>
    rw [show instants = [] from h]
    exact ⟨List.mem_singleton_self t, fun u hu => by
      rw [List.mem_singleton.mp hu]
      exact upTo_refl t⟩
  | some s =>
    obtain ⟨hone, hs, ht⟩ := latest_spec s t
    refine ⟨?_, fun u hu => ?_⟩
    · show s.latest t ∈ instants ++ [t]
      rcases hone with hone | hone
      · rw [hone]
        exact List.mem_append_left _ h.1
      · rw [hone]
        exact List.mem_append_right _ (List.mem_singleton_self t)
    · show u.upTo (s.latest t) = true
      rcases List.mem_append.mp hu with hu | hu
      · exact upTo_trans (h.2 u hu) hs
      · rw [List.mem_singleton.mp hu]
        exact ht

end Instant

namespace KillSwitch

/-! ### Calls -/

/-- A call of the kill switch. -/
inductive Call where
  /-- A symbol is switched off on a timeframe. -/
  | switchOff (symbol : String) (tf : Timeframe)
  /-- A symbol is disabled for some seconds from now on. -/
  | disableFor (symbol : String) (seconds : Int) (now : Instant)
  /-- A symbol is disabled until an instant, which may be the end of a duration in parts of
  seconds. -/
  | disableUntil (symbol : String) (t : Instant)
  deriving DecidableEq

/-- When the timed disable of the symbol ends that the call asks for, if it is such a call. -/
def Call.end? (symbol : String) : Call → Option Instant
  | .switchOff _ _ => none
  | .disableFor s seconds now => if s = symbol then (now.later seconds).toOption else none
  | .disableUntil s t => if s = symbol then some t else none

/-- The ends of all timed disables of a symbol. -/
def endsOf (symbol : String) (calls : List Call) : List Instant :=
  calls.filterMap (Call.end? symbol)

/-- What a call does. One that breaks down does nothing. -/
def obey (k : KillSwitch) : Call → KillSwitch
  | .switchOff symbol tf => k.switchOff symbol tf
  | .disableFor symbol seconds now => (k.disableFor symbol seconds now).toOption.getD k
  | .disableUntil symbol t => k.disableUntil symbol t

/-- The switch after some calls. -/
def after (calls : List Call) : KillSwitch :=
  calls.foldl obey clear

/-- A timed disable of whole seconds is one until its end, if it has one. -/
theorem obey_disableFor (k : KillSwitch) (symbol : String) (seconds : Int) (now : Instant) :
    k.obey (.disableFor symbol seconds now) =
      match now.later seconds with
      | .ok t => k.obey (.disableUntil symbol t)
      | .error _ => k := by
  show (k.disableFor symbol seconds now).toOption.getD k = _
  unfold disableFor
  cases now.later seconds <;> rfl

/-- No call switches anything on. -/
theorem off_obey (k : KillSwitch) (c : Call) : k.off ⊆ (k.obey c).off := by
  cases c with
  | switchOff symbol tf => exact List.subset_cons_self _ _
  | disableUntil symbol t => exact List.Subset.refl _
  | disableFor symbol seconds now =>
    rw [obey_disableFor]
    cases now.later seconds with
    | ok t => exact List.Subset.refl _
    | error crash => exact List.Subset.refl _

/-! ### What is kept of the calls -/

/-- **The switch follows some calls**: it tells what they have switched off, and of each symbol when
the last of its timed disables ends. -/
structure Follows (k : KillSwitch) (calls : List Call) : Prop where
  /-- What is switched off. -/
  off : ∀ symbol tf, k.off.contains (symbol, tf) = true ↔ .switchOff symbol tf ∈ calls
  /-- When the timed disables end. -/
  ends : ∀ symbol, Instant.LatestOf (endsOf symbol calls) (k.disabledUntil symbol)

section Follows

variable {k : KillSwitch} {calls more : List Call} {symbol : String} {tf : Timeframe}

theorem endsOf_append (symbol : String) (calls more : List Call) :
    endsOf symbol (calls ++ more) = endsOf symbol calls ++ endsOf symbol more :=
  List.filterMap_append

/-- A call without an end for a symbol adds none. -/
theorem endsOf_snoc_none {c : Call} (h : c.end? symbol = none) :
    endsOf symbol (calls ++ [c]) = endsOf symbol calls := by
  rw [endsOf_append, endsOf, endsOf, List.filterMap_cons_none h, List.filterMap_nil, List.append_nil]

theorem endsOf_snoc_some {c : Call} {t : Instant} (h : c.end? symbol = some t) :
    endsOf symbol (calls ++ [c]) = endsOf symbol calls ++ [t] := by
  rw [endsOf_append, endsOf, endsOf, List.filterMap_cons_some h, List.filterMap_nil]

/-- A switch that nobody has called tells of no call. -/
theorem follows_clear : Follows clear [] where
  off symbol tf := ⟨fun h => absurd h (by simp [clear]), fun h => absurd h List.not_mem_nil⟩
  ends _ := rfl

/-- A call that does nothing, with no end and nothing that it switches off. -/
theorem Follows.idle (h : Follows k calls) {c : Call} (hoff : ∀ s t, c ≠ .switchOff s t)
    (hend : ∀ symbol, c.end? symbol = none) : Follows k (calls ++ [c]) where
  off symbol tf := by
    rw [h.off, List.mem_append, List.mem_singleton]
    exact ⟨.inl, fun hc => hc.resolve_right fun hc => hoff symbol tf hc.symm⟩
  ends symbol := by
    rw [endsOf_snoc_none (hend symbol)]
    exact h.ends symbol

/-- A call that disables a symbol until an instant, however it is written. -/
theorem Follows.disable (h : Follows k calls) {c : Call} {t : Instant}
    (hoff : ∀ s t, c ≠ .switchOff s t)
    (hend : ∀ s, c.end? s = if symbol = s then some t else none) :
    Follows (k.disableUntil symbol t) (calls ++ [c]) where
  off s tf := by
    rw [List.mem_append, List.mem_singleton]
    exact (h.off s tf).trans ⟨.inl, fun hc => hc.resolve_right fun hc => hoff s tf hc.symm⟩
  ends s := by
    by_cases hs : symbol = s
    · subst hs
      have hlookup : (k.disableUntil symbol t).disabledUntil symbol =
          some (((k.disabledUntil symbol).map fun earlier => earlier.latest t).getD t) :=
        Table.lookup_put_self ..
      rw [endsOf_snoc_some ((hend symbol).trans (if_pos rfl)), hlookup]
      exact (h.ends symbol).snoc t
    · have hlookup : (k.disableUntil symbol t).disabledUntil s = k.disabledUntil s :=
        Table.lookup_put_of_ne (Ne.symm hs) _ _
      rw [endsOf_snoc_none ((hend s).trans (if_neg hs)), hlookup]
      exact h.ends s

/-- **One more call.** -/
theorem Follows.obey (h : Follows k calls) (c : Call) : Follows (k.obey c) (calls ++ [c]) := by
  cases c with
  | switchOff symbol tf =>
    refine ⟨fun s t => ?_, fun s => ?_⟩
    · show ((symbol, tf) :: k.off).contains (s, t) = true ↔ _
      rw [List.contains_cons, Bool.or_eq_true, h.off, beq_iff_eq, Prod.mk.injEq, List.mem_append,
        List.mem_singleton, Call.switchOff.injEq]
      exact Or.comm
    · rw [endsOf_snoc_none rfl]
      exact h.ends s
  | disableFor symbol seconds now =>
    rw [obey_disableFor]
    -- it has an end, or it breaks down
    cases hlater : now.later seconds with
    | ok t =>
      exact h.disable (fun _ _ hc => nomatch hc) fun s => by
        show (if symbol = s then (now.later seconds).toOption else none) = _
        rw [hlater]
        rfl
    | error crash =>
      exact h.idle (fun _ _ hc => nomatch hc) fun s => by
        show (if symbol = s then (now.later seconds).toOption else none) = none
        rw [hlater]
        split <;> rfl
  | disableUntil symbol t => exact h.disable (fun _ _ hc => nomatch hc) fun _ => rfl

/-- **Any number of further calls.** -/
theorem Follows.foldl_obey (h : Follows k calls) (more : List Call) :
    Follows (more.foldl KillSwitch.obey k) (calls ++ more) := by
  induction more generalizing k calls with
  | nil =>
    rw [List.append_nil]
    exact h
  | cons c rest ih =>
    rw [← List.singleton_append, ← List.append_assoc]
    exact ih (h.obey c)

theorem follows_after (calls : List Call) : Follows (after calls) calls :=
  follows_clear.foldl_obey calls

/-- **The order of the calls does not matter.** -/
theorem Follows.disabledUntil_perm {k' : KillSwitch} (h : Follows k calls) (h' : Follows k' more)
    (hperm : calls.Perm more) (symbol : String) : k.disabledUntil symbol = k'.disabledUntil symbol :=
  (h.ends symbol).unique (h'.ends symbol) fun _ => (hperm.filterMap (Call.end? symbol)).mem_iff

/-- **Further calls never shorten a timed disable.** -/
theorem Follows.later {k' : KillSwitch} (h : Follows k calls) (h' : Follows k' (calls ++ more))
    {t : Instant} (ht : k.disabledUntil symbol = some t) :
    ∃ u, k'.disabledUntil symbol = some u ∧ t.upTo u = true := by
  have hends := h.ends symbol
  rw [ht] at hends
  refine hends.upTo_of_subset (h'.ends symbol) fun u hu => ?_
  rw [endsOf_append]
  exact List.mem_append_left _ hu

/-- **What the switch allows**: what was never switched off, once all timed disables have ended. -/
theorem Follows.allows_iff (h : Follows k calls) {now : Instant} : k.allows symbol tf now = true ↔
    .switchOff symbol tf ∉ calls ∧ ∀ t, k.disabledUntil symbol = some t → t.upTo now = true := by
  rw [allows, Bool.and_eq_true, Bool.not_eq_true', Option.all_eq_true, ← h.off symbol tf,
    Bool.not_eq_true]

/-- What the switch allows after further calls, it has allowed before. -/
theorem Follows.allows_of_later {k' : KillSwitch} (h : Follows k calls)
    (h' : Follows k' (calls ++ more)) {now : Instant} (hallows : k'.allows symbol tf now = true) :
    k.allows symbol tf now = true := by
  obtain ⟨hoff, hends⟩ := h'.allows_iff.mp hallows
  refine h.allows_iff.mpr ⟨fun hc => hoff (List.mem_append_left _ hc), fun t ht => ?_⟩
  obtain ⟨u, hu, htu⟩ := h.later h' ht
  exact Instant.upTo_trans htu (hends u hu)

end Follows

end KillSwitch

end TopDown
