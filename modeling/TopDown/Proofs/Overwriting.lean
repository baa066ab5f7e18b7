import Mathlib.Data.List.Induction
import TopDown.Table

/-!
# Values that are overwritten

Where values are put under names one after the other, the last one counts. This file says which one
that is (`TopDown.Table.LastUnder`) and that it is the one that is found afterwards, in a table
(`TopDown.Table.lookup_foldl_put`) and in anything else that answers as a table does
(`TopDown.Table.lookup_or_of_steps`).
-/

namespace TopDown

namespace Table

variable {α : Type} {entries : List (String × α)} {name : String} {value : α}

/-- **The last value under a name** among some entries. -/
def LastUnder (entries : List (String × α)) (name : String) (value : α) : Prop :=
  ∃ before after, entries = before ++ (name, value) :: after ∧ name ∉ after.map (·.1)

theorem LastUnder.mem (h : LastUnder entries name value) : (name, value) ∈ entries := by
  obtain ⟨before, after, rfl, -⟩ := h
  simp

/-- The last value is the first one that is found from behind. -/
theorem lastUnder_iff : LastUnder entries name value ↔ entries.reverse.lookup name = some value := by
  rw [List.lookup_eq_some_iff]
  constructor
  · rintro ⟨before, after, rfl, hnot⟩
    refine ⟨after.reverse, before.reverse, by simp, fun e he => ?_⟩
    rw [bne_iff_ne]
    rintro rfl
    exact hnot (List.mem_map_of_mem (List.mem_reverse.mp he))
  · rintro ⟨after, before, heq, hnot⟩
    refine ⟨before.reverse, after.reverse, ?_, fun hmem => ?_⟩
    · rw [← List.reverse_reverse entries, heq]
      simp
    · obtain ⟨e, he, rfl⟩ := List.mem_map.mp hmem
      exact absurd rfl (bne_iff_ne.mp (hnot e (List.mem_reverse.mp he)))

theorem LastUnder.unique {value' : α} (h : LastUnder entries name value)
    (h' : LastUnder entries name value') : value = value' :=
  Option.some.inj ((lastUnder_iff.mp h).symm.trans (lastUnder_iff.mp h'))

/-- There is a last value under each name that occurs. -/
theorem exists_lastUnder : (∃ value, LastUnder entries name value) ↔ name ∈ entries.map (·.1) := by
  simp only [lastUnder_iff]
  rw [← Option.isSome_iff_exists, List.lookup_isSome_iff]
  simp

/-- **What is overwritten one step at a time**, in states `s` that answer `find`: after some entries
the last one under a name is found, and what was there before where there is none. -/
theorem lookup_or_of_steps {σ : Type} {step : σ → String × α → σ} (find : σ → Option α)
    (hstep : ∀ s e, find (step s e) = if name = e.1 then some e.2 else find s) (s : σ) :
    find (entries.foldl step s) = (entries.reverse.lookup name).or (find s) := by
  induction entries using List.reverseRecOn with
  | nil => rfl
  | append_singleton entries e ih =>
    rw [List.foldl_append, List.foldl_cons, List.foldl_nil, hstep, List.reverse_append,
      List.reverse_singleton, List.singleton_append, List.lookup_cons]
    by_cases hname : name = e.1
    · simp [hname]
    · have hb : (name == e.1) = false := by simp [hname]
      rw [if_neg hname, hb, ih]

theorem lookup_foldl_put (t : Table α) :
    (entries.foldl (fun t e => put e.1 e.2 t) t).lookup name =
      (entries.reverse.lookup name).or (t.lookup name) :=
  lookup_or_of_steps (·.lookup name) (fun t e => lookup_put e.1 name e.2 t) t

theorem lookup_ofEntries (entries : List (String × α)) (name : String) :
    (ofEntries entries).lookup name = entries.reverse.lookup name := by
  rw [ofEntries, lookup_foldl_put, List.lookup_nil, Option.or_none]

/-- **A table of entries** has the last value under each name. -/
theorem lookup_ofEntries_eq_some : (ofEntries entries).lookup name = some value ↔
    LastUnder entries name value := by
  rw [lastUnder_iff, lookup_ofEntries]

/-- Where the entries of a name agree, its value is theirs. -/
theorem lookup_ofEntries_of_agree
    (h : ∀ v v', (name, v) ∈ entries → (name, v') ∈ entries → v = v') :
    (ofEntries entries).lookup name = some value ↔ (name, value) ∈ entries := by
  rw [lookup_ofEntries_eq_some]
  refine ⟨LastUnder.mem, fun hmem => ?_⟩
  obtain ⟨v, hlast⟩ := exists_lastUnder.mpr (List.mem_map_of_mem (f := (·.1)) hmem)
  rwa [h value v hmem hlast.mem]

end Table

end TopDown
