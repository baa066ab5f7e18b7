import TopDown.Proofs.Agreement
import TopDown.Proofs.Remarks

/-!
# What a review looks up

A review remembers every name that a rule refers to, and in the end it warns of the rules that no
name has led to. This file says what such a warning means. The remarks on a rule mirror its reading,
so the reader of rules sees no reference that the review has not looked up
(`TopDown.Review.expression_avoids`), in lists and in the bodies of named rules. And no other remark
of a review could be taken for that warning (`TopDown.Review.isLocal_of_warning`). So a rule is
reported as unused only if the review has come past the whole configuration without looking its name
up (`TopDown.Review.avoids_of_unused`).
-/

namespace TopDown

namespace Review

/-! ### Names that are not looked up -/

/-- The name is not looked up. -/
def Avoids (name : String) (remarks : List Remark) : Prop :=
  Remark.lookup name ∉ remarks

section Avoids

variable {name : String}

@[simp] theorem avoids_append {a b : List Remark} :
    Avoids name (a ++ b) ↔ Avoids name a ∧ Avoids name b := by
  simp [Avoids]

@[simp] theorem avoids_flatMap {α : Type} {xs : List α} {f : α → List Remark} :
    Avoids name (xs.flatMap f) ↔ ∀ x ∈ xs, Avoids name (f x) := by
  simp [Avoids]

/-- What has been read refers to no name that the remarks which mirror it avoid. -/
theorem Mirrors.avoids {α : Type} {names : α → List String} {rule : Option String}
    {noted : List Remark} {a : α} (h : Mirrors names rule noted (.ok a))
    (hnoted : Avoids name noted) : name ∉ names a := by
  rw [← h.tells.2]
  intro hmem
  obtain ⟨remark, hremark, hname⟩ := List.mem_filterMap.mp hmem
  cases remark with
  | lookup n =>
    cases hname
    exact hnoted hremark
  | error _ | warning _ => cases hname

/-- **A rule that can be read does not refer to a name that the remarks on it avoid.** -/
theorem expression_avoids (w : Review) (rule : Option String) (p : Path) (v : Json) {r : Rule}
    (hr : Rule.parse p v = .ok r) (h : Avoids name (w.expression rule p v)) :
    name ∉ r.references :=
  (hr ▸ mirrors_expression w rule p v : Mirrors Rule.references rule _ (.ok r)).avoids h

/-- **A list that can be read does not refer to a name that the remarks on it avoid.** -/
theorem list_avoids {w : Review} {p : Path} {v : Json} {rs : List Rule}
    (hrs : Rule.parseList p v = .ok rs) (h : Avoids name (w.list p (some v))) :
    name ∉ Rule.referencesOfAll rs := by
  cases v with
  | arr items =>
    have hrs' : Rule.parseItems p 0 items = .ok rs := hrs
    exact (hrs' ▸ mirrors_items w none p 0 items :
      Mirrors Rule.referencesOfAll none _ (.ok rs)).avoids h
  | null =>
    cases hrs
    exact List.not_mem_nil
  | bool _ | int _ | real _ | str _ | obj _ => cases hrs

end Avoids

/-! ### Unused rules -/

/-- **A rule is reported as unused** only if there is such a rule and no section looks its name up. -/
theorem avoids_of_unused {w : Review} {root : Table Json} {f : Finding} {name : String}
    (hf : f ∈ (report (w.remarks root)).warnings) (hname : f.flaw = .unused name) :
    name ∈ w.rules.names ∧ Avoids name (w.sections root) := by
  obtain ⟨remark, hmem, hremark⟩ := List.mem_filterMap.mp hf
  obtain rfl : remark = .warning f := by
    cases remark with
    | warning g => exact congrArg _ (Option.some.inj hremark)
    | error _ | lookup _ => cases hremark
  rcases List.mem_append.mp hmem with hmem | hmem
  · have hlocal := isLocal_of_warning hmem
    rw [hname] at hlocal
    cases hlocal
  · obtain ⟨n, hn, heq⟩ := List.mem_map.mp hmem
    cases heq
    cases hname
    obtain ⟨hrule, hunused⟩ := List.mem_filter.mp hn
    refine ⟨hrule, fun hlookup => ?_⟩
    have hused : name ∈ (w.sections root).filterMap Remark.name? :=
      List.mem_filterMap.mpr ⟨.lookup name, hlookup, rfl⟩
    rw [List.contains_iff_mem.mpr hused] at hunused
    cases hunused

end Review

end TopDown
