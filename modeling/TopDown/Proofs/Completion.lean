import Mathlib.Order.WellFounded
import TopDown.Proofs.Assembly
import TopDown.Proofs.Circle
import TopDown.Proofs.Meaning
import TopDown.Proofs.Registry

/-!
# Assembling rules that are known

The assembly of rules can stop at two things only: a name that means nothing and a rule that refers to
itself. We say that a step is *safe* for some names (`TopDown.Assemble.Safe`) if, whenever the
registry has those names, it either succeeds and leaves a registry that still has them, or stops for a
reason that is allowed. Steps that are safe can be joined, and from there on the shape of the proofs
is that of the assembly.

What makes the assembly of rules safe is gathered in `TopDown.SoundAt`: the names in the rules mean
something, or it is allowed to stop at one that does not, and either references do not go around, or
stopping at a circle is allowed. What is asked of a name may depend on the place where it stands; where
it does not, the rules are `TopDown.Sound`. On the way down through named rules
(`TopDown.assembleNamed_safe`) every rule that is entered refers, in some steps, to the next one, so
meeting it again closes a circle.
-/

namespace TopDown

namespace Assemble

variable {α β : Type} {stops : Stop → Prop} {known : List String}

/-- **The step succeeds** whenever the registry has the known names, and keeps them there; or it stops
for a reason that is allowed. -/
def Safe (stops : Stop → Prop) (known : List String) (x : Assemble α) : Prop :=
  ∀ a, known ⊆ a.registry.names →
    (∃ r a', x a = .ok (r, a') ∧ known ⊆ a'.registry.names) ∨ ∃ e, x a = .error e ∧ stops e

theorem Safe.pure (r : α) : Safe stops known (pure r : Assemble α) :=
  fun a ha => .inl ⟨r, a, rfl, ha⟩

/-- Safe steps can be joined. Of the outcome of the first it may be used that it is one. -/
theorem Safe.bind_outcome {x : Assemble α} {f : α → Assemble β} (hx : Safe stops known x)
    (hf : ∀ r, (∃ a a', x a = .ok (r, a')) → Safe stops known (f r)) :
    Safe stops known (x >>= f) := by
  intro a ha
  rcases hx a ha with ⟨r, a₁, hx, ha₁⟩ | ⟨e, he, hstops⟩
  · rcases hf r ⟨a, a₁, hx⟩ a₁ ha₁ with ⟨b, a₂, hf, ha₂⟩ | ⟨e, he, hstops⟩
    · exact .inl ⟨b, a₂, bind_eq_ok.mpr ⟨r, a₁, hx, hf⟩, ha₂⟩
    · exact .inr ⟨e, by rw [bind_run_ok hx, he], hstops⟩
  · exact .inr ⟨e, bind_run_error he, hstops⟩

theorem Safe.bind {x : Assemble α} {f : α → Assemble β} (hx : Safe stops known x)
    (hf : ∀ r, Safe stops known (f r)) : Safe stops known (x >>= f) :=
  hx.bind_outcome fun r _ => hf r

/-- It is safe to stop for a reason that is allowed. -/
theorem safe_stop {e : Stop} (h : stops e) : Safe stops known (throw e : Assemble α) :=
  fun _ _ => .inr ⟨e, rfl, h⟩

/-- Settling something is safe where a refusal is allowed. -/
theorem Settles.safe {x : Assemble α} (h : Settles x)
    (hstops : ∀ area key reason, stops (.fault (.configInvalid area key reason))) :
    Safe stops known x := by
  rcases h with ⟨r, rfl⟩ | ⟨area, key, reason, rfl⟩
  · exact .pure r
  · exact safe_stop (hstops area key reason)

theorem safe_push (node : Node) : Safe stops known (push node) :=
  fun a ha => .inl ⟨_, _, push_run node a, ha⟩

theorem safe_record (name : String) (isGroup : Bool) (id : Node.Id) :
    Safe stops known (record name isGroup id) :=
  fun a ha => .inl ⟨_, _, record_run name isGroup id a, ha⟩

/-- A leaf can be added for every known name, or it is allowed to stop at one that is not. -/
theorem safe_leaf {name : String} {p : Path}
    (hname : name ∈ known ∨ stops (.fault (.unknownCondition name p))) (threshold : Option Float) :
    Safe stops known (leaf name threshold p) := by
  intro a ha
  cases hplace : a.registry.place? name with
  | some place => exact .inl ⟨_, _, leaf_eq_ok.mpr ⟨place, hplace, rfl, rfl⟩, ha⟩
  | none =>
    refine .inr ⟨_, by rw [leaf_run, hplace]; rfl, hname.resolve_left fun hknown => ?_⟩
    have hsome := Registry.place?_isSome.mpr (ha hknown)
    rw [hplace] at hsome
    cases hsome

/-- Registering a check and adding a leaf for it is safe, whatever is known. -/
theorem safe_enrol_leaf (name : String) (check : Check) (threshold : Option Float) (p : Path) :
    Safe stops known (do enrol name check; leaf name threshold p) := by
  intro a ha
  have hsub : known ⊆ (a.registry.register name fun c => check.evaluate name c).names :=
    fun _ hn => Registry.mem_names_register.mpr (.inl (ha hn))
  -- once it is registered, the name is known as well
  have hname : name ∈ (a.registry.register name fun c => check.evaluate name c).names :=
    Registry.mem_names_register.mpr (.inr rfl)
  obtain ⟨place, hplace⟩ := Option.isSome_iff_exists.mp (Registry.place?_isSome.mpr hname)
  exact .inl ⟨_, _, bind_eq_ok.mpr ⟨_, _, enrol_run name check a,
    leaf_eq_ok.mpr ⟨place, hplace, rfl, rfl⟩⟩, hsub⟩

end Assemble

open Assemble

variable {stops : Stop → Prop} {known : List String} {rules : Table Rule} {P : Path → Rule → Prop}

/-! ### Rules -/

/-- **The rules at their places can be assembled**, where `P` is known of them: a reference becomes a
leaf of a known name or the node of a named rule, or it is allowed to stop there. -/
structure Resolved (stops : Stop → Prop) (known : List String) (rules : Table Rule)
    (named : String → Path → Assemble Node.Id) (P : Path → Rule → Prop) : Prop where
  /-- What is known of a group is known of its members. -/
  member : ∀ {p : Path} {q : Quantifier} {rs : List Rule} {i : Nat} {r : Rule}, P p (.group q rs) →
    rs[i]? = some r → P ((p.key q.key).index i) r
  /-- The name of a leaf is known. -/
  leaf : ∀ {p : Path} {name : String} {threshold : Option Threshold},
    P p (.reference name threshold) → IsLeafName rules name →
    name ∈ known ∨ stops (.fault (.unknownCondition name p))
  /-- Any other name is that of a rule that can be assembled. -/
  named : ∀ {p : Path} {name : String} {threshold : Option Threshold},
    P p (.reference name threshold) → ¬IsLeafName rules name → Safe stops known (named name p)

mutual

/-- **A rule can be assembled** where the references in it can. -/
theorem assembleRule_safe {named : String → Path → Assemble Node.Id}
    (h : Resolved stops known rules named P) (p : Path) :
    (r : Rule) → P p r → Safe stops known (assembleRule named rules p r)
  | .reference name threshold, hr => by
    by_cases hname : IsLeafName rules name
    · rw [assembleRule_leaf hname]
      exact safe_leaf (h.leaf hr hname) _
    · rw [assembleRule_named hname]
      exact h.named hr hname
  | .group q members, hr => by
    unfold assembleRule
    refine (assembleMembers_safe h (p.key q.key) 0 members fun j r hj => ?_).bind fun _ => safe_push _
    rw [Nat.zero_add]
    exact h.member hr hj
  | .check k, _ => by
    unfold assembleRule
    exact safe_enrol_leaf _ _ _ _

/-- So can the members of a group. -/
theorem assembleMembers_safe {named : String → Path → Assemble Node.Id}
    (h : Resolved stops known rules named P) (p : Path) (i : Nat) :
    (rs : List Rule) → (∀ j r, rs[j]? = some r → P (p.index (i + j)) r) →
      Safe stops known (assembleMembers named rules p i rs)
  | [], _ => Safe.pure _
  | r :: rest, hrs => by
    unfold assembleMembers
    refine (assembleRule_safe h _ r (hrs 0 r rfl)).bind fun _ => ?_
    refine (assembleMembers_safe h p (i + 1) rest fun j r' hj => ?_).bind fun _ => Safe.pure _
    rw [Nat.add_assoc, Nat.add_comm 1]
    exact hrs (j + 1) r' hj

end

/-! ### Named rules -/

/-- What the named rules refer to. -/
def Rule.table (rules : Table Rule) : References :=
  rules.mapValues Rule.references

/-- **The rules are sound at their places**, where `P` is known of them: every name in them means
something, every named check is registered, and references do not go around; or it is allowed to stop
where this is not so. -/
structure SoundAt (stops : Stop → Prop) (known : List String) (rules : Table Rule)
    (P : Path → Rule → Prop) : Prop where
  /-- What is known of a group is known of its members. -/
  member : ∀ {p : Path} {q : Quantifier} {rs : List Rule} {i : Nat} {r : Rule}, P p (.group q rs) →
    rs[i]? = some r → P ((p.key q.key).index i) r
  /-- It is known of the named rules. -/
  body : ∀ {name : String} {r : Rule}, rules.lookup name = some r → P (rulePath name) r
  /-- A name that is not the name of a rule is known, or may be found not to be. -/
  names : ∀ {p : Path} {name : String} {threshold : Option Threshold},
    P p (.reference name threshold) → rules.lookup name = none →
    name ∈ known ∨ stops (.fault (.unknownCondition name p))
  /-- The name of a check is known. -/
  checks : ∀ name k, rules.lookup name = some (.check k) → name ∈ known
  /-- There are no circles, or a circle may stop the assembly. -/
  circles : WellFounded (Refers (Rule.table rules)) ∨
    ∀ name p, stops (.fault (.circularReference name p))

namespace SoundAt

variable (h : SoundAt stops known rules P)
include h

/-- The name of a leaf is known. -/
theorem leaf {p : Path} {name : String} {threshold : Option Threshold}
    (hr : P p (.reference name threshold)) (hleaf : IsLeafName rules name) :
    name ∈ known ∨ stops (.fault (.unknownCondition name p)) := by
  cases hrule : rules.lookup name with
  | none => exact h.names hr hrule
  | some r =>
    obtain ⟨k, rfl⟩ := hleaf r hrule
    exact .inl (h.checks name k hrule)

/-- A rule that leads back to itself may stop the assembly. -/
theorem stops_of_circle {name : String}
    (hcircle : Relation.TransGen (Refers (Rule.table rules)) name name) (p : Path) :
    stops (.fault (.circularReference name p)) := by
  rcases h.circles with hwf | hstops
  · exact absurd hcircle (hwf.transGen.irrefl.irrefl name)
  · exact hstops name p

end SoundAt

theorem exists_rule_of_not_leafName {name : String} (h : ¬IsLeafName rules name) :
    ∃ r, rules.lookup name = some r := by
  cases hr : rules.lookup name with
  | none => exact absurd (fun r h' => by rw [hr] at h'; cases h') h
  | some r => exact ⟨r, rfl⟩

/-- **A named rule can be assembled**, whatever way led to it: each rule on the way refers to it, in
one step or more. -/
theorem assembleNamed_safe (h : SoundAt stops known rules P) {left : Nat} {entered : List String}
    {name : String} (hway : Way rules.names left entered)
    (hchain : ∀ e ∈ entered, Relation.TransGen (Refers (Rule.table rules)) name e)
    (hname : name ∈ rules.names) (p : Path) :
    Safe stops known (assembleNamed rules left entered name p) := by
  induction left generalizing entered name p with
  | zero =>
    have hmem := hway.mem_of_full hname
    intro a ha
    rw [assembleNamed_run, if_pos hmem]
    cases a.named.lookup name with
    | some id => exact .inl ⟨id, a, rfl, ha⟩
    | none => exact .inr ⟨_, rfl, h.stops_of_circle (hchain name hmem) p⟩
  | succ left ih =>
    obtain ⟨rule, hrule⟩ := Option.isSome_iff_exists.mp (Table.has_iff.mpr hname)
    intro a ha
    rw [assembleNamed_run, hrule]
    cases a.named.lookup name with
    | some id => exact .inl ⟨id, a, rfl, ha⟩
    | none =>
      by_cases hnew : name ∈ entered
      · rw [if_pos hnew]
        exact .inr ⟨_, rfl, h.stops_of_circle (hchain name hnew) p⟩
      rw [if_neg hnew]
      -- the references of the rule, one step further down
      have hresolved : Resolved stops known rules (assembleNamed rules left (name :: entered))
          fun q r => P q r ∧ r.references ⊆ rule.references := by
        refine ⟨fun hr hi => ⟨h.member hr.1 hi, fun n hn => hr.2 ?_⟩, fun hr => h.leaf hr.1,
          fun {q n _} hr hrest => ?_⟩
        · exact mem_referencesOfAll.mpr ⟨_, List.mem_of_getElem? hi, hn⟩
        obtain ⟨r, hn⟩ := exists_rule_of_not_leafName hrest
        have hrefers : Refers (Rule.table rules) n name := by
          refine ⟨?_, ?_⟩
          · rw [Rule.table, Table.lookup_mapValues, hrule]
            exact hr.2 (List.mem_singleton_self n)
          · rw [Table.has, Rule.table, Table.lookup_mapValues, hn]
            rfl
        refine ih (hway.cons hname hnew) (fun e he => ?_)
          (Table.has_iff.mp (Option.isSome_iff_exists.mpr ⟨r, hn⟩)) q
        rcases List.mem_cons.mp he with rfl | he
        · exact .single hrefers
        · exact .head hrefers (hchain e he)
      cases rule with
      | check k =>
        exact ((safe_leaf (.inl (h.checks name k hrule)) none).bind fun id =>
          (safe_record name false id).bind fun _ => Safe.pure id) a ha
      | reference _ _ | group _ _ =>
        exact ((assembleRule_safe hresolved (rulePath name) _
            ⟨h.body hrule, List.Subset.refl _⟩).bind fun id =>
          (safe_record name _ id).bind fun _ => Safe.pure id) a ha

/-- **A list of rules can be assembled.** -/
theorem assembleList_safe (h : SoundAt stops known rules P) {p : Path} {list : List Rule}
    (hlist : ∀ i r, list[i]? = some r → P (p.index i) r) :
    Safe stops known (assembleList rules p list) := by
  refine assembleMembers_safe (P := P) ⟨h.member, h.leaf, fun {q n _} _ hrest => ?_⟩ p 0 list
    fun j r hj => by rw [Nat.zero_add]; exact hlist j r hj
  obtain ⟨r, hr⟩ := exists_rule_of_not_leafName hrest
  exact assembleNamed_safe h (Way.start rules) (fun e he => absurd he List.not_mem_nil)
    (Table.has_iff.mp (Option.isSome_iff_exists.mpr ⟨r, hr⟩)) q

/-- **All named rules can be assembled.** -/
theorem assembleAllNamed_safe (h : SoundAt stops known rules P) {names : List String}
    (hnames : names ⊆ rules.names) : Safe stops known (assembleAllNamed rules names) := by
  induction names with
  | nil => exact Safe.pure _
  | cons name rest ih =>
    obtain ⟨hname, hrest⟩ := List.cons_subset.mp hnames
    have hfirst := assembleNamed_safe h (Way.start rules)
      (fun e he => absurd he List.not_mem_nil) hname
    exact (hfirst _).bind fun _ => ih hrest

/-! ### Rules in which every name is known -/

/-- **The rules are sound**: every name in them means something, every named check is registered, and
references do not go around, or may be found to. -/
structure Sound (stops : Stop → Prop) (known : List String) (rules : Table Rule) : Prop where
  /-- A name in a rule that is not the name of a rule is known. -/
  names : ∀ name r, rules.lookup name = some r → ∀ n ∈ r.references, rules.lookup n = none →
    n ∈ known
  /-- The name of a check is known. -/
  checks : ∀ name k, rules.lookup name = some (.check k) → name ∈ known
  /-- There are no circles, or a circle may stop the assembly. -/
  circles : WellFounded (Refers (Rule.table rules)) ∨
    ∀ name p, stops (.fault (.circularReference name p))

/-- Sound rules are sound at any place. -/
theorem Sound.soundAt (h : Sound stops known rules) :
    SoundAt stops known rules fun _ r => ∀ n ∈ r.references, rules.lookup n = none → n ∈ known where
  member hr hi n hn := hr n (mem_referencesOfAll.mpr ⟨_, List.mem_of_getElem? hi, hn⟩)
  body hr := h.names _ _ hr
  names hr hnone := .inl (hr _ (List.mem_singleton_self _) hnone)
  checks := h.checks
  circles := h.circles

end TopDown
