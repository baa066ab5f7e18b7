import Mathlib.Data.List.Chain
import Mathlib.Data.List.Nodup
import Mathlib.Data.List.Perm.Subperm
import Mathlib.Order.WellFoundedSet
import TopDown.Review.Circle

/-!
# The search finds the right circles

The review searches the references among named rules depth first and reports the circles that it
closes. A search of this kind can go wrong in four ways: it can report something that is no circle,
report one circle twice, miss a part of the references that goes around, or give up early. Here we
show that `TopDown.circles` does none of this. So a search without a report is worth something, too:
no chain of references goes on without end (`TopDown.Refers.wellFounded`).

The invariant is `TopDown.CircleSearch.Right`. Its last clause carries the proof of completeness. It
says of every rule that the search has left: if references lead from the rule back to it, then some
circle that has been found consists of rules that lead to it and back. When a rule is left, this needs
only one look ahead. Of the rules that it refers to, one leads back to it; that one has been left
before, and then the clause passes on from it, or it is on a circle that has been found.

The search counts down the rules that it has not entered, and would give up silently when none are
left. This never happens, because the entered rules are different names of rules
(`TopDown.Way.mem_of_full`).

We write `TopDown.Leads` for a reference read forwards, and `TopDown.Joined` for two rules that lead
to each other.
-/

namespace TopDown

/-! ### References and ways -/

/-- The first rule is one that the second refers to. -/
def Refers (refs : References) (next name : String) : Prop :=
  next ∈ (refs.lookup name).getD [] ∧ refs.has next = true

/-- **The way down** to a rule: different names of rules, and the count of those that are left. -/
structure Way (names : List String) (left : Nat) (entered : List String) : Prop where
  /-- No rule is entered twice. -/
  nodup : entered.Nodup
  /-- Only rules are entered. -/
  subset : entered ⊆ names
  /-- The rest is counted. -/
  length : entered.length + left = names.length

namespace Way

variable {names entered : List String} {left : Nat} {name : String}

/-- At the beginning nothing is entered. -/
theorem start {α : Type} (t : Table α) : Way t.names t.length [] where
  nodup := List.nodup_nil
  subset := List.nil_subset _
  length := by rw [Table.names, List.length_map, List.length_nil, Nat.zero_add]

/-- When no rule is left, every rule is entered. -/
theorem mem_of_full (h : Way names 0 entered) (hname : name ∈ names) : name ∈ entered := by
  have hle : names.length ≤ entered.length := by
    have := h.length
    omega
  exact (h.nodup.subperm h.subset).perm_of_length_le hle |>.mem_iff.mpr hname

/-- Then a name that is not entered is the name of none. -/
theorem lookup_eq_none {α : Type} {t : Table α} (h : Way t.names 0 entered)
    (hnew : name ∉ entered) : t.lookup name = none := by
  by_contra hsome
  obtain ⟨a, ha⟩ := Option.ne_none_iff_exists'.mp hsome
  exact hnew (h.mem_of_full (Table.has_iff.mp (Option.isSome_iff_exists.mpr ⟨a, ha⟩)))

/-- One more rule is entered, at the end of the way. -/
theorem snoc (h : Way names (left + 1) entered) (hname : name ∈ names) (hnew : name ∉ entered) :
    Way names left (entered ++ [name]) where
  nodup := by
    refine List.Nodup.append h.nodup (List.nodup_singleton _) ?_
    simpa [List.disjoint_singleton] using hnew
  subset := List.append_subset.mpr ⟨h.subset, by simpa using hname⟩
  length := by
    have := h.length
    simp only [List.length_append, List.length_singleton]
    omega

/-- One more rule is entered, and written down before the others. -/
theorem cons (h : Way names (left + 1) entered) (hname : name ∈ names) (hnew : name ∉ entered) :
    Way names left (name :: entered) where
  nodup := List.nodup_cons.mpr ⟨hnew, h.nodup⟩
  subset := List.cons_subset.mpr ⟨hname, h.subset⟩
  length := by
    have := h.length
    simp only [List.length_cons]
    omega

end Way

/-! ### Leading on -/

/-- The first rule refers to the second. -/
def Leads (refs : References) (name next : String) : Prop :=
  Refers refs next name

/-- References lead from each of the rules to the other. -/
def Joined (refs : References) (a b : String) : Prop :=
  Relation.TransGen (Leads refs) a b ∧ Relation.TransGen (Leads refs) b a

/-- **A circle**: different rules, of which each leads to the next and the last to the first. -/
structure IsCircle (refs : References) (c : List String) : Prop where
  /-- The rules are different. -/
  nodup : c.Nodup
  /-- They lead around. -/
  around : ∃ first rest, c = first :: rest ∧ List.IsChain (Leads refs) (c ++ [first])

variable {refs : References}

theorem Joined.symm {a b : String} (h : Joined refs a b) : Joined refs b a :=
  ⟨h.2, h.1⟩

theorem Joined.trans {a b c : String} (h : Joined refs a b) (h' : Joined refs b c) :
    Joined refs a c :=
  ⟨h.1.trans h'.1, h'.2.trans h.2⟩

/-- Along a chain, the first rule leads to all others and all others lead to the last. -/
theorem leads_of_chain {a z : String} {l : List String}
    (h : List.IsChain (Leads refs) (a :: l ++ [z])) :
    Relation.TransGen (Leads refs) a z ∧
      ∀ b ∈ l, Relation.TransGen (Leads refs) a b ∧ Relation.TransGen (Leads refs) b z := by
  induction l generalizing a with
  | nil =>
    have hstep : Leads refs a z := (List.isChain_cons_cons.mp h).1
    exact ⟨.single hstep, fun b hb => absurd hb List.not_mem_nil⟩
  | cons b rest ih =>
    obtain ⟨hstep, htail⟩ := List.isChain_cons_cons.mp h
    obtain ⟨hend, hrest⟩ := ih htail
    refine ⟨.head hstep hend, fun d hd => ?_⟩
    rcases List.mem_cons.mp hd with rfl | hd
    · exact ⟨.single hstep, hend⟩
    · obtain ⟨hto, hfrom⟩ := hrest d hd
      exact ⟨.head hstep hto, hfrom⟩

/-- The rules of a circle are joined. -/
theorem IsCircle.joined {c : List String} (h : IsCircle refs c) {a b : String} (ha : a ∈ c)
    (hb : b ∈ c) : Joined refs a b := by
  obtain ⟨first, rest, rfl, hchain⟩ := h.around
  obtain ⟨haround, hrest⟩ := leads_of_chain hchain
  -- every rule is joined to the first one
  have hfirst : ∀ d ∈ first :: rest, Joined refs d first := by
    intro d hd
    rcases List.mem_cons.mp hd with rfl | hd
    · exact ⟨haround, haround⟩
    · obtain ⟨hto, hfrom⟩ := hrest d hd
      exact ⟨hfrom, hto⟩
  exact (hfirst a ha).trans (hfirst b hb).symm

/-- Meeting a rule that is on the way closes a circle. -/
theorem isCircle_drop {entered : List String} {name : String} {i : Nat} (hnodup : entered.Nodup)
    (hchain : List.IsChain (Leads refs) (entered ++ [name])) (hi : entered.idxOf? name = some i) :
    IsCircle refs (entered.drop i) ∧ name ∈ entered.drop i := by
  obtain ⟨hlt, hat, -⟩ := List.idxOf?_eq_some_iff.mp hi
  have hdrop : entered.drop i = name :: entered.drop (i + 1) := by
    rw [List.drop_eq_getElem_cons hlt, hat]
  have hclosed : List.IsChain (Leads refs) (entered.drop i ++ [name]) := by
    have hsplit : List.IsChain (Leads refs) (entered.take i ++ (entered.drop i ++ [name])) := by
      rw [← List.append_assoc, List.take_append_drop]
      exact hchain
    exact hsplit.right_of_append
  refine ⟨⟨hnodup.sublist (List.drop_sublist i entered), name, _, hdrop, hclosed⟩, ?_⟩
  rw [hdrop]
  exact List.mem_cons_self

namespace CircleSearch

theorem sameRules_iff {a b : List String} :
    sameRules a b = true ↔ ∀ n, n ∈ a ↔ n ∈ b := by
  simp only [sameRules, Bool.and_eq_true, List.all_eq_true, List.contains_iff_mem]
  constructor
  · rintro ⟨hab, hba⟩ n
    exact ⟨hab n, hba n⟩
  · intro h
    exact ⟨fun n hn => (h n).mp hn, fun n hn => (h n).mpr hn⟩

/-! ### What is right about a search -/

/-- Some circle that has been found consists of rules that are joined to the rule. -/
def Covers (refs : References) (s : CircleSearch) (name : String) : Prop :=
  ∃ c ∈ s.found, ∀ n ∈ c, Joined refs n name

/-- **What is right about a search**, however far it has come. -/
structure Right (refs : References) (s : CircleSearch) : Prop where
  /-- What has been found are circles. -/
  circles : ∀ c ∈ s.found, IsCircle refs c
  /-- No two of them have the same rules. -/
  distinct : s.found.Pairwise fun c d => ¬∀ n, n ∈ c ↔ n ∈ d
  /-- A rule that has been left and leads back to itself is joined to a circle that has been found. -/
  covers : ∀ name ∈ s.done, Relation.TransGen (Leads refs) name name → Covers refs s name

theorem right_start : Right refs ⟨[], []⟩ where
  circles _ hc := absurd hc List.not_mem_nil
  distinct := List.Pairwise.nil
  covers _ hn := absurd hn List.not_mem_nil

/-- **What a part of a search does** to some rules: it forgets nothing, everything stays right, and
the rules have been left or are on circles that have been found. -/
structure Explores (refs : References) (names : List String) (s s' : CircleSearch) : Prop where
  /-- A rule that has been left stays left. -/
  done : s.done ⊆ s'.done
  /-- A circle that has been found stays found. -/
  found : s.found ⊆ s'.found
  /-- The search stays right. -/
  right : Right refs s → Right refs s'
  /-- The rules have been left, or they are on circles. -/
  reached : ∀ n ∈ names, refs.has n = true → n ∈ s'.done ∨ ∃ c ∈ s'.found, n ∈ c

variable {names : List String} {s s' : CircleSearch}

theorem Covers.mono {name : String} (hsub : s.found ⊆ s'.found) (h : Covers refs s name) :
    Covers refs s' name := by
  obtain ⟨c, hc, hjoined⟩ := h
  exact ⟨c, hsub hc, hjoined⟩

theorem Explores.refl (h : ∀ n ∈ names, refs.has n = true → n ∈ s.done) :
    Explores refs names s s where
  done := List.Subset.refl _
  found := List.Subset.refl _
  right hs := hs
  reached n hn hhas := .inl (h n hn hhas)

/-- **A circle is reported**, unless one of the same rules has been found, and its rules are on the
one or on the other. -/
theorem Explores.report {c : List String} (hc : IsCircle refs c) {name : String} (hname : name ∈ c) :
    Explores refs [name] s (s.report c) := by
  unfold CircleSearch.report
  split
  · rename_i hsame
    obtain ⟨d, hd, hcd⟩ := List.any_eq_true.mp hsame
    refine ⟨List.Subset.refl _, List.Subset.refl _, fun hs => hs, ?_⟩
    rintro n hn -
    rw [List.mem_singleton.mp hn]
    exact .inr ⟨d, hd, (sameRules_iff.mp hcd name).mp hname⟩
  · rename_i hnew
    have hlast : c ∈ s.found ++ [c] := List.mem_append_right _ (List.mem_singleton_self c)
    refine ⟨List.Subset.refl _, List.subset_append_left _ _, fun hs => ⟨?_, ?_, ?_⟩, ?_⟩
    · intro d hd
      rcases List.mem_append.mp hd with hd | hd
      · exact hs.circles d hd
      · rw [List.mem_singleton.mp hd]
        exact hc
    · refine List.pairwise_append.mpr ⟨hs.distinct, List.pairwise_singleton _ _, ?_⟩
      intro d hd e he hde
      rw [List.mem_singleton.mp he] at hde
      have hsame : sameRules c d = true := sameRules_iff.mpr fun n => (hde n).symm
      exact hnew (List.any_eq_true.mpr ⟨d, hd, hsame⟩)
    · intro n hn hcircle
      exact (hs.covers n hn hcircle).mono (List.subset_append_left _ _)
    · rintro n hn -
      rw [List.mem_singleton.mp hn]
      exact .inr ⟨c, hlast, hname⟩

/-- Parts of a search follow each other. -/
theorem Explores.foldl {f : CircleSearch → String → CircleSearch} (names : List String)
    (h : ∀ s, ∀ n ∈ names, Explores refs [n] s (f s n)) (s : CircleSearch) :
    Explores refs names s (names.foldl f s) := by
  induction names generalizing s with
  | nil => exact .refl fun n hn => absurd hn List.not_mem_nil
  | cons n rest ih =>
    have hfirst := h s n List.mem_cons_self
    have hrest := ih (fun s m hm => h s m (List.mem_cons_of_mem _ hm)) (f s n)
    rw [List.foldl_cons]
    refine ⟨List.Subset.trans hfirst.done hrest.done, List.Subset.trans hfirst.found hrest.found,
      fun hs => hrest.right (hfirst.right hs), fun m hm hhas => ?_⟩
    rcases List.mem_cons.mp hm with rfl | hm
    · rcases hfirst.reached m (List.mem_singleton_self m) hhas with hdone | ⟨c, hc, hmc⟩
      · exact .inl (hrest.done hdone)
      · exact .inr ⟨c, hrest.found hc, hmc⟩
    · exact hrest.reached m hm hhas

/-- **A rule is left** after all rules that it refers to. If it leads back to itself, it does so
through one of them, and what is known of that one is known of the rule. -/
theorem Explores.leave {next : List String} {name : String} (hnext : refs.lookup name = some next)
    (h : Explores refs (next.filter refs.has) s s') : Explores refs [name] s (s'.leave name) where
  done := List.Subset.trans h.done (List.subset_cons_self _ _)
  found := h.found
  right hs := by
    have hs' := h.right hs
    refine ⟨hs'.circles, hs'.distinct, fun n hn hcircle => ?_⟩
    rcases List.mem_cons.mp hn with rfl | hn
    · -- the first step of the way around leads to a rule that the search has been to
      obtain ⟨m, hstep, hback⟩ := Relation.TransGen.head'_iff.mp hcircle
      have hjoined : Joined refs m n :=
        ⟨Relation.TransGen.trans_right hback hcircle, .single hstep⟩
      have hm : m ∈ next.filter refs.has := by
        obtain ⟨hmem, hhas⟩ := hstep
        rw [hnext] at hmem
        exact List.mem_filter.mpr ⟨hmem, hhas⟩
      rcases h.reached m hm hstep.2 with hdone | ⟨c, hc, hmc⟩
      · obtain ⟨c, hc, hall⟩ := hs'.covers m hdone (hjoined.1.trans hjoined.2)
        exact ⟨c, hc, fun k hk => (hall k hk).trans hjoined⟩
      · exact ⟨c, hc, fun k hk => ((hs'.circles c hc).joined hk hmc).trans hjoined⟩
    · exact hs'.covers n hn hcircle
  reached n hn _ := by
    rw [List.mem_singleton.mp hn]
    exact .inl List.mem_cons_self

end CircleSearch

open CircleSearch

/-! ### Searching -/

/-- **A search from a rule** finds out what there is to know of it, whatever way led to it. -/
theorem searchCircles_explores {left : Nat} {entered : List String}
    (hway : Way refs.names left entered) (name : String) (s : CircleSearch)
    (hchain : List.IsChain (Leads refs) (entered ++ [name])) :
    Explores refs [name] s (searchCircles refs left entered name s) := by
  induction left generalizing entered name s with
  | zero =>
    unfold searchCircles
    split
    · obtain ⟨hcircle, hname⟩ := isCircle_drop hway.nodup hchain ‹_›
      exact .report hcircle hname
    · rename_i hnew
      have hnot : refs.lookup name = none :=
        hway.lookup_eq_none (by simpa [List.idxOf?_eq_none_iff] using hnew)
      have hrefl : Explores refs [name] s s := .refl fun m hm hhas => by
        rw [List.mem_singleton.mp hm, Table.has, hnot] at hhas
        cases hhas
      split
      · exact hrefl
      · simp only [hnot]
        exact hrefl
  | succ left ih =>
    unfold searchCircles
    split
    · obtain ⟨hcircle, hname⟩ := isCircle_drop hway.nodup hchain ‹_›
      exact .report hcircle hname
    · rename_i hnew
      split
      · rename_i hdone
        refine .refl fun m hm _ => ?_
        rw [List.mem_singleton.mp hm]
        exact List.contains_iff_mem.mp hdone
      · split
        · rename_i next _ hnext hleft
          cases hleft
          refine .leave hnext (.foldl _ (fun s m hm => ih (hway.snoc ?_ ?_) m s ?_) s)
          · exact Table.has_iff.mp (Option.isSome_iff_exists.mpr ⟨next, hnext⟩)
          · simpa [List.idxOf?_eq_none_iff] using hnew
          · obtain ⟨hmem, hhas⟩ := List.mem_filter.mp hm
            have hstep : Leads refs name m := ⟨by rw [hnext]; exact hmem, hhas⟩
            rw [List.append_assoc]
            exact List.isChain_split.mpr ⟨hchain, List.isChain_cons_cons.mpr
              ⟨hstep, List.isChain_singleton m⟩⟩
        · rename_i hno
          refine .refl fun m hm hh => ?_
          rw [List.mem_singleton.mp hm] at hh
          obtain ⟨next, hnext⟩ := Option.isSome_iff_exists.mp hh
          exact absurd rfl (hno next left hnext)

/-- The search as a whole is right, and it leaves every rule or finds it on a circle. -/
theorem explores_all (refs : References) : Explores refs refs.names ⟨[], []⟩
    (refs.names.foldl (fun s name => searchCircles refs refs.length [] name s) ⟨[], []⟩) :=
  .foldl _ (fun s n _ => searchCircles_explores (Way.start refs) n s (List.isChain_singleton n)) _

/-- **What is found are circles.** -/
theorem isCircle_of_mem {c : List String} (hc : c ∈ circles refs) : IsCircle refs c :=
  ((explores_all refs).right right_start).circles c hc

/-- **No two circles of the same rules are found.** -/
theorem circles_distinct : (circles refs).Pairwise fun c d => ¬∀ n, n ∈ c ↔ n ∈ d :=
  ((explores_all refs).right right_start).distinct

/-- **A rule that leads back to itself is joined to a circle that is found.** -/
theorem exists_circle {name : String} (h : Relation.TransGen (Leads refs) name name) :
    ∃ c ∈ circles refs, ∀ n ∈ c, Joined refs n name := by
  have hall := explores_all refs
  have hright := hall.right right_start
  -- a rule that refers to something is the name of a rule
  obtain ⟨next, hstep, -⟩ := Relation.TransGen.head'_iff.mp h
  have hname : name ∈ refs.names := by
    refine Table.has_iff.mp ?_
    cases hlookup : refs.lookup name with
    | none =>
      have hmem := hstep.1
      rw [hlookup] at hmem
      exact absurd hmem List.not_mem_nil
    | some next => rw [Table.has, hlookup]; rfl
  rcases hall.reached name hname (Table.has_iff.mpr hname) with hdone | ⟨c, hc, hmem⟩
  · exact hright.covers name hdone h
  · exact ⟨c, hc, fun n hn => (hright.circles c hc).joined hn hmem⟩

/-- Every circle that is found has a rule. -/
theorem circles_proper {c : List String} (hc : c ∈ circles refs) : c ≠ [] := by
  obtain ⟨first, rest, rfl, -⟩ := (isCircle_of_mem hc).around
  exact List.cons_ne_nil _ _

/-- **Without circles, references are well founded.** Only finitely many rules lead to a rule. -/
theorem Refers.wellFounded (h : circles refs = []) : WellFounded (Refers refs) := by
  have hstrict : IsStrictOrder String (Relation.TransGen (Refers refs)) :=
    { irrefl := fun name hname => by
        obtain ⟨c, hc, -⟩ := exists_circle (Relation.transGen_swap.mpr hname)
        rw [h] at hc
        exact List.not_mem_nil hc
      trans := fun _ _ _ => Relation.TransGen.trans }
  refine ⟨fun name => ((Set.WellFoundedOn.acc_iff_wellFoundedOn (r := Refers refs)).out 0 2).mpr ?_⟩
  have hfinite : {n | Relation.TransGen (Refers refs) n name}.Finite := by
    refine refs.names.finite_toSet.subset fun n hn => ?_
    obtain ⟨_, hstep, -⟩ := Relation.TransGen.head'_iff.mp hn
    exact Table.has_iff.mp hstep.2
  have hclosure : Set.WellFoundedOn {n | Relation.TransGen (Refers refs) n name}
      (Relation.TransGen (Refers refs)) := hfinite.wellFoundedOn
  exact hclosure.mono (fun _ _ => Relation.TransGen.single) Set.Subset.rfl

/-! ### The search is not cut short -/

/-- **Counting further changes nothing**: the count never runs out before the rules do. -/
theorem searchCircles_more {left : Nat} {entered : List String}
    (hway : Way refs.names left entered) (more : Nat) (name : String) (s : CircleSearch) :
    searchCircles refs (left + more) entered name s = searchCircles refs left entered name s := by
  induction left generalizing entered name s with
  | zero =>
    unfold searchCircles
    cases hnew : entered.idxOf? name with
    | some i => rfl
    | none =>
      have hnot : refs.lookup name = none :=
        hway.lookup_eq_none (by simpa [List.idxOf?_eq_none_iff] using hnew)
      simp only [hnot]
  | succ left ih =>
    have hcount : left + 1 + more = left + more + 1 := by omega
    rw [hcount]
    unfold searchCircles
    cases hnew : entered.idxOf? name with
    | some i => rfl
    | none =>
      cases hnext : refs.lookup name with
      | none => rfl
      | some next =>
        have hway' : Way refs.names left (entered ++ [name]) := by
          refine hway.snoc ?_ ?_
          · exact Table.has_iff.mp (Option.isSome_iff_exists.mpr ⟨next, hnext⟩)
          · simpa [List.idxOf?_eq_none_iff] using hnew
        simp only [ih hway']

end TopDown
