import Mathlib.Data.List.Forall2
import TopDown.Proofs.Replay
import TopDown.Proofs.Thresholds

/-!
# Books that say the same in part

Two configurations that have some rules in common become two books in which the nodes of these rules
stand in different places. A relation between places is a *twinning* (`TopDown.Book.Twins`) if it pairs
places one to one, and pairs them only where the nodes are alike: leaves of one name with one
threshold, or groups of one kind under one label whose members are paired again.

Rules that are paired cannot be told apart. They give the same thresholds in the same order
(`TopDown.Book.Twins.thresholds`), although the traversal comes past other places, and they have the
same verdicts, if the conditions of their leaves have (`TopDown.Book.Twins.evaluateAll`). So two books
choose alike if the groups that their choices depend on have the same verdicts
(`TopDown.Book.Chooses.transfer`).
-/

namespace TopDown

/-! ### Paired places -/

/-- The nodes are alike, if paired places are taken for one. The conditions of leaves may stand in
different places of the registries. -/
inductive Node.Alike (T : Node.Id → Node.Id → Prop) : Node → Node → Prop
  /-- Leaves of one name, which give the same threshold. -/
  | leaf {name : String} {place place' : Nat} {threshold : Option Float} :
      Alike T (.leaf name place threshold) (.leaf name place' threshold)
  /-- Groups of one kind and label, whose members are paired. -/
  | group {q : Quantifier} {label : String} {ids ids' : List Node.Id} (h : List.Forall₂ T ids ids') :
      Alike T (.group q label ids) (.group q label ids')

/-- **A twinning** of two books: it pairs places one to one, and the nodes there are alike. -/
structure Book.Twins (b b' : Book) (T : Node.Id → Node.Id → Prop) : Prop where
  /-- A place has one twin at most. -/
  unique : Relator.BiUnique T
  /-- The nodes are alike. -/
  node : ∀ {id id'}, T id id' → ∃ node node', b.nodes[id]? = some node ∧
    b'.nodes[id']? = some node' ∧ Node.Alike T node node'

section Alike

variable {T : Node.Id → Node.Id → Prop} {node node' : Node}

theorem Node.Alike.label_eq (h : Alike T node node') : node.label = node'.label := by
  cases h <;> rfl

theorem Node.Alike.threshold?_eq (h : Alike T node node') : node.threshold? = node'.threshold? := by
  cases h with
  | @leaf _ _ _ threshold => cases threshold <;> rfl
  | group => rfl

theorem Node.Alike.members (h : Alike T node node') : List.Forall₂ T node.members node'.members := by
  cases h with
  | leaf => exact .nil
  | group h => exact h

/-- What is the same for paired places is the same for paired lists. -/
theorem map_eq_of_forall₂ {α : Type} {f g : Node.Id → α} {ids ids' : List Node.Id}
    (h : List.Forall₂ T ids ids') (hfg : ∀ id id', id ∈ ids → T id id' → f id = g id') :
    ids.map f = ids'.map g := by
  induction h with
  | nil => rfl
  | cons hid _ ih =>
    rw [List.map_cons, List.map_cons, hfg _ _ List.mem_cons_self hid,
      ih fun id id' hmem => hfg id id' (List.mem_cons_of_mem _ hmem)]

end Alike

namespace Book.Twins

variable {b b' : Book} {T : Node.Id → Node.Id → Prop} {id id' : Node.Id} {roots roots' : List Node.Id}

theorem lt_size (hT : b.Twins b' T) (h : T id id') : id < b.nodes.size ∧ id' < b'.nodes.size := by
  obtain ⟨node, node', hnode, hnode', -⟩ := hT.node h
  exact ⟨(Array.getElem?_eq_some_iff.mp hnode).1, (Array.getElem?_eq_some_iff.mp hnode').1⟩

theorem label (hT : b.Twins b' T) (h : T id id') : b.label id = b'.label id' := by
  obtain ⟨node, node', hnode, hnode', halike⟩ := hT.node h
  rw [Book.label, hnode, Book.label, hnode']
  exact halike.label_eq

/-! ### Thresholds -/

/-- Taking twins away leaves twins. -/
theorem mem_erase_iff (hT : b.Twins b' T) {unseen unseen' : List Node.Id} (hnodup : unseen.Nodup)
    (hnodup' : unseen'.Nodup) (hunseen : ∀ {j j'}, T j j' → (j ∈ unseen ↔ j' ∈ unseen'))
    (h : T id id') {j j' : Node.Id} (hj : T j j') :
    j ∈ unseen.erase id ↔ j' ∈ unseen'.erase id' := by
  have hsame : j = id ↔ j' = id' := by
    constructor
    · rintro rfl
      exact hT.unique.2 hj h
    · rintro rfl
      exact hT.unique.1 hj h
  rw [hnodup.mem_erase_iff, hnodup'.mem_erase_iff, hunseen hj, Ne, Ne, hsame]

/-- **The traversals of two books keep in step** from stacks that are paired, as long as the places
that have not been seen are paired. -/
theorem thresholdsFrom_eq (hT : b.Twins b' T) : (unseen stack : List Node.Id) →
    (unseen' stack' : List Node.Id) → unseen.Nodup → unseen'.Nodup →
    (∀ {j j'}, T j j' → (j ∈ unseen ↔ j' ∈ unseen')) → List.Forall₂ T stack stack' →
    thresholdsFrom b.nodes unseen stack = thresholdsFrom b'.nodes unseen' stack'
  | unseen, [], unseen', _, _, _, _, .nil => by
    rw [thresholdsFrom, thresholdsFrom]
  | unseen, id :: stack, unseen', id' :: stack', hnodup, hnodup', hunseen, .cons hid hstack => by
    by_cases hmem : id ∈ unseen
    · obtain ⟨node, node', hnode, hnode', halike⟩ := hT.node hid
      rw [thresholdsFrom_visit hmem, thresholdsFrom_visit ((hunseen hid).mp hmem), hnode, hnode',
        Option.bind_some, Option.bind_some, halike.threshold?_eq]
      refine congrArg _ (thresholdsFrom_eq hT _ _ _ _ (hnodup.erase id) (hnodup'.erase id') ?_ ?_)
      · exact fun hj => hT.mem_erase_iff hnodup hnodup' hunseen hid hj
      · exact List.rel_append (List.rel_reverse halike.members) hstack
    · rw [thresholdsFrom_skip hmem, thresholdsFrom_skip (mt (hunseen hid).mpr hmem)]
      exact thresholdsFrom_eq hT unseen stack unseen' stack' hnodup hnodup' hunseen hstack
termination_by unseen stack => (unseen.length, stack.length)
decreasing_by
  · exact Prod.Lex.left _ _ (by
      rw [List.length_erase_of_mem hmem]
      exact Nat.sub_lt (List.length_pos_of_mem hmem) Nat.one_pos)
  · exact Prod.Lex.right _ (Nat.lt_succ_self _)

/-- **Paired rules give the same thresholds**, in the same order. -/
theorem thresholds (hT : b.Twins b' T) (h : List.Forall₂ T roots roots') :
    b.thresholds roots = b'.thresholds roots' := by
  refine hT.thresholdsFrom_eq _ _ _ _ List.nodup_range List.nodup_range ?_ (List.rel_reverse h)
  intro j j' hj
  obtain ⟨hlt, hlt'⟩ := hT.lt_size hj
  exact ⟨fun _ => List.mem_range.mpr hlt', fun _ => List.mem_range.mpr hlt⟩

end Book.Twins

/-! ### Verdicts -/

/-- What a member gives, its group gives. -/
theorem Book.Gives.of_member {b : Book} {id m : Node.Id} {q : Quantifier} {label : String}
    {ids : List Node.Id} (hnode : b.nodes[id]? = some (.group q label ids)) (hm : m ∈ ids)
    {name : String} {threshold : Option Float} (h : b.Gives [m] name threshold) :
    b.Gives [id] name threshold := by
  obtain ⟨leaf, place, hreached, hleaf⟩ := h
  refine ⟨leaf, place, ?_, hleaf⟩
  clear hleaf
  induction hreached with
  | root hroot =>
    rw [List.mem_singleton.mp hroot]
    exact .member (.root (List.mem_singleton_self id)) hnode hm
  | member _ hn hmem ih => exact .member ih hn hmem

namespace Book.Twins

variable {b b' : Book} {T : Node.Id → Node.Id → Prop} {id id' : Node.Id} {roots roots' : List Node.Id}
  {c c' : Context}

/-- The conditions of a name in two books have the same verdict, each in its own context. -/
def SameVerdict (b b' : Book) (c c' : Context) (name : String) : Prop :=
  ∀ k k', b.registry.find? name = some k → b'.registry.find? name = some k' → k c = k' c'

/-- **Paired rules have the same verdict** if the conditions of the leaves have. -/
theorem evaluate (hT : b.Twins b' T) (hb : b.Coherent) (hb' : b'.Coherent) (h : T id id')
    (hleaves : ∀ name threshold, b.Gives [id] name threshold → SameVerdict b b' c c' name) :
    b.evaluate c id = b'.evaluate c' id' := by
  induction id using Nat.strong_induction_on generalizing id' with
  | _ id ih =>
    obtain ⟨node, node', hnode, hnode', halike⟩ := hT.node h
    cases halike with
    | @leaf name place place' threshold =>
      obtain ⟨k, hk, heval⟩ := hb.evaluate_leaf hnode
      obtain ⟨k', hk', heval'⟩ := hb'.evaluate_leaf hnode'
      rw [heval, heval']
      exact hleaves name threshold ⟨id, place, .root (List.mem_singleton_self id), hnode⟩ k k' hk hk'
    | @group q label ids ids' hids =>
      rw [hb.evaluate_group hnode, hb'.evaluate_group hnode']
      refine congrArg q.combine (map_eq_of_forall₂ hids fun m m' hm hmm' => ?_)
      have hlt : m < id := hb.members id q label ids hnode m hm
      rw [hT.label hmm', ih m hlt hmm' fun name threshold hgives =>
        hleaves name threshold (hgives.of_member hnode hm)]

/-- **Paired lists of rules have the same verdicts**, each list in its own context. -/
theorem evaluateAll (hT : b.Twins b' T) (hb : b.Coherent) (hb' : b'.Coherent)
    (h : List.Forall₂ T roots roots')
    (hleaves : ∀ name threshold, b.Gives roots name threshold → SameVerdict b b' c c' name) :
    b.evaluateAll c roots = b'.evaluateAll c' roots' := by
  refine map_eq_of_forall₂ h fun id id' hmem hid => ?_
  have hsub : [id] ⊆ roots := fun j hj => by
    rw [List.mem_singleton.mp hj]
    exact hmem
  rw [hT.label hid, hT.evaluate hb hb' hid fun name threshold hgives =>
    hleaves name threshold (hgives.of_subset hsub)]

end Book.Twins

/-! ### Decisions -/

/-- The group decides on the choice. The rules for and against going down from a timeframe do not. -/
def Station.Decides : Station → Prop
  | drop _ | forbid _ => False
  | _ => True

section Decisions

variable {b b' : Book} {input : SelectionInput} {s : Station}

/-- Whether a group passes can be told from the verdicts of its rules. -/
theorem Station.passes_congr (h : s.results b input = s.results b' input) :
    s.Passes b input ↔ s.Passes b' input := by
  cases s <;> (unfold Passes; rw [h])

theorem Station.record_congr (h : s.results b input = s.results b' input) :
    s.record b input = s.record b' input := by
  rw [record, record, passes_eq_judge, passes_eq_judge, h]

/-- A group has as many verdicts as rules. -/
theorem Station.rules_eq_nil_iff : s.rules b = [] ↔ s.results b input = [] := by
  rw [results, Book.evaluateList, Book.evaluateAll, List.map_eq_nil_iff]

/-- **Two books go the same way** if they try the same timeframes and the groups that decide have the
same verdicts. -/
theorem Book.Chooses.transfer {order : List Timeframe} {groups groups' : ByTimeframe Groups}
    (hlayout : b.selection.layout = .byTimeframe order groups)
    (hlayout' : b'.selection.layout = .byTimeframe order groups')
    (hminute : b.selection.allowsMinute = b'.selection.allowsMinute)
    (hdefault : b.selection.default = b'.selection.default)
    (hresults : ∀ s : Station, s.Decides → s.results b input = s.results b' input)
    {choice : Choice} {ground : Ground} {way : List Station}
    (h : b.Chooses input choice ground way) : b'.Chooses input choice ground way := by
  have hpass (s : Station) (hs : s.Decides) : s.Passes b input ↔ s.Passes b' input :=
    Station.passes_congr (hresults s hs)
  have hfilters' := hpass .filters trivial
  have hstay' (tf : Timeframe) := hpass (.stay tf) trivial
  have hminute' := hpass .minute trivial
  cases h with
  | filtersFailed hfilters => exact .filtersFailed (mt hfilters'.mpr hfilters)
  | stay hfilters hlayout₁ horder hbefore hstay =>
    rw [hlayout] at hlayout₁
    cases hlayout₁
    exact .stay (hfilters'.mp hfilters) hlayout' horder
      (fun t ht => mt (hstay' t).mpr (hbefore t ht)) ((hstay' _).mp hstay)
  | minute hfilters hlayout₁ horder hallowed hholds =>
    rw [hlayout] at hlayout₁
    cases hlayout₁
    exact .minute (hfilters'.mp hfilters) hlayout'
      (fun t ht => mt (hstay' t).mpr (horder t ht)) (hminute ▸ hallowed) (hminute'.mp hholds)
  | fallback hfilters hlayout₁ horder hnot =>
    rw [hlayout] at hlayout₁
    cases hlayout₁
    rw [hminute, hdefault]
    exact .fallback (hfilters'.mp hfilters) hlayout'
      (fun t ht => mt (hstay' t).mpr (horder t ht))
      fun ha => mt hminute'.mpr (hnot (hminute ▸ ha))
  | noRules _ hflat _ | stayFlat _ hflat _ _ | minuteFlat _ hflat _ _ _ _ _ _ | drop _ hflat _ _ _ _ _
  | forbid _ hflat _ _ _ | fallbackFlat _ hflat _ _ _ _ =>
    rw [hlayout] at hflat
    cases hflat

/-- A group that decides is kept alike on the same way. -/
theorem Book.Chooses.lookup_eq {choice choice' : Choice} {ground ground' : Ground}
    {way : List Station} (h : b.Chooses input choice ground way)
    (h' : b'.Chooses input choice' ground' way) (hresults : s.results b input = s.results b' input) :
    (b.select input).groups.lookup s.name = (b'.select input).groups.lookup s.name := by
  have hkept {b : Book} {choice : Choice} {ground : Ground} (h : b.Chooses input choice ground way)
      (r : GroupRecord) : (b.select input).groups.lookup s.name = some r ↔
        s ∈ way ∧ s.results b input ≠ [] ∧ s.record b input = r := by
    rw [h.select.2.2, lookup_visit]
    constructor
    · rintro ⟨t, ht, hrules, hname, hr⟩
      obtain rfl := Station.name_injective hname
      exact ⟨ht, mt Station.rules_eq_nil_iff.mpr hrules, hr⟩
    · rintro ⟨hs, hne, hr⟩
      exact ⟨s, hs, mt Station.rules_eq_nil_iff.mp hne, rfl, hr⟩
  refine Option.ext fun r => ?_
  rw [hkept h, hkept h', hresults, Station.record_congr hresults]

/-- A selection breaks down exactly where a rule on its way does. -/
theorem Book.Chooses.crash_iff {choice : Choice} {ground : Ground} {way : List Station}
    (h : b.Chooses input choice ground way) :
    (b.select input).crash = none ↔ ∀ s ∈ way, ∀ l ∈ s.results b input, l.verdict.crash = none := by
  rw [Decision.crash, h.select.2.2]
  exact firstCrash_visit

end Decisions

end TopDown
