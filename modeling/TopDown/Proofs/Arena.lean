import TopDown.Proofs.Neutral
import TopDown.Proofs.Origin

/-!
# Places that are followed lead somewhere

To check a rule is to follow places: from a list to a node, from a group to its members, from a leaf
to a condition. `TopDown.Book.evaluate` has an answer where a place leads nowhere, and so cannot be
asked whether that happens. Here checking is said once more as a relation that has no such answer. In
`TopDown.Book.Evaluates` every place is read, and there is a derivation only if no reading fails and
the descent comes to an end; `TopDown.Gathers` does the same for the traversal that gathers
thresholds, with its stack and the nodes that it has seen, and `TopDown.Book.EvaluatesList` for a
list of rules.

A compiled book has the shape that this needs (`TopDown.Book.Arena`): the members of a group stand
before it, and there are some; a leaf has a place that the registry has given to its name; lists and
named rules hold places of nodes. It follows that on any rules of the book the three relations have
exactly one result, which is that of the functions (`TopDown.Book.compile_arena`).

What remains is the condition that a leaf asks, whose own readings are not those of the book. The checks
that a book adds to its base read a window, and never outside of it. They may break down, but only
because the length of the window cannot be counted; and then no window is read at all.
-/

namespace TopDown

/-! ### Checking in the open -/

/-- **A node is checked in the open**: its places are read, and no reading fails. -/
inductive Book.Evaluates (b : Book) (c : Context) : Node.Id → Verdict → Prop
  /-- The condition of a leaf is read from its place in the registry. -/
  | leaf {id : Node.Id} {name : String} {place : Nat} {threshold : Option Float} {k : Condition}
      (hnode : b.nodes[id]? = some (.leaf name place threshold))
      (hk : b.registry.at? place = some k) : Evaluates b c id (k c)
  /-- The members of a group are read for their names, and checked. -/
  | group {id : Node.Id} {q : Quantifier} {label : String} {ids : List Node.Id}
      {members : List Labelled} (hnode : b.nodes[id]? = some (.group q label ids))
      (hlen : members.length = ids.length)
      (hlabels : ∀ (i : Nat) (m : Node.Id) (l : Labelled), ids[i]? = some m →
        members[i]? = some l → ∃ node, b.nodes[m]? = some node ∧ node.label = l.label)
      (hverdicts : ∀ (i : Nat) (m : Node.Id) (l : Labelled), ids[i]? = some m →
        members[i]? = some l → Evaluates b c m l.verdict) :
      Evaluates b c id (q.combine members)

/-- **Thresholds are gathered in the open.** Nodes are taken from the top of a stack. A node that was
seen is passed over. Any other is read, which must not fail: its threshold is kept, and its members go
on the stack. -/
inductive Gathers (nodes : Array Node) :
    List Node.Id → List Node.Id → List (String × Float) → Prop
  /-- The stack is empty. -/
  | done {seen : List Node.Id} : Gathers nodes seen [] []
  /-- The node was seen. -/
  | skip {seen stack : List Node.Id} {id : Node.Id} {named : List (String × Float)} (hid : id ∈ seen)
      (h : Gathers nodes seen stack named) : Gathers nodes seen (id :: stack) named
  /-- The node is read. -/
  | visit {seen stack : List Node.Id} {id : Node.Id} {node : Node} {named : List (String × Float)}
      (hid : id ∉ seen) (hnode : nodes[id]? = some node)
      (h : Gathers nodes (id :: seen) (node.members.reverse ++ stack) named) :
      Gathers nodes seen (id :: stack) (node.threshold?.toList ++ named)

/-- **A list of rules is checked in the open**: its thresholds are gathered and laid over the facts,
and each rule is read for its name, and checked. -/
def Book.EvaluatesList (b : Book) (c : Context) (roots : List Node.Id) (ls : List Labelled) : Prop :=
  ∃ named, Gathers b.nodes [] roots.reverse named ∧ ls.length = roots.length ∧
    ∀ (i : Nat) id l, roots[i]? = some id → ls[i]? = some l →
      (∃ node, b.nodes[id]? = some node ∧ node.label = l.label) ∧
        b.Evaluates (c.withThresholds named) id l.verdict

/-- **The shape of a book.** -/
structure Book.Arena (b : Book) : Prop where
  /-- A group has members, and they stand before it. -/
  members : ∀ (id : Node.Id) q label ids, b.nodes[id]? = some (.group q label ids) →
    ids ≠ [] ∧ ∀ m ∈ ids, m < id
  /-- A leaf has a place of the registry, which is that of its name. -/
  leaves : ∀ (id : Node.Id) name place threshold,
    b.nodes[id]? = some (.leaf name place threshold) →
      place < b.registry.size ∧ b.registry.names[place]? = some name
  /-- The lists of the timeframes and of the selection hold places of nodes. -/
  lists : ∀ id ∈ b.ids, id < b.nodes.size
  /-- So do the named rules. -/
  named : ∀ name id, b.named.lookup name = some id → id < b.nodes.size

/-! ### One result -/

section Results

variable {b : Book} {c : Context} {id : Node.Id}

/-- Where a node stands, its name is read. -/
theorem Book.label_eq {node : Node} (hnode : b.nodes[id]? = some node) : b.label id = node.label := by
  rw [label, hnode]

/-- A listing of rules is told by the name and the verdict of each. -/
theorem Book.eq_map_label {ids : List Node.Id} {ls : List Labelled} {f : Node.Id → Verdict}
    (hlen : ls.length = ids.length)
    (h : ∀ (i : Nat) id l, ids[i]? = some id → ls[i]? = some l →
      (∃ node, b.nodes[id]? = some node ∧ node.label = l.label) ∧ l.verdict = f id) :
    ls = ids.map fun id => ⟨b.label id, f id⟩ := by
  refine List.ext_getElem (by rw [hlen, List.length_map]) fun i hi hi' => ?_
  rw [List.length_map] at hi'
  obtain ⟨⟨node, hnode, hlabel⟩, hverdict⟩ :=
    h i ids[i] ls[i] (List.getElem?_eq_getElem hi') (List.getElem?_eq_getElem hi)
  rw [List.getElem_map, label_eq hnode, hlabel, ← hverdict]

/-- **Checking in the open has no other result** than that of the function. -/
theorem Book.Coherent.eq_of_evaluates (hb : b.Coherent) {v : Verdict} (h : b.Evaluates c id v) :
    v = b.evaluate c id := by
  induction h with
  | @leaf id name place threshold k hnode hk =>
    obtain ⟨k', hk', heval⟩ := hb.evaluate_leaf hnode
    rw [Registry.at?_of_place? (hb.leaves id name place threshold hnode), hk'] at hk
    cases hk
    rw [heval]
  | @group id q label ids members hnode hlen hlabels _ ih =>
    rw [hb.evaluate_group hnode]
    refine congrArg q.combine (eq_map_label hlen fun i m l hm hl => ?_)
    exact ⟨hlabels i m l hm hl, ih i m l hm hl⟩

/-- **Checking in the open comes to an end**, and no reading fails. -/
theorem Book.Coherent.evaluates (hb : b.Coherent) (c : Context) (hid : id < b.nodes.size) :
    b.Evaluates c id (b.evaluate c id) := by
  induction id using Nat.strong_induction_on with
  | _ id ih =>
    rcases hb.node_cases hid with ⟨name, place, threshold, k, hnode, hk, heval⟩ |
      ⟨q, label, ids, hnode, hids, heval⟩
    · rw [heval]
      refine .leaf hnode ?_
      rw [Registry.at?_of_place? (hb.leaves id name place threshold hnode), hk]
    · rw [heval]
      -- the members stand before the group, so each of them is a node and has been dealt with
      have hmember {i : Nat} {m : Node.Id} {l : Labelled} (hm : ids[i]? = some m)
          (hl : (ids.map fun m => (⟨b.label m, b.evaluate c m⟩ : Labelled))[i]? = some l) :
          m < id ∧ m < b.nodes.size ∧ l = ⟨b.label m, b.evaluate c m⟩ := by
        rw [List.getElem?_map, hm] at hl
        obtain ⟨hlt, hsize⟩ := hids m (List.mem_of_getElem? hm)
        exact ⟨hlt, hsize, (Option.some.inj hl).symm⟩
      refine .group hnode (List.length_map _) (fun i m l hm hl => ?_) fun i m l hm hl => ?_
      · obtain ⟨-, hsize, rfl⟩ := hmember hm hl
        have hread := Array.getElem?_eq_getElem hsize
        exact ⟨_, hread, (label_eq hread).symm⟩
      · obtain ⟨hlt, hsize, rfl⟩ := hmember hm hl
        exact ih m hlt hsize

/-- **Gathering in the open has one result at most.** -/
theorem Gathers.unique {nodes : Array Node} {seen stack : List Node.Id}
    {named named' : List (String × Float)} (h : Gathers nodes seen stack named)
    (h' : Gathers nodes seen stack named') : named = named' := by
  induction h generalizing named' with
  | done =>
    cases h'
    rfl
  | skip hid _ ih =>
    cases h' with
    | skip _ h' => exact ih h'
    | visit hid' _ _ => exact absurd hid hid'
  | visit hid hnode _ ih =>
    cases h' with
    | skip hid' _ => exact absurd hid' hid
    | visit _ hnode' h' =>
      rw [hnode, Option.some.injEq] at hnode'
      subst hnode'
      rw [ih h']

/-- **Gathering in the open comes to an end**, and no reading fails. The nodes that have been seen are
those that the traversal does not count as unseen. -/
theorem Book.Coherent.gathers (hb : b.Coherent) : (unseen seen stack : List Node.Id) →
    unseen.Nodup → (∀ id < b.nodes.size, id ∈ unseen ↔ id ∉ seen) →
    (∀ id ∈ stack, id < b.nodes.size) →
    Gathers b.nodes seen stack (thresholdsFrom b.nodes unseen stack)
  | unseen, seen, [], _, _, _ => by
    rw [thresholdsFrom]
    exact .done
  | unseen, seen, id :: stack, hnodup, hseen, hstack => by
    have hsize : id < b.nodes.size := hstack id List.mem_cons_self
    have hrest : ∀ m ∈ stack, m < b.nodes.size := fun m hm => hstack m (List.mem_cons_of_mem _ hm)
    by_cases hid : id ∈ unseen
    · have hnode : b.nodes[id]? = some b.nodes[id] := Array.getElem?_eq_getElem hsize
      rw [thresholdsFrom_visit hid, hnode, Option.bind_some]
      refine .visit ((hseen id hsize).mp hid) hnode (hb.gathers _ _ _ (hnodup.erase id) ?_ ?_)
      · intro m hm
        rw [hnodup.mem_erase_iff, hseen m hm, List.mem_cons, not_or]
      · intro m hm
        rcases List.mem_append.mp hm with hm | hm
        · -- the members of a node stand before it
          cases hn : b.nodes[id] with
          | leaf _ _ _ =>
            rw [hn] at hm
            cases hm
          | group q label ids =>
            rw [hn] at hm hnode
            exact (hb.members id q label ids hnode m (List.mem_reverse.mp hm)).trans hsize
        · exact hrest m hm
    · rw [thresholdsFrom_skip hid]
      exact .skip (not_not.mp (mt (hseen id hsize).mpr hid))
        (hb.gathers unseen seen stack hnodup hseen hrest)
termination_by unseen _ stack => (unseen.length, stack.length)
decreasing_by
  · exact Prod.Lex.left _ _ (by
      rw [List.length_erase_of_mem hid]
      exact Nat.sub_lt (List.length_pos_of_mem hid) Nat.one_pos)
  · exact Prod.Lex.right _ (Nat.lt_succ_self _)

variable {roots : List Node.Id}

/-- The traversal of some rules of the book gathers their thresholds, and nothing else. -/
theorem Book.Coherent.gathers_iff (hb : b.Coherent) (hroots : ∀ id ∈ roots, id < b.nodes.size)
    {named : List (String × Float)} :
    Gathers b.nodes [] roots.reverse named ↔ named = b.thresholds roots := by
  have hgathers : Gathers b.nodes [] roots.reverse (b.thresholds roots) := by
    refine hb.gathers _ _ _ List.nodup_range (fun id hid => ?_) fun id hid => ?_
    · exact iff_of_true (List.mem_range.mpr hid) List.not_mem_nil
    · exact hroots id (List.mem_reverse.mp hid)
  constructor
  · exact fun h => h.unique hgathers
  · rintro rfl
    exact hgathers

/-- The node of a rule of the book has one verdict. -/
theorem Book.Coherent.evaluates_iff (hb : b.Coherent) (hid : id < b.nodes.size) {v : Verdict} :
    b.Evaluates c id v ↔ v = b.evaluate c id := by
  constructor
  · exact hb.eq_of_evaluates
  · rintro rfl
    exact hb.evaluates c hid

/-- A list of rules of the book has one listing of verdicts. -/
theorem Book.Coherent.evaluatesList_iff (hb : b.Coherent) (hroots : ∀ id ∈ roots, id < b.nodes.size)
    {ls : List Labelled} : b.EvaluatesList c roots ls ↔ ls = b.evaluateList c roots := by
  constructor
  · rintro ⟨named, hnamed, hlen, hls⟩
    obtain rfl := (hb.gathers_iff hroots).mp hnamed
    refine eq_map_label hlen fun i id l hid hl => ?_
    obtain ⟨hlabel, hverdict⟩ := hls i id l hid hl
    exact ⟨hlabel, hb.eq_of_evaluates hverdict⟩
  · rintro rfl
    refine ⟨_, (hb.gathers_iff hroots).mpr rfl, List.length_map _, fun i id l hid hl => ?_⟩
    rw [evaluateList, evaluateAll, List.getElem?_map, hid] at hl
    cases hl
    have hsize := hroots id (List.mem_of_getElem? hid)
    have hread := Array.getElem?_eq_getElem hsize
    exact ⟨⟨_, hread, (label_eq hread).symm⟩, hb.evaluates _ hsize⟩

end Results

/-! ### Compiled books -/

section Compiled

variable {base : Registry} {b : Book}

/-- A compiled book has the shape of an arena. -/
theorem Book.arena_of_compile {config : Json} (h : compile base config = .ok b) : b.Arena := by
  have hb : b.Coherent := compile_coherent h
  refine ⟨fun id q label ids hnode => ⟨?_, hb.members id q label ids hnode⟩,
    fun id name place threshold hnode => ?_, hb.lists, hb.named⟩
  · cases config with
    | obj root =>
      obtain ⟨rules, -, hspelt⟩ := compile_spelt h
      refine hspelt.carried id q "" ids ?_
      rw [shapeAt, hnode]
      rfl
    | null | bool _ | int _ | real _ | str _ | arr _ => cases h
  · have hplace := hb.leaves id name place threshold hnode
    exact ⟨Registry.lt_size_of_place? hplace, Registry.place?_eq_some_iff.mp hplace⟩

/-- **Every place in a compiled book leads somewhere.** The book has the shape of an arena. On its
nodes, and on any list of them, checking in the open and gathering in the open come to an end without
a reading that fails, and have the results of the functions. The check of a node breaks down only where
a condition that the node reaches does: as a condition of the base does, or for a length that cannot be
counted, and so never because a place or a value is looked for outside of its list. It does not break
down at all if the conditions of the base do not and the windows of the checks can be counted. -/
theorem Book.compile_arena {config : Json} (h : compile base config = .ok b) :
    b.Arena ∧
      (∀ c id, id < b.nodes.size → ∀ v, b.Evaluates c id v ↔ v = b.evaluate c id) ∧
      (∀ roots, (∀ id ∈ roots, id < b.nodes.size) →
        (∀ named, Gathers b.nodes [] roots.reverse named ↔ named = b.thresholds roots) ∧
          ∀ c ls, b.EvaluatesList c roots ls ↔ ls = b.evaluateList c roots) ∧
      (∀ c id, id < b.nodes.size →
        ((b.evaluate c id).crash = none ↔ ∀ v, b.Reports c id v → v.crash = none)) ∧
      (∀ c id, id < b.nodes.size → ∀ crash, (b.evaluate c id).crash = some crash →
        crash = .countSum ∨ ∃ e ∈ base.entries, (e.2 c).crash = some crash) ∧
      (base.Steady → (∀ e ∈ b.registry.entries, ∀ k : Check,
        e.2 = (fun c => k.evaluate e.1 c) → k.Countable) →
        ∀ c id, id < b.nodes.size → (b.evaluate c id).crash = none) := by
  have hb : b.Coherent := compile_coherent h
  refine ⟨arena_of_compile h, fun c id hid v => hb.evaluates_iff hid, fun roots hroots => ?_,
    fun c id hid => (hb.evaluate_reports c hid).2, fun c id hid crash => compile_crash h hid,
    fun hbase hcount c id hid => ?_⟩
  · exact ⟨fun named => hb.gathers_iff hroots, fun c ls => hb.evaluatesList_iff hroots⟩
  · exact evaluate_crash hb (compile_steady h hbase hcount) c hid

end Compiled

/-- In the book of two groups that share a third, the list of the timeframe is checked in the open,
and its rule does not break down. -/
theorem Book.compile_arena_sharedTrend : ∃ b,
    Book.compile .builtin (.obj sharedTrend) = .ok b ∧ b.Arena ∧
    (b.blocks .h1).map Block.long = some [5] ∧
    b.EvaluatesList indexAlone [5] (b.evaluateList indexAlone [5]) ∧
    ∀ v, b.Reports indexAlone 5 v → v.crash = none := by
  have hrun : ((Book.compile .builtin (.obj sharedTrend)).toOption.map fun b =>
      ((b.blocks .h1).map Block.long, (b.evaluate indexAlone 5).crash, b.nodes.size)) =
      some (some [5], none, 6) := by decide +kernel
  obtain ⟨b, hb, hrun⟩ := Option.map_eq_some_iff.mp hrun
  simp only [Prod.mk.injEq] at hrun
  obtain ⟨hlong, hcrash, hsize⟩ := hrun
  have hid : 5 < b.nodes.size := by
    rw [hsize]
    decide
  have hcompile := toOption_eq_some.mp hb
  obtain ⟨harena, -, hlists, hcrashes, -, -⟩ := Book.compile_arena hcompile
  have hroots : ∀ id ∈ [5], id < b.nodes.size := fun id h => by rwa [List.mem_singleton.mp h]
  exact ⟨b, hcompile, harena, hlong, ((hlists [5] hroots).2 _ _).mpr rfl,
    (hcrashes indexAlone 5 hid).mp hcrash⟩

end TopDown
