import Mathlib.Data.List.Induction
import TopDown.Proofs.Integrity
import TopDown.Proofs.Overwriting

/-!
# Whose threshold counts

Before a list of rules is checked, the thresholds that its references give are gathered into one
context. A reference does not keep its threshold for itself: the context has one threshold for each
name, and every leaf of that name is checked against it. This file says exactly what a leaf sees.

The gathering is a traversal with a stack (`TopDown.Book.thresholdsFrom`), which visits each node
once. We show that it gathers the thresholds of the leaves that the rules reach, and no others
(`TopDown.Book.mem_thresholds`). It follows that a name has a threshold in the context exactly where
some reached leaf gives one, and that it is one of those that are given
(`TopDown.Book.threshold?_injected`).

So leaves are kept apart as far as they agree. If all reached leaves of a name give the same, each of
them is checked with what it gives, and the order of the list plays no part
(`TopDown.Book.evaluateList_thresholds`). If two of them give different thresholds, one of the two is
checked with the threshold of the other.
-/

namespace TopDown

/-! ### Reaching nodes -/

/-- The members of a node. -/
def Node.members : Node → List Node.Id
  | leaf _ _ _ => []
  | group _ _ ids => ids

/-- The threshold that a node gives, with the name it is for. -/
def Node.threshold? : Node → Option (String × Float)
  | leaf name _ (some t) => some (name, t)
  | leaf _ _ none => none
  | group _ _ _ => none

/-- **The rules reach a node**: it is one of them, or a member of a node that they reach. -/
inductive Book.Reaches (b : Book) (roots : List Node.Id) : Node.Id → Prop
  /-- A rule of the list. -/
  | root {id : Node.Id} (h : id ∈ roots) : Reaches b roots id
  /-- A member of a group. -/
  | member {id m : Node.Id} {node : Node} (h : Reaches b roots id)
      (hnode : b.nodes[id]? = some node) (hm : m ∈ node.members) : Reaches b roots m

/-- A node is reached from a stack without coming past a node that has been seen. -/
inductive ReachesUnseen (nodes : Array Node) (unseen stack : List Node.Id) : Node.Id → Prop
  /-- A node on the stack. -/
  | top {id : Node.Id} (h : id ∈ stack) (hunseen : id ∈ unseen) : ReachesUnseen nodes unseen stack id
  /-- A member of a group. -/
  | member {id m : Node.Id} {node : Node} (h : ReachesUnseen nodes unseen stack id)
      (hnode : nodes[id]? = some node) (hm : m ∈ node.members) (hunseen : m ∈ unseen) :
      ReachesUnseen nodes unseen stack m

section Traversal

open Book

variable {nodes : Array Node} {unseen stack : List Node.Id} {id j : Node.Id}

theorem ReachesUnseen.mem (h : ReachesUnseen nodes unseen stack j) : j ∈ unseen := by
  cases h with
  | top _ hunseen => exact hunseen
  | member _ _ _ hunseen => exact hunseen

/-- A node that has been seen is passed over. -/
theorem reachesUnseen_skip (hid : id ∉ unseen) :
    ReachesUnseen nodes unseen (id :: stack) j ↔ ReachesUnseen nodes unseen stack j := by
  constructor
  · intro h
    induction h with
    | top h hunseen =>
      rcases List.mem_cons.mp h with rfl | h
      · exact absurd hunseen hid
      · exact .top h hunseen
    | member _ hnode hm hunseen ih => exact .member ih hnode hm hunseen
  · intro h
    induction h with
    | top h hunseen => exact .top (List.mem_cons_of_mem _ h) hunseen
    | member _ hnode hm hunseen ih => exact .member ih hnode hm hunseen

/-- **A node is visited**: from then on it has been seen, and its members are on the stack. What was
within reach is the node itself, or still within reach. -/
theorem reachesUnseen_visit (hnodup : unseen.Nodup) (hid : id ∈ unseen) {ids : List Node.Id}
    (hids : ∀ m, m ∈ ids ↔ ∃ node, nodes[id]? = some node ∧ m ∈ node.members) :
    ReachesUnseen nodes unseen (id :: stack) j ↔
      j = id ∨ ReachesUnseen nodes (unseen.erase id) (ids ++ stack) j := by
  constructor
  · intro h
    induction h with
    | @top k hk hunseen =>
      by_cases hkid : k = id
      · exact .inl hkid
      · have hstack : k ∈ stack := (List.mem_cons.mp hk).resolve_left hkid
        exact .inr (.top (List.mem_append_right _ hstack) (hnodup.mem_erase_iff.mpr ⟨hkid, hunseen⟩))
    | @member k m node _ hnode hm hunseen ih =>
      by_cases hmid : m = id
      · exact .inl hmid
      · have hleft : m ∈ unseen.erase id := hnodup.mem_erase_iff.mpr ⟨hmid, hunseen⟩
        right
        rcases ih with rfl | ih
        · exact .top (List.mem_append_left _ ((hids m).mpr ⟨node, hnode, hm⟩)) hleft
        · exact .member ih hnode hm hleft
  · rintro (rfl | h)
    · exact .top List.mem_cons_self hid
    · induction h with
      | @top k hk hunseen =>
        have hk' := List.mem_of_mem_erase hunseen
        rcases List.mem_append.mp hk with hk | hk
        · obtain ⟨node, hnode, hm⟩ := (hids k).mp hk
          exact .member (.top List.mem_cons_self hid) hnode hm hk'
        · exact .top (List.mem_cons_of_mem _ hk) hk'
      | member _ hnode hm hunseen ih =>
        exact .member ih hnode hm (List.mem_of_mem_erase hunseen)

/-- One step of the traversal, whatever the node. -/
theorem thresholdsFrom_visit (hid : id ∈ unseen) :
    thresholdsFrom nodes unseen (id :: stack) =
      ((nodes[id]?).bind Node.threshold?).toList ++
        thresholdsFrom nodes (unseen.erase id)
          (((nodes[id]?).elim [] Node.members).reverse ++ stack) := by
  rw [thresholdsFrom, dif_pos hid]
  cases nodes[id]? with
  | none => rfl
  | some node =>
    cases node with
    | leaf name place threshold => cases threshold <;> rfl
    | group q label ids => rfl

theorem thresholdsFrom_skip (hid : id ∉ unseen) :
    thresholdsFrom nodes unseen (id :: stack) = thresholdsFrom nodes unseen stack := by
  rw [thresholdsFrom, dif_neg hid]

/-- **The traversal visits each node within reach once**, and gathers the thresholds of the nodes in
the order of the visits. -/
theorem exists_visits (nodes : Array Node) : (unseen stack : List Node.Id) → unseen.Nodup →
    ∃ visited : List Node.Id, visited.Nodup ∧
      (∀ id, id ∈ visited ↔ ReachesUnseen nodes unseen stack id) ∧
      thresholdsFrom nodes unseen stack =
        visited.filterMap fun id => (nodes[id]?).bind Node.threshold?
  | unseen, [], _ => by
    refine ⟨[], List.nodup_nil, fun id => iff_of_false List.not_mem_nil fun h => ?_, ?_⟩
    · -- nothing is within reach of an empty stack
      induction h with
      | top h _ => exact absurd h List.not_mem_nil
      | member _ _ _ _ ih => exact ih
    · rw [thresholdsFrom, List.filterMap_nil]
  | unseen, id :: stack, hnodup => by
    by_cases hid : id ∈ unseen
    · have hids (m : Node.Id) : m ∈ ((nodes[id]?).elim [] Node.members).reverse ↔
          ∃ node, nodes[id]? = some node ∧ m ∈ node.members := by
        rw [List.mem_reverse]
        cases nodes[id]? with
        | none => simp
        | some node => simp
      obtain ⟨visited, hvisited, hmem, hgathered⟩ := exists_visits nodes (unseen.erase id)
        (((nodes[id]?).elim [] Node.members).reverse ++ stack) (hnodup.erase id)
      -- the node has been seen from now on, so it is not visited again
      have hfresh : id ∉ visited := fun h => hnodup.not_mem_erase ((hmem id).mp h).mem
      refine ⟨id :: visited, List.nodup_cons.mpr ⟨hfresh, hvisited⟩, fun j => ?_, ?_⟩
      · rw [List.mem_cons, hmem, reachesUnseen_visit hnodup hid hids]
      · rw [thresholdsFrom_visit hid, hgathered, List.filterMap_cons]
        cases (nodes[id]?).bind Node.threshold? with
        | none => rfl
        | some e => rfl
    · obtain ⟨visited, hvisited, hmem, hgathered⟩ := exists_visits nodes unseen stack hnodup
      refine ⟨visited, hvisited, fun j => ?_, ?_⟩
      · rw [hmem, reachesUnseen_skip hid]
      · rw [thresholdsFrom_skip hid, hgathered]
termination_by unseen stack => (unseen.length, stack.length)
decreasing_by
  · exact Prod.Lex.left _ _ (by
      rw [List.length_erase_of_mem hid]
      exact Nat.sub_lt (List.length_pos_of_mem hid) Nat.one_pos)
  · exact Prod.Lex.right _ (Nat.lt_succ_self _)

end Traversal

/-! ### What is gathered -/

section Gathered

variable {b : Book} {roots : List Node.Id}

/-- **A leaf that the rules reach gives a threshold for a name**, or gives none. -/
def Book.Gives (b : Book) (roots : List Node.Id) (name : String) (threshold : Option Float) : Prop :=
  ∃ id place, b.Reaches roots id ∧ b.nodes[id]? = some (.leaf name place threshold)

/-- On a fresh traversal, what is within reach is what the rules reach. -/
theorem reachesUnseen_fresh {id : Node.Id} {stack : List Node.Id} :
    ReachesUnseen b.nodes (List.range b.nodes.size) stack id ↔
      b.Reaches stack id ∧ id < b.nodes.size := by
  constructor
  · intro h
    refine ⟨?_, List.mem_range.mp h.mem⟩
    induction h with
    | top h _ => exact .root h
    | member _ hnode hm _ ih => exact .member ih hnode hm
  · rintro ⟨h, hlt⟩
    induction h with
    | root h => exact .top h (List.mem_range.mpr hlt)
    | member _ hnode hm ih =>
      exact .member (ih (Array.getElem?_eq_some_iff.mp hnode).1) hnode hm (List.mem_range.mpr hlt)

/-- The order of the rules does not matter for what they reach. -/
theorem Book.Reaches.of_subset {roots' : List Node.Id} (hsub : roots ⊆ roots') {id : Node.Id}
    (h : b.Reaches roots id) : b.Reaches roots' id := by
  induction h with
  | root h => exact .root (hsub h)
  | member _ hnode hm ih => exact .member ih hnode hm

theorem Book.Gives.of_subset {roots' : List Node.Id} (hsub : roots ⊆ roots') {name : String}
    {threshold : Option Float} (h : b.Gives roots name threshold) :
    b.Gives roots' name threshold := by
  obtain ⟨id, place, hid, hnode⟩ := h
  exact ⟨id, place, hid.of_subset hsub, hnode⟩

theorem Node.threshold?_eq_some {node : Node} {name : String} {t : Float} :
    node.threshold? = some (name, t) ↔ ∃ place, node = .leaf name place (some t) := by
  cases node with
  | leaf n place threshold =>
    cases threshold with
    | none => simp [threshold?]
    | some t' => simp [threshold?]
  | group _ _ _ => simp [threshold?]

/-- **The rules have their thresholds gathered from the nodes that they reach**, each of which is
visited once. -/
theorem Book.exists_visited (b : Book) (roots : List Node.Id) :
    ∃ visited : List Node.Id, visited.Nodup ∧
      (∀ id, id ∈ visited ↔ b.Reaches roots id ∧ id < b.nodes.size) ∧
      b.thresholds roots = visited.filterMap fun id => (b.nodes[id]?).bind Node.threshold? := by
  obtain ⟨visited, hvisited, hmem, hgathered⟩ :=
    exists_visits b.nodes (List.range b.nodes.size) roots.reverse List.nodup_range
  refine ⟨visited, hvisited, fun id => ?_, hgathered⟩
  rw [hmem, reachesUnseen_fresh]
  refine and_congr_left fun _ => ⟨fun h => h.of_subset fun _ h => List.mem_reverse.mp h,
    fun h => h.of_subset fun _ h => List.mem_reverse.mpr h⟩

/-- **What is gathered is what the reached leaves give.** -/
theorem Book.mem_thresholds {name : String} {t : Float} :
    (name, t) ∈ b.thresholds roots ↔ b.Gives roots name (some t) := by
  obtain ⟨visited, -, hmem, hgathered⟩ := b.exists_visited roots
  rw [hgathered, List.mem_filterMap]
  constructor
  · rintro ⟨id, hid, h⟩
    obtain ⟨node, hnode, hthreshold⟩ := Option.bind_eq_some_iff.mp h
    obtain ⟨place, rfl⟩ := Node.threshold?_eq_some.mp hthreshold
    exact ⟨id, place, ((hmem id).mp hid).1, hnode⟩
  · rintro ⟨id, place, hid, hnode⟩
    refine ⟨id, (hmem id).mpr ⟨hid, (Array.getElem?_eq_some_iff.mp hnode).1⟩, ?_⟩
    rw [hnode]
    rfl

end Gathered

/-! ### The context of a list -/

namespace Context

variable {c : Context}

theorem thresholdKey_injective : Function.Injective thresholdKey := fun _ _ h =>
  (String.append_left_inj _).mp h

/-- Of several thresholds for a name the last counts, and then those that were there before. -/
theorem lookup_withThresholds (named : List (String × Float)) (name : String) :
    (c.withThresholds named).threshold? name = (named.reverse.lookup name).or (c.threshold? name) :=
  Table.lookup_or_of_steps (·.lookup (thresholdKey name)) (fun t e => by
    simp only [Table.lookup_put, thresholdKey_injective.eq_iff]) c.thresholds

/-- Thresholds are laid over the facts one after the other. -/
theorem thresholds_append (named : List (String × Float)) (e : String × Float) :
    (c.withThresholds (named ++ [e])).thresholds =
      Table.put (thresholdKey e.1) e.2 (c.withThresholds named).thresholds := by
  simp [withThresholds, List.foldl_append]

/-- A key under which no threshold is laid is left alone. -/
theorem lookup_withThresholds_of_ne {named : List (String × Float)} {key : String}
    (hkey : ∀ e ∈ named, key ≠ thresholdKey e.1) :
    (c.withThresholds named).thresholds.lookup key = c.thresholds.lookup key := by
  induction named using List.reverseRecOn with
  | nil => rfl
  | append_singleton named e ih =>
    rw [List.forall_mem_append, List.forall_mem_singleton] at hkey
    rw [thresholds_append, Table.lookup_put_of_ne hkey.2, ih hkey.1]

theorem ordered_withThresholds (hc : Table.Ordered c.thresholds) (named : List (String × Float)) :
    Table.Ordered (c.withThresholds named).thresholds := by
  induction named using List.reverseRecOn with
  | nil => exact hc
  | append_singleton named e ih =>
    rw [thresholds_append]
    exact ih.put _ _

end Context

/-- The context in which a list of rules is checked. -/
def Book.injected (b : Book) (c : Context) (roots : List Node.Id) : Context :=
  c.withThresholds (b.thresholds roots)

section Injected

variable {b : Book} {roots roots' : List Node.Id} {c : Context}

/-- **The threshold of a name in the context of a list** is one that a reached leaf gives, and there is
none exactly where no reached leaf gives one. -/
theorem Book.threshold?_injected (hc : c.thresholds = []) (name : String) :
    ((b.injected c roots).threshold? name = none ↔ ∀ t, ¬b.Gives roots name (some t)) ∧
    ∀ t, (b.injected c roots).threshold? name = some t → b.Gives roots name (some t) := by
  have hnone : c.threshold? name = none := by rw [Context.threshold?, hc]; rfl
  rw [injected, Context.lookup_withThresholds, hnone, Option.or_none]
  constructor
  · rw [List.lookup_eq_none_iff]
    constructor
    · intro h t ht
      have hmem := List.mem_reverse.mpr (Book.mem_thresholds.mpr ht)
      simpa using h _ hmem
    · rintro h ⟨n, t⟩ he
      have hgives := Book.mem_thresholds.mp (List.mem_reverse.mp he)
      by_contra hn
      have hname : name = n := by simpa using hn
      subst hname
      exact h t hgives
  · intro t ht
    exact Book.mem_thresholds.mp (List.mem_reverse.mp (Table.mem_of_lookup ht))

/-- **The reached leaves of a name agree**: they all give the same threshold, or all give none. -/
def Book.Agrees (b : Book) (roots : List Node.Id) (name : String) : Prop :=
  ∀ t t', b.Gives roots name t → b.Gives roots name t' → t = t'

/-- **Each leaf of a name sees the threshold that it gives exactly where the leaves of the name
agree.** -/
theorem Book.threshold?_own_iff (hc : c.thresholds = []) (name : String) :
    (∀ t, b.Gives roots name t → (b.injected c roots).threshold? name = t) ↔
      b.Agrees roots name := by
  have hinjected : ((b.injected c roots).threshold? name = none ↔ ∀ t, ¬b.Gives roots name (some t)) ∧
      ∀ t, (b.injected c roots).threshold? name = some t → b.Gives roots name (some t) :=
    Book.threshold?_injected hc name
  obtain ⟨hnone, hsome⟩ := hinjected
  constructor
  · intro h t t' ht ht'
    rw [← h t ht, h t' ht']
  · intro hagree t ht
    cases hseen : (b.injected c roots).threshold? name with
    | none =>
      cases t with
      | none => rfl
      | some x => exact absurd ht (hnone.mp hseen x)
    | some y => exact hagree _ _ (hsome y hseen) ht

/-- Where all leaves agree, the context depends only on what the rules reach. -/
theorem Book.injected_congr (hc : c.thresholds = []) (hsub : roots ⊆ roots') (hsup : roots' ⊆ roots)
    (hagree : ∀ name, b.Agrees roots name) : b.injected c roots' = b.injected c roots := by
  have hempty : Table.Ordered c.thresholds := by
    rw [hc]
    exact List.Pairwise.nil
  have hthresholds : (b.injected c roots').thresholds = (b.injected c roots).thresholds := by
    refine (Context.ordered_withThresholds hempty _).ext (Context.ordered_withThresholds hempty _) ?_
    intro key
    by_cases hkey : ∃ name, key = Context.thresholdKey name
    · obtain ⟨name, rfl⟩ := hkey
      have hagree' : b.Agrees roots' name := fun t t' ht ht' =>
        hagree name t t' (ht.of_subset hsup) (ht'.of_subset hsup)
      show (b.injected c roots').threshold? name = (b.injected c roots).threshold? name
      -- if some leaf has the name, both see what it gives; else both see nothing
      by_cases hgives : ∃ t, b.Gives roots name t
      · obtain ⟨t, ht⟩ := hgives
        rw [(Book.threshold?_own_iff hc name).mpr hagree' t (ht.of_subset hsub),
          (Book.threshold?_own_iff hc name).mpr (hagree name) t ht]
      · have hnone : (b.injected c roots).threshold? name = none :=
          (Book.threshold?_injected hc name).1.mpr fun t ht => hgives ⟨_, ht⟩
        have hnone' : (b.injected c roots').threshold? name = none :=
          (Book.threshold?_injected hc name).1.mpr fun t ht => hgives ⟨_, ht.of_subset hsup⟩
        rw [hnone, hnone']
    · have hne : ∀ name, key ≠ Context.thresholdKey name := fun name h => hkey ⟨name, h⟩
      calc (c.withThresholds (b.thresholds roots')).thresholds.lookup key
          = c.thresholds.lookup key := Context.lookup_withThresholds_of_ne fun e _ => hne e.1
        _ = (c.withThresholds (b.thresholds roots)).thresholds.lookup key :=
          (Context.lookup_withThresholds_of_ne fun e _ => hne e.1).symm
  show { c with thresholds := (b.injected c roots').thresholds } =
    { c with thresholds := (b.injected c roots).thresholds }
  rw [hthresholds]

end Injected

/-! ### Conditions that heed their own threshold -/

/-- **The condition heeds no threshold but that of its name**, of those that are laid over the
facts. -/
def Condition.HeedsOnly (k : Condition) (name : String) : Prop :=
  ∀ (c : Context) named named',
    (c.withThresholds named).threshold? name = (c.withThresholds named').threshold? name →
    k (c.withThresholds named) = k (c.withThresholds named')

namespace Condition

/-- The key is not that of a threshold. -/
def IsFactKey (key : String) : Prop :=
  ∀ name, key ≠ Context.thresholdKey name

/-- The keys of thresholds end in the letter `d`. -/
theorem isFactKey_of_getLast? {key : String} (h : key.toList.getLast? ≠ some 'd') : IsFactKey key := by
  rintro name rfl
  refine h ?_
  rw [Context.thresholdKey, String.toList_append, List.getLast?_append]
  rfl

/-- The numbers of other keys do not depend on thresholds. -/
theorem number_withThresholds {c : Context} {key : String} (hkey : IsFactKey key)
    (named : List (String × Float)) : (c.withThresholds named).number key = c.number key := by
  unfold Context.number
  rw [Context.lookup_withThresholds_of_ne fun e _ => hkey e.1]
  rfl

theorem firstNumber_withThresholds {c : Context} {keys : List String}
    (hkeys : ∀ key ∈ keys, IsFactKey key) (named : List (String × Float)) :
    (c.withThresholds named).firstNumber keys = c.firstNumber keys := by
  unfold Context.firstNumber
  induction keys with
  | nil => rfl
  | cons key rest ih =>
    rw [List.findSome?_cons, List.findSome?_cons,
      number_withThresholds (hkeys key List.mem_cons_self),
      ih fun k hk => hkeys k (List.mem_cons_of_mem _ hk)]

/-- Keys that are written out end in another letter. -/
theorem isFactKeys {keys : List String}
    (h : (keys.all fun key => key.toList.getLast? ≠ some 'd') = true) :
    ∀ key ∈ keys, IsFactKey key :=
  fun key hkey => isFactKey_of_getLast? (by simpa using List.all_eq_true.mp h key hkey)

theorem heedsOnly_onField (name : String) (fields : List String) (default : Float)
    (compare : Float → Float → Bool)
    (hfields : (fields.all fun key => key.toList.getLast? ≠ some 'd') = true) :
    (onField name fields default compare).HeedsOnly name := by
  intro c named named' ht
  simp only [onField, Context.thresholdOr, ht, firstNumber_withThresholds (isFactKeys hfields)]

theorem heedsOnly_atrBelow (name : String) : (atrBelow name).HeedsOnly name := by
  intro c named named' ht
  have hpct : IsFactKey "atr_pct" := isFactKey_of_getLast? (by decide)
  have hclose : IsFactKey "close" := isFactKey_of_getLast? (by decide)
  have hatr : IsFactKey "atr" := isFactKey_of_getLast? (by decide)
  simp only [atrBelow, Context.thresholdOr, ht, number_withThresholds hpct,
    number_withThresholds hclose, number_withThresholds hatr]
  rfl

theorem heedsOnly_averagesAligned (name : String) (above : Bool) :
    (averagesAligned name above).HeedsOnly name := by
  intro c named named' ht
  have hfast : ∀ key ∈ ["ema_fast", "ema.20"], IsFactKey key := isFactKeys (by decide)
  have hslow : ∀ key ∈ ["ema_slow", "ema.50"], IsFactKey key := isFactKeys (by decide)
  simp only [averagesAligned, Context.thresholdOr, ht, firstNumber_withThresholds hfast,
    firstNumber_withThresholds hslow]
  rfl

/-- A numeral ends in a digit. -/
theorem isFactKey_numeral (stem : String) (n : Int) : IsFactKey (stem ++ toString n) := by
  refine isFactKey_of_getLast? ?_
  have hdigits (m : Nat) : ∃ d, (Nat.repr m).toList.getLast? = some d ∧ d.isDigit := by
    rw [Nat.toList_repr]
    have hne := Nat.toDigits_ne_nil (n := m) (b := 10)
    exact ⟨_, List.getLast?_eq_some_getLast hne,
      Nat.isDigit_of_mem_toDigits (b := 10) (by decide) (by decide) (List.getLast_mem hne)⟩
  have hn : ∃ d, (toString n).toList.getLast? = some d ∧ d.isDigit := by
    rw [Int.toString_eq_repr, Int.repr_eq_if]
    split
    · exact hdigits n.toNat
    · obtain ⟨d, hd, hdigit⟩ := hdigits (-n).toNat
      refine ⟨d, ?_, hdigit⟩
      rw [String.toList_append, List.getLast?_append, hd]
      rfl
  obtain ⟨d, hd, hdigit⟩ := hn
  rw [String.toList_append, List.getLast?_append, hd, Option.some_or, ne_eq, Option.some.injEq]
  rintro rfl
  cases hdigit

theorem heedsOnly_priceBesideAverage (name : String) (above : Bool) :
    (priceBesideAverage name above).HeedsOnly name := by
  intro c named named' ht
  have hclose : IsFactKey "close" := isFactKey_of_getLast? (by decide)
  have haverage (shown : Int) : ∀ key ∈ ["ema." ++ toString shown, "ema_" ++ toString shown],
      IsFactKey key := by
    intro key hkey
    rcases List.mem_pair.mp hkey with rfl | rfl
    · exact isFactKey_numeral _ _
    · exact isFactKey_numeral _ _
  simp only [priceBesideAverage, Context.thresholdOr, ht, number_withThresholds hclose,
    firstNumber_withThresholds (haverage _)]

theorem heedsOnly_priceBesideVwap (name : String) (above : Bool) :
    (priceBesideVwap above).HeedsOnly name := by
  intro c named named' _
  have hclose : IsFactKey "close" := isFactKey_of_getLast? (by decide)
  have hvwap : IsFactKey "vwap" := isFactKey_of_getLast? (by decide)
  simp only [priceBesideVwap, number_withThresholds hclose, number_withThresholds hvwap]

/-- **The conditions that are known from the start heed their own thresholds only.** -/
theorem heedsOnly_builtins : ∀ e ∈ builtins, e.2.HeedsOnly e.1 :=
  forall_builtins (P := fun name k => k.HeedsOnly name) heedsOnly_onField heedsOnly_atrBelow
    heedsOnly_averagesAligned heedsOnly_priceBesideAverage heedsOnly_priceBesideVwap

end Condition

/-! ### What a leaf is checked with -/

section Checked

variable {b : Book} {id : Node.Id} {name : String} {place : Nat} {threshold : Option Float}

/-- The context with the threshold that a leaf gives, if it gives one, and with no other. -/
def Context.withOwn (c : Context) (name : String) (threshold : Option Float) : Context :=
  c.withThresholds (threshold.toList.map fun t => (name, t))

theorem Context.threshold?_withOwn {c : Context} (hc : c.thresholds = []) :
    (c.withOwn name threshold).threshold? name = threshold := by
  cases threshold with
  | none =>
    show c.thresholds.lookup (thresholdKey name) = none
    rw [hc]
    rfl
  | some t =>
    show (Table.put (thresholdKey name) t c.thresholds).lookup (thresholdKey name) = some t
    rw [Table.lookup_put, if_pos rfl]

/-- A leaf of a coherent book is checked by the condition of its name. -/
theorem Book.Coherent.evaluate_leaf (hb : b.Coherent)
    (hnode : b.nodes[id]? = some (.leaf name place threshold)) :
    ∃ k, b.registry.find? name = some k ∧ ∀ c, b.evaluate c id = k c := by
  have hplace := hb.leaves id name place threshold hnode
  obtain ⟨k, hk⟩ := exists_find? hplace
  exact ⟨k, hk, fun c => TopDown.evaluate_leaf (shapeAt_eq_leaf.mpr hnode) hplace hk⟩

/-- The members of a group of a coherent book are checked in the context of the group. -/
theorem Book.Coherent.evaluate_group (hb : b.Coherent) {q : Quantifier} {label : String}
    {ids : List Node.Id} (hnode : b.nodes[id]? = some (.group q label ids)) (c : Context) :
    b.evaluate c id = q.combine (ids.map fun m => ⟨b.label m, b.evaluate c m⟩) := by
  rw [Book.evaluate, hnode]
  refine congrArg q.combine (List.map_congr_left fun m hm => ?_)
  rw [dif_pos (hb.members id q label ids hnode m hm)]

/-- **What a list of rules is checked with.** The list is checked in one context, in which every leaf
that it reaches is checked by the condition of its name, and every group by its members. In this
context a name has a threshold exactly where a reached leaf gives one, and then one that is given. All
leaves of a name see what they give exactly where they agree. Where they agree, and their condition
heeds no other threshold, each of them has the verdict that it has with its own threshold alone. Where
the leaves of every name agree, a list of the same rules in another order has the same verdicts. -/
theorem Book.evaluateList_thresholds {base : Registry} {config : Json}
    (h : compile base config = .ok b) (roots : List Node.Id) {c : Context}
    (hc : c.thresholds = []) :
    b.evaluateList c roots =
        roots.map (fun id => ⟨b.label id, b.evaluate (b.injected c roots) id⟩) ∧
      (∀ id name place threshold, b.nodes[id]? = some (.leaf name place threshold) →
        ∃ k, b.registry.find? name = some k ∧ ∀ c, b.evaluate c id = k c) ∧
      (∀ id q label ids, b.nodes[id]? = some (.group q label ids) → ∀ c,
        b.evaluate c id = q.combine (ids.map fun m => ⟨b.label m, b.evaluate c m⟩)) ∧
      (∀ name, ((b.injected c roots).threshold? name = none ↔ ∀ t, ¬b.Gives roots name (some t)) ∧
        ∀ t, (b.injected c roots).threshold? name = some t → b.Gives roots name (some t)) ∧
      (∀ name, (∀ threshold, b.Gives roots name threshold →
        (b.injected c roots).threshold? name = threshold) ↔ b.Agrees roots name) ∧
      (∀ id name place threshold k, b.Reaches roots id →
        b.nodes[id]? = some (.leaf name place threshold) → b.registry.find? name = some k →
        k.HeedsOnly name → b.Agrees roots name →
        b.evaluate (b.injected c roots) id = k (c.withOwn name threshold)) ∧
      (∀ roots', roots'.Perm roots → (∀ name, b.Agrees roots name) →
        b.evaluateList c roots' =
          roots'.map (fun id => ⟨b.label id, b.evaluate (b.injected c roots) id⟩)) := by
  have hb : b.Coherent := Book.compile_coherent h
  refine ⟨rfl, fun id name place threshold hnode => hb.evaluate_leaf hnode,
    fun id q label ids hnode c => hb.evaluate_group hnode c,
    fun name => Book.threshold?_injected hc name, fun name => Book.threshold?_own_iff hc name, ?_, ?_⟩
  · intro id name place threshold k hreached hnode hk hheeds hagree
    obtain ⟨k', hk', heval⟩ := hb.evaluate_leaf hnode
    have hsame : k' = k := Option.some.inj (hk'.symm.trans hk)
    subst hsame
    rw [heval]
    have hown : (b.injected c roots).threshold? name = threshold :=
      (Book.threshold?_own_iff hc name).mpr hagree threshold ⟨id, place, hreached, hnode⟩
    refine hheeds c _ _ ?_
    exact hown.trans (Context.threshold?_withOwn hc).symm
  · intro roots' hperm hagree
    have hcongr : b.injected c roots' = b.injected c roots :=
      Book.injected_congr hc hperm.symm.subset hperm.subset hagree
    show b.evaluateAll (b.injected c roots') roots' = b.evaluateAll (b.injected c roots) roots'
    rw [hcongr]

end Checked

/-- A list of two rules on different conditions, the first with a threshold. -/
def oneStandardEach : Table Json :=
  [("validation", .obj [("timeframe", .obj [("1h", .obj [("long", .arr [
      .obj [("rsi_bullish", .int 40)], .str "adx_trending"])])])])]

/-- An index above one threshold and below another, and a trend of some strength. -/
def betweenStandards : Context :=
  .ofFacts "BTCUSDT" .h1 [("adx", .number 20.0), ("rsi", .number 55.0)]

/-- Its rules agree, and have the same verdicts in either order. -/
theorem Book.evaluateList_oneStandardEach : ∃ b, betweenStandards.thresholds = [] ∧
    Book.compile .builtin (.obj oneStandardEach) = .ok b ∧
    (b.blocks .h1).map Block.long = some [0, 1] ∧
    (∀ threshold, b.Gives [0, 1] "rsi_bullish" threshold →
      (b.injected betweenStandards [0, 1]).threshold? "rsi_bullish" = threshold) ∧
    b.evaluateList betweenStandards [1, 0] = [1, 0].map (fun id =>
      ⟨b.label id, b.evaluate (b.injected betweenStandards [0, 1]) id⟩) := by
  have hrun : ((Book.compile .builtin (.obj oneStandardEach)).toOption.map fun b =>
      ((b.blocks .h1).map Block.long, b.nodes.toList.map Node.members,
        b.label 0, b.label 1)) =
      some (some [0, 1], [[], []], "rsi_bullish", "adx_trending") := by decide +kernel
  obtain ⟨b, hb, hrun⟩ := Option.map_eq_some_iff.mp hrun
  simp only [Prod.mk.injEq] at hrun
  obtain ⟨hlist, hmembers, hfirst, hsecond⟩ := hrun
  have hcompile := toOption_eq_some.mp hb
  -- no node has members, so the rules reach themselves only
  have hreaches {id : Node.Id} (h : b.Reaches [0, 1] id) : id = 0 ∨ id = 1 := by
    cases h with
    | root h => exact List.mem_pair.mp h
    | @member parent _ node _ hnode hm =>
      have hmem : node.members ∈ b.nodes.toList.map Node.members :=
        List.mem_map_of_mem (Array.mem_toList_iff.mpr (Array.mem_of_getElem? hnode))
      rw [hmembers] at hmem
      have hempty : node.members = [] := by simpa using hmem
      rw [hempty] at hm
      cases hm
  have hlabel {id : Node.Id} {name : String} {place : Nat} {threshold : Option Float}
      (h : b.nodes[id]? = some (.leaf name place threshold)) : b.label id = name := by
    rw [Book.label, h]
    rfl
  have hagree : ∀ name, b.Agrees [0, 1] name := by
    rintro name t t' ⟨id, place, hid, hnode⟩ ⟨id', place', hid', hnode'⟩
    have hsame : b.label id = b.label id' := (hlabel hnode).trans (hlabel hnode').symm
    have heq : id = id' := by
      rcases hreaches hid with rfl | rfl <;> rcases hreaches hid' with rfl | rfl
      · rfl
      · rw [hfirst, hsecond] at hsame
        exact absurd hsame (by decide)
      · rw [hfirst, hsecond] at hsame
        exact absurd hsame (by decide)
      · rfl
    subst heq
    rw [hnode] at hnode'
    cases hnode'
    rfl
  obtain ⟨-, -, -, -, hown, -, hperm⟩ :=
    Book.evaluateList_thresholds hcompile [0, 1] (c := betweenStandards) rfl
  exact ⟨b, rfl, hcompile, hlist, (hown "rsi_bullish").mpr (hagree _),
    hperm [1, 0] (List.Perm.swap _ _ _) hagree⟩

/-! ### Two standards in one list -/

/-- The traversal of `TopDown.Book.thresholdsFrom`, for as many steps as it is given. -/
def Book.thresholdsWithin (nodes : Array Node) :
    Nat → List Node.Id → List Node.Id → Option (List (String × Float))
  | _, _, [] => some []
  | 0, _, _ :: _ => none
  | n + 1, unseen, id :: stack =>
    if id ∈ unseen then
      (thresholdsWithin nodes n (unseen.erase id)
        (((nodes[id]?).elim [] Node.members).reverse ++ stack)).map
        (((nodes[id]?).bind Node.threshold?).toList ++ ·)
    else thresholdsWithin nodes n unseen stack

theorem Book.thresholdsFrom_of_within {nodes : Array Node} {n : Nat} {unseen stack : List Node.Id}
    {named : List (String × Float)} (h : thresholdsWithin nodes n unseen stack = some named) :
    thresholdsFrom nodes unseen stack = named := by
  induction n generalizing unseen stack named with
  | zero =>
    cases stack with
    | nil =>
      cases h
      rw [thresholdsFrom]
    | cons id stack => cases h
  | succ n ih =>
    cases stack with
    | nil =>
      cases h
      rw [thresholdsFrom]
    | cons id stack =>
      rw [thresholdsWithin] at h
      split at h
      · rename_i hid
        obtain ⟨rest, hrest, rfl⟩ := Option.map_eq_some_iff.mp h
        rw [thresholdsFrom_visit hid, ih hrest]
      · rename_i hid
        rw [thresholdsFrom_skip hid, ih h]

/-- The verdicts of a list, gathering its thresholds within some steps. -/
def Book.evaluateListWithin (b : Book) (n : Nat) (c : Context) (roots : List Node.Id) :
    Option (List Labelled) :=
  (thresholdsWithin b.nodes n (List.range b.nodes.size) roots.reverse).map fun named =>
    b.evaluateAll (c.withThresholds named) roots

theorem Book.evaluateList_of_within {b : Book} {n : Nat} {c : Context} {roots : List Node.Id}
    {ls : List Labelled} (h : b.evaluateListWithin n c roots = some ls) :
    b.evaluateList c roots = ls := by
  obtain ⟨named, hnamed, rfl⟩ := Option.map_eq_some_iff.mp h
  rw [evaluateList, thresholds, thresholdsFrom_of_within hnamed]

/-- In each list the same condition is asked for twice: with two thresholds, and with and without
one. -/
def twoStandards : Table Json :=
  [("validation", .obj [("timeframe", .obj [("1h", .obj [
    ("long", .arr [.obj [("rsi_bullish", .int 60)], .obj [("rsi_bullish", .int 40)]]),
    ("short", .arr [.obj [("rsi_bullish", .int 60)], .str "rsi_bullish"])])])])]

/-- **One threshold counts for both rules of a list.** The second rule for buying passes with the
threshold that it gives, and the second rule for selling with the default of the condition. In their
lists both are checked with the threshold of the first rule, and fail. In the other order both rules
for buying pass. -/
theorem Book.evaluateList_twoStandards : ∃ b,
    Book.compile .builtin (.obj twoStandards) = .ok b ∧
    (b.blocks .h1).map Block.long = some [0, 1] ∧ (b.blocks .h1).map Block.short = some [2, 3] ∧
    (b.evaluate (betweenStandards.withOwn "rsi_bullish" (some 40.0)) 1).passed = true ∧
    (b.evaluate (betweenStandards.withOwn "rsi_bullish" none) 3).passed = true ∧
    (b.evaluateList betweenStandards [0, 1]).map (·.verdict.passed) = [false, false] ∧
    (b.evaluateList betweenStandards [1, 0]).map (·.verdict.passed) = [true, true] ∧
    (b.evaluateList betweenStandards [2, 3]).map (·.verdict.passed) = [false, false] := by
  have hrun : ((Book.compile .builtin (.obj twoStandards)).toOption.map fun b =>
      ([(b.blocks .h1).map Block.long, (b.blocks .h1).map Block.short],
        [(b.evaluate (betweenStandards.withOwn "rsi_bullish" (some 40.0)) 1).passed,
          (b.evaluate (betweenStandards.withOwn "rsi_bullish" none) 3).passed],
        [b.evaluateListWithin 9 betweenStandards [0, 1],
          b.evaluateListWithin 9 betweenStandards [1, 0],
          b.evaluateListWithin 9 betweenStandards [2, 3]].map (·.map (·.map (·.verdict.passed))))) =
      some ([some [0, 1], some [2, 3]], [true, true],
        [some [false, false], some [true, true], some [false, false]]) := by decide +kernel
  obtain ⟨b, hb, hrun⟩ := Option.map_eq_some_iff.mp hrun
  simp only [List.map_cons, List.map_nil, Prod.mk.injEq, List.cons.injEq, and_true] at hrun
  obtain ⟨⟨hlong, hshort⟩, ⟨hown, hdefault⟩, hforth, hback, hplain⟩ := hrun
  have hlist {roots : List Node.Id} {passed : List Bool}
      (h : (b.evaluateListWithin 9 betweenStandards roots).map (·.map (·.verdict.passed)) =
        some passed) : (b.evaluateList betweenStandards roots).map (·.verdict.passed) = passed := by
    obtain ⟨ls, hls, rfl⟩ := Option.map_eq_some_iff.mp h
    rw [evaluateList_of_within hls]
  exact ⟨b, toOption_eq_some.mp hb, hlong, hshort, hown, hdefault, hlist hforth, hlist hback,
    hlist hplain⟩

end TopDown
