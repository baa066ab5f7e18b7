import TopDown.Proofs.Arena
import Mathlib.Algebra.GroupWithZero.Nat

/-!
# Each threshold is gathered once

Rules share their parts, and a list may name a rule twice. The thresholds of a list are gathered by a
loop that keeps a stack of nodes. Members go on the stack whether or not they were seen before, and a
node that was seen is passed over when its turn comes.

Here is the loop turn by turn (`TopDown.Gathering.turn`). A turn takes one node from the stack, and if
it is new its members come onto the stack instead. So we count the nodes on the stack together with the
members of all nodes that have not been seen: this number is the work that is left, and each turn takes
one from it (`TopDown.Gathering.work_turn`), which bounds the turns of any list. On rules of a compiled
book the loop reads no place that is not there, and it ends with the thresholds of the list
(`TopDown.Gathers.turns`).

What it has gathered then are the thresholds of the leaves that the rules reach, once for each leaf
(`TopDown.Book.thresholds_exact`). Two leaves with one name and one threshold are still two.
-/

namespace TopDown

/-! ### The loop -/

/-- Where the gathering of thresholds stands. -/
structure Gathering where
  /-- The nodes that have been seen. -/
  seen : List Node.Id
  /-- The nodes that are still to be looked at, the next one first. -/
  stack : List Node.Id
  /-- What has been gathered. -/
  named : List (String × Float)

namespace Gathering

/-- Nothing has been seen, and the last rule is looked at first. -/
def start (roots : List Node.Id) : Gathering :=
  ⟨[], roots.reverse, []⟩

/-- **One turn of the loop.** There is none where the stack is empty, nor where the node is not
there. -/
def turn (nodes : Array Node) : Gathering → Option Gathering
  | ⟨_, [], _⟩ => none
  | ⟨seen, id :: stack, named⟩ =>
    if id ∈ seen then some ⟨seen, stack, named⟩
    else (nodes[id]?).map fun node =>
      ⟨id :: seen, node.members.reverse ++ stack, named ++ node.threshold?.toList⟩

/-- Several turns. -/
def turns (nodes : Array Node) : Nat → Gathering → Option Gathering
  | 0, g => some g
  | n + 1, g => (g.turn nodes).bind (turns nodes n)

section Turns

variable {nodes : Array Node} {seen stack : List Node.Id} {id : Node.Id}
  {named : List (String × Float)} {g g' : Gathering} {n : Nat}

theorem turn_skip (hid : id ∈ seen) :
    turn nodes ⟨seen, id :: stack, named⟩ = some ⟨seen, stack, named⟩ :=
  if_pos hid

theorem turn_visit (hid : id ∉ seen) {node : Node} (hnode : nodes[id]? = some node) :
    turn nodes ⟨seen, id :: stack, named⟩ =
      some ⟨id :: seen, node.members.reverse ++ stack, named ++ node.threshold?.toList⟩ := by
  rw [turn, if_neg hid, hnode, Option.map_some]

/-- **What a turn can do**: the node on top of the stack was seen and is passed over, or it is new and
is read. -/
theorem turn_cases (h : g.turn nodes = some g') :
    ∃ id stack, g.stack = id :: stack ∧
      (id ∈ g.seen ∧ g' = ⟨g.seen, stack, g.named⟩ ∨
        id ∉ g.seen ∧ ∃ node, nodes[id]? = some node ∧
          g' = ⟨id :: g.seen, node.members.reverse ++ stack, g.named ++ node.threshold?.toList⟩) := by
  obtain ⟨seen, stack, named⟩ := g
  cases stack with
  | nil => cases h
  | cons id stack =>
    refine ⟨id, stack, rfl, ?_⟩
    rw [turn] at h
    split at h
    · rename_i hid
      exact .inl ⟨hid, (Option.some.inj h).symm⟩
    · rename_i hid
      obtain ⟨node, hnode, rfl⟩ := Option.map_eq_some_iff.mp h
      exact .inr ⟨hid, node, hnode, rfl⟩

/-! ### The work that is left -/

/-- The number of members of a node, if it is there. -/
def fanOut (nodes : Array Node) (id : Node.Id) : Nat :=
  ((nodes[id]?).elim [] Node.members).length

/-- The nodes that have not been seen. -/
def unseen (nodes : Array Node) (seen : List Node.Id) : List Node.Id :=
  (List.range nodes.size).filter (· ∉ seen)

/-- **The work that is left**: the nodes on the stack, and the members of all nodes that have not been
seen and may still bring them there. -/
def work (nodes : Array Node) (g : Gathering) : Nat :=
  g.stack.length + ((unseen nodes g.seen).map (fanOut nodes)).sum

theorem unseen_cons : unseen nodes (id :: seen) = (unseen nodes seen).erase id := by
  rw [unseen, unseen, (List.nodup_range.filter _).erase_eq_filter, List.filter_filter]
  refine List.filter_congr fun m _ => ?_
  rw [Bool.eq_iff_iff]
  simp [not_or]

/-- **Each turn takes one from the work.** A node that is passed over leaves the stack. For a node that
is read, its members count on the stack from now on, and no longer behind it. -/
theorem work_turn (h : g.turn nodes = some g') : g.work nodes = g'.work nodes + 1 := by
  obtain ⟨seen, stack, named⟩ := g
  obtain ⟨id, rest, rfl, ⟨hid, rfl⟩ | ⟨hid, node, hnode, rfl⟩⟩ := turn_cases h
  · exact Nat.add_right_comm _ _ _
  · have hmem : id ∈ unseen nodes seen :=
      List.mem_filter.mpr ⟨List.mem_range.mpr (Array.getElem?_eq_some_iff.mp hnode).1,
        decide_eq_true hid⟩
    have hfan : fanOut nodes id = node.members.length := by rw [fanOut, hnode, Option.elim_some]
    have hsum := List.sum_map_erase (fanOut nodes) hmem
    rw [hfan, ← unseen_cons] at hsum
    show rest.length + 1 + ((unseen nodes seen).map (fanOut nodes)).sum =
      (node.members.reverse ++ rest).length + ((unseen nodes (id :: seen)).map (fanOut nodes)).sum + 1
    rw [← hsum, List.length_append, List.length_reverse]
    omega

theorem work_turns (h : turns nodes n g = some g') : g.work nodes = g'.work nodes + n := by
  induction n generalizing g with
  | zero =>
    cases h
    rfl
  | succ n ih =>
    obtain ⟨next, hnext, hrest⟩ := Option.bind_eq_some_iff.mp h
    rw [work_turn hnext, ih hrest, Nat.add_assoc]

/-- At the start there are the rules, and the members of all nodes. -/
theorem work_start (roots : List Node.Id) : (start roots).work nodes =
    roots.length + (nodes.toList.map fun node => node.members.length).sum := by
  have hall : unseen nodes [] = List.range nodes.size :=
    List.filter_eq_self.mpr fun _ _ => decide_eq_true List.not_mem_nil
  have hfan : (List.range nodes.size).map (fanOut nodes) =
      nodes.toList.map fun node => node.members.length := by
    refine List.ext_getElem (by simp) fun i hi _ => ?_
    have hsize : i < nodes.size := by simpa using hi
    simp [fanOut, Array.getElem?_eq_getElem hsize]
  show roots.reverse.length + ((unseen nodes []).map (fanOut nodes)).sum = _
  rw [hall, hfan, List.length_reverse]

end Turns

end Gathering

/-- **What is gathered in the open the loop gathers**, in some number of turns, behind what it had
before. -/
theorem Gathers.turns {nodes : Array Node} {seen stack : List Node.Id}
    {named : List (String × Float)} (h : Gathers nodes seen stack named)
    (before : List (String × Float)) :
    ∃ n seen', Gathering.turns nodes n ⟨seen, stack, before⟩ = some ⟨seen', [], before ++ named⟩ := by
  induction h generalizing before with
  | @done seen => exact ⟨0, seen, by rw [List.append_nil]; rfl⟩
  | skip hid _ ih =>
    obtain ⟨n, seen', hn⟩ := ih before
    exact ⟨n + 1, seen', by rw [Gathering.turns, Gathering.turn_skip hid, Option.bind_some, hn]⟩
  | visit hid hnode _ ih =>
    obtain ⟨n, seen', hn⟩ := ih (before ++ _)
    rw [List.append_assoc] at hn
    exact ⟨n + 1, seen', by rw [Gathering.turns, Gathering.turn_visit hid hnode, Option.bind_some, hn]⟩

/-! ### The leaves -/

section Leaves

variable {b : Book} {roots roots' : List Node.Id}

/-- The results of a partial function stand beside the arguments that have one. -/
theorem forall₂_filterMap {α β : Type} (f : α → Option β) (l : List α) :
    List.Forall₂ (fun a e => f a = some e) (l.filter fun a => (f a).isSome) (l.filterMap f) := by
  induction l with
  | nil => exact .nil
  | cons a l ih =>
    cases hf : f a with
    | none =>
      rw [List.filterMap_cons_none hf, List.filter_cons_of_neg (by simp [hf])]
      exact ih
    | some e =>
      rw [List.filterMap_cons_some hf, List.filter_cons_of_pos (by simp [hf])]
      exact .cons hf ih

/-- **There is one threshold for each leaf** that the rules reach and that gives one. -/
theorem Book.exists_leaves (b : Book) (roots : List Node.Id) :
    ∃ leaves : List Node.Id, leaves.Nodup ∧
      (∀ id, id ∈ leaves ↔ b.Reaches roots id ∧
        ∃ name place t, b.nodes[id]? = some (.leaf name place (some t))) ∧
      List.Forall₂ (fun id e => ∃ place, b.nodes[id]? = some (.leaf e.1 place (some e.2)))
        leaves (b.thresholds roots) := by
  have hgives {id : Node.Id} {e : String × Float} : (b.nodes[id]?).bind Node.threshold? = some e ↔
      ∃ place, b.nodes[id]? = some (.leaf e.1 place (some e.2)) := by
    constructor
    · intro h
      obtain ⟨node, hnode, hthreshold⟩ := Option.bind_eq_some_iff.mp h
      obtain ⟨place, rfl⟩ := Node.threshold?_eq_some.mp hthreshold
      exact ⟨place, hnode⟩
    · rintro ⟨place, hnode⟩
      rw [hnode]
      rfl
  obtain ⟨visited, hvisited, hmem, hgathered⟩ := b.exists_visited roots
  refine ⟨_, hvisited.filter fun id => ((b.nodes[id]?).bind Node.threshold?).isSome, fun id => ?_, ?_⟩
  · rw [List.mem_filter, hmem, Option.isSome_iff_exists]
    constructor
    · rintro ⟨⟨hreached, -⟩, ⟨name, t⟩, h⟩
      obtain ⟨place, hnode⟩ := hgives.mp h
      exact ⟨hreached, name, place, t, hnode⟩
    · rintro ⟨hreached, name, place, t, hnode⟩
      exact ⟨⟨hreached, (Array.getElem?_eq_some_iff.mp hnode).1⟩, (name, t),
        hgives.mpr ⟨place, hnode⟩⟩
  · rw [hgathered]
    exact (forall₂_filterMap (fun id => (b.nodes[id]?).bind Node.threshold?) visited).imp
      fun _ _ => hgives.mp

/-- Rules that are named again, or in another order, do not change what is gathered. -/
theorem Book.thresholds_perm (hsub : roots ⊆ roots') (hsub' : roots' ⊆ roots) :
    (b.thresholds roots').Perm (b.thresholds roots) := by
  obtain ⟨visited, hvisited, hmem, hgathered⟩ := b.exists_visited roots
  obtain ⟨visited', hvisited', hmem', hgathered'⟩ := b.exists_visited roots'
  have hperm : visited'.Perm visited := by
    refine (List.perm_ext_iff_of_nodup hvisited' hvisited).mpr fun id => ?_
    rw [hmem, hmem']
    exact and_congr_left fun _ => ⟨(·.of_subset hsub'), (·.of_subset hsub)⟩
  rw [hgathered, hgathered']
  exact hperm.filterMap _

/-- **Each reached threshold is gathered once.** What a list of rules gathers is one pair for each leaf
that the rules reach and that gives a threshold, namely its name and its threshold, and nothing else.
It stays the same, up to order, if rules are named again or in another order. The loop makes no more
turns than there are rules in the list and members in the book, and on rules of the book it comes to
the end of its stack, with the thresholds of the list. -/
theorem Book.thresholds_exact {base : Registry} {config : Json} (h : compile base config = .ok b)
    (roots : List Node.Id) :
    (∃ leaves : List Node.Id, leaves.Nodup ∧
        (∀ id, id ∈ leaves ↔ b.Reaches roots id ∧
          ∃ name place t, b.nodes[id]? = some (.leaf name place (some t))) ∧
        List.Forall₂ (fun id e => ∃ place, b.nodes[id]? = some (.leaf e.1 place (some e.2)))
          leaves (b.thresholds roots)) ∧
      (∀ roots', roots ⊆ roots' → roots' ⊆ roots →
        (b.thresholds roots').Perm (b.thresholds roots)) ∧
      (∀ n g, Gathering.turns b.nodes n (.start roots) = some g →
        n ≤ roots.length + (b.nodes.toList.map fun node => node.members.length).sum) ∧
      ((∀ id ∈ roots, id < b.nodes.size) → ∃ n seen,
        Gathering.turns b.nodes n (.start roots) = some ⟨seen, [], b.thresholds roots⟩) := by
  refine ⟨b.exists_leaves roots, fun roots' => thresholds_perm, fun n g hn => ?_, fun hroots => ?_⟩
  · rw [← Gathering.work_start, Gathering.work_turns hn]
    exact Nat.le_add_left _ _
  · have hgathers := ((compile_coherent h).gathers_iff hroots).mpr rfl
    exact hgathers.turns []

end Leaves

/-- A group of two rules on the same condition with the same threshold, one of them by way of a named
group. The named group is also a rule of its own. -/
def sharedStandard : Table Json :=
  [("rules", .obj [("strong", .obj [("any_of", .arr [
      .obj [("rsi_bullish", .int 40)], .str "adx_trending"])])]),
    ("validation", .obj [("timeframe", .obj [("1h", .obj [("long", .arr [
      .obj [("all_of", .arr [.str "strong", .obj [("rsi_bullish", .int 40)]])], .str "strong"])])])])]

/-- The list of the timeframe has the named group twice, and here its first rule is named again. Two
leaves give a threshold, and two thresholds are gathered. -/
theorem Book.thresholds_sharedStandard : ∃ b, Book.compile .builtin (.obj sharedStandard) = .ok b ∧
    (b.blocks .h1).map Block.long = some [4, 2] ∧
    (b.thresholds [4, 2, 4]).map (·.1) = ["rsi_bullish", "rsi_bullish"] ∧
    (b.thresholds [4, 2, 4]).Perm (b.thresholds [4, 2]) ∧
    (∃ leaves : List Node.Id, leaves.Nodup ∧ leaves.length = 2 ∧
      ∀ id, id ∈ leaves ↔ b.Reaches [4, 2, 4] id ∧
        ∃ name place t, b.nodes[id]? = some (.leaf name place (some t))) ∧
    ∃ n seen, n ≤ 7 ∧
      Gathering.turns b.nodes n (.start [4, 2, 4]) = some ⟨seen, [], b.thresholds [4, 2, 4]⟩ := by
  have hrun : ((Book.compile .builtin (.obj sharedStandard)).toOption.map fun b =>
      ((b.blocks .h1).map Block.long, b.nodes.size,
        (b.nodes.toList.map fun node => node.members.length).sum,
        (Book.thresholdsWithin b.nodes 9 (List.range b.nodes.size) [4, 2, 4].reverse).map
          (·.map (·.1)))) =
      some (some [4, 2], 5, 4, some ["rsi_bullish", "rsi_bullish"]) := by decide +kernel
  obtain ⟨b, hb, hrun⟩ := Option.map_eq_some_iff.mp hrun
  simp only [Prod.mk.injEq] at hrun
  obtain ⟨hlong, hsize, hmembers, hnames⟩ := hrun
  have hcompile := toOption_eq_some.mp hb
  obtain ⟨named, hwithin, hnames⟩ := Option.map_eq_some_iff.mp hnames
  have hnamed : b.thresholds [4, 2, 4] = named := Book.thresholdsFrom_of_within hwithin
  have hroots : ∀ id ∈ [4, 2, 4], id < b.nodes.size := by
    rw [hsize]
    decide
  obtain ⟨⟨leaves, hnodup, hmem, hpairs⟩, hperm, hbound, hends⟩ :=
    Book.thresholds_exact hcompile [4, 2, 4]
  obtain ⟨n, seen, hturns⟩ := hends hroots
  have hlength : leaves.length = 2 := by
    rw [hpairs.length_eq, hnamed, ← List.length_map (·.1), hnames]
    rfl
  refine ⟨b, hcompile, hlong, hnamed ▸ hnames, (hperm [4, 2] (by decide) (by decide)).symm,
    ⟨leaves, hnodup, hlength, hmem⟩, n, seen, ?_, hturns⟩
  have hn := hbound n _ hturns
  rwa [hmembers] at hn

end TopDown
