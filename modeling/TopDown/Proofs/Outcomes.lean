import TopDown.Proofs.Labels
import TopDown.Proofs.Neutral
import TopDown.Proofs.Overwriting
import TopDown.Proofs.Reading

/-!
# What a group tells of its members

The value of a group is there for the audit: a table with what became of each member. The table is
filled by label, and labels are shared, so that a member may take the place of an earlier one. Here is
what the table holds (`TopDown.Book.SumsUp`) and when it keeps everything: it has one entry for each
member exactly if the labels differ, it has the outcome of each member under its label exactly if
members with one label come to the same, and then the verdict of the group can be read off the table
alone.

The members of a group are hardly ever told apart by their labels where they are groups without a
name, for these all go by their quantifier (`TopDown.Book.evaluate_sumsUp`). A group of two such groups
lists one of them and may pass while all that it lists has failed (`TopDown.Book.evaluate_nameless`).
-/

namespace TopDown

/-! ### Tables of entries -/

namespace Table

variable {α : Type}

/-- **There is one entry for each name.** -/
theorem perm_names_ofEntries (entries : List (String × α)) :
    (ofEntries entries).names.Perm (entries.map Prod.fst).dedup := by
  refine (List.perm_ext_iff_of_nodup (ordered_ofEntries entries).nodup (List.nodup_dedup _)).mpr
    fun key => ?_
  rw [mem_names_ofEntries, List.mem_dedup, List.mem_map]
  constructor
  · rintro ⟨v, hv⟩
    exact ⟨_, hv, rfl⟩
  · rintro ⟨⟨_, v⟩, he, rfl⟩
    exact ⟨v, he⟩

/-- No entry is lost exactly if the names differ. -/
theorem length_ofEntries_iff {entries : List (String × α)} :
    (ofEntries entries).length = entries.length ↔ (entries.map Prod.fst).Nodup := by
  have hlength := (perm_names_ofEntries entries).length_eq
  rw [names, List.length_map] at hlength
  rw [hlength, ← List.length_map Prod.fst, ← List.dedup_eq_self]
  exact ⟨(List.dedup_sublist _).eq_of_length, congrArg _⟩

end Table

/-! ### Reading outcomes -/

theorem Verdict.outcome_eq_null {v : Verdict} : v.outcome = .null ↔ v.missing = true := by
  unfold outcome
  cases v.missing <;> simp

theorem Verdict.outcome_eq_bool {v : Verdict} {passed : Bool} :
    v.outcome = .bool passed ↔ v.missing = false ∧ v.passed = passed := by
  unfold outcome
  cases v.missing <;> simp

/-- **What the outcomes in a table come to** for a group: all of them asks for one that has passed and
none that has failed, any of them for one that has passed. -/
def Quantifier.SatisfiedBy (q : Quantifier) (outcomes : Table Json) : Prop :=
  (∃ e ∈ outcomes, e.2 = .bool true) ∧ (q = .all → ∀ e ∈ outcomes, e.2 ≠ .bool false)

namespace Quantifier

variable {q : Quantifier} {members : List Labelled}

theorem value_combine (q : Quantifier) (members : List Labelled) : (q.combine members).value =
    .obj (Table.ofEntries (members.map fun m => (m.label, m.verdict.outcome))) := by
  unfold combine
  dsimp only
  split <;> rfl

theorem satisfied_iff {vs : List Verdict} : q.satisfied vs = true ↔
    (∃ v ∈ vs, v.outcome = .bool true) ∧ (q = .all → ∀ v ∈ vs, v.outcome ≠ .bool false) := by
  have hholds (v : Verdict) : v.holds = true ↔ v.outcome = .bool true := by
    rw [Verdict.outcome_eq_bool, Verdict.holds]
    simp
  have hfails (v : Verdict) : v.fails = true ↔ v.outcome = .bool false := by
    rw [Verdict.outcome_eq_bool, Verdict.fails]
    simp
  cases q with
  | any => simp [satisfied, Verdict.anyPassed, hholds]
  | all =>
    simp only [satisfied, Verdict.allPassed, Bool.and_eq_true, List.any_eq_true, Bool.not_eq_true',
      List.any_eq_false, hfails, forall_const]
    refine and_congr_left fun hnone => exists_congr fun v => and_congr_right fun hv => ?_
    -- a decided verdict that has not failed has passed
    have hv := hnone v hv
    rw [Verdict.outcome_eq_bool] at hv ⊢
    cases hm : v.missing <;> cases hp : v.passed <;> simp_all

theorem passed_combine : (q.combine members).passed = q.satisfied (members.map (·.verdict)) := by
  unfold combine
  dsimp only
  split
  · rename_i hnone
    refine (Bool.eq_false_iff.mpr fun h => ?_).symm
    obtain ⟨⟨v, hv, hpassed⟩, -⟩ := satisfied_iff.mp h
    have hmissing := List.countP_eq_zero.mp hnone v hv
    rw [(Verdict.outcome_eq_bool.mp hpassed).1] at hmissing
    exact hmissing rfl
  · rfl

end Quantifier

/-! ### The table of a group -/

namespace Book

/-- What became of a node. -/
def outcome (b : Book) (c : Context) (id : Node.Id) : Json :=
  (b.evaluate c id).outcome

/-- The table has the outcome of each member under its label. -/
def KeepsOutcomes (b : Book) (c : Context) (members : List Node.Id) (t : Table Json) : Prop :=
  ∀ m ∈ members, t.lookup (b.label m) = some (b.outcome c m)

/-- **The table sums up the members of a group.** -/
structure SumsUp (b : Book) (c : Context) (q : Quantifier) (members : List Node.Id) (v : Verdict)
    (t : Table Json) : Prop where
  /-- It is the value of the verdict. -/
  value : v.value = .obj t
  /-- Under a label is the outcome of the last member with that label. -/
  lookup_eq : ∀ label, t.lookup label =
    (members.reverse.find? fun m => label == b.label m).map (b.outcome c)
  /-- There is one entry for each member exactly if the labels differ. -/
  length_iff : t.length = members.length ↔ (members.map b.label).Nodup
  /-- The outcomes are kept exactly if members with one label come to the same. -/
  keeps_iff : b.KeepsOutcomes c members t ↔
    ∀ m ∈ members, ∀ m' ∈ members, b.label m = b.label m' → b.outcome c m = b.outcome c m'
  /-- If they are, the table tells whether the verdict is undecided. -/
  missing_iff : b.KeepsOutcomes c members t → (v.missing = true ↔ ∀ e ∈ t, e.2 = .null)
  /-- If they are, the table tells whether it has passed. -/
  passed_iff : b.KeepsOutcomes c members t → (v.passed = true ↔ q.SatisfiedBy t)

variable {b : Book} {c : Context} {q : Quantifier} {members : List Node.Id}

/-- The entries of the table, in the order of the members. -/
def outcomes (b : Book) (c : Context) (members : List Node.Id) : List (String × Json) :=
  members.map fun m => (b.label m, b.outcome c m)

theorem lookup_outcomes (label : String) : (Table.ofEntries (b.outcomes c members)).lookup label =
    (members.reverse.find? fun m => label == b.label m).map (b.outcome c) := by
  rw [Table.lookup_ofEntries, outcomes, ← List.map_reverse]
  induction members.reverse with
  | nil => rfl
  | cons m rest ih =>
    rw [List.map_cons, List.lookup_cons, List.find?_cons, ih]
    cases label == b.label m <;> rfl

theorem keepsOutcomes_iff : b.KeepsOutcomes c members (Table.ofEntries (b.outcomes c members)) ↔
    ∀ m ∈ members, ∀ m' ∈ members, b.label m = b.label m' → b.outcome c m = b.outcome c m' := by
  constructor
  · intro h m hm m' hm' hlabel
    have hkept := h m hm
    rw [hlabel, h m' hm', Option.some.injEq] at hkept
    exact hkept.symm
  · intro h m hm
    rw [lookup_outcomes]
    cases hfind : members.reverse.find? fun m' => b.label m == b.label m' with
    | none => simpa using List.find?_eq_none.mp hfind m (List.mem_reverse.mpr hm)
    | some m' =>
      have hm' := List.mem_reverse.mp (List.mem_of_find?_eq_some hfind)
      have hlabel : b.label m = b.label m' := by simpa using List.find?_some hfind
      exact congrArg some (h m' hm' m hm hlabel.symm)

/-- The entries of the table are outcomes of members, and if the outcomes are kept, they all are. -/
theorem exists_mem_outcomes (h : b.KeepsOutcomes c members (Table.ofEntries (b.outcomes c members)))
    (P : Json → Prop) : (∃ e ∈ Table.ofEntries (b.outcomes c members), P e.2) ↔
      ∃ m ∈ members, P (b.outcome c m) := by
  constructor
  · rintro ⟨e, he, hP⟩
    obtain ⟨m, hm, rfl⟩ := List.mem_map.mp (Table.mem_of_mem_ofEntries he)
    exact ⟨m, hm, hP⟩
  · rintro ⟨m, hm, hP⟩
    exact ⟨_, Table.mem_of_lookup (h m hm), hP⟩

/-- **The verdict of a group has a table that sums up its members.** -/
theorem sumsUp_outcomes (b : Book) (c : Context) (q : Quantifier) (members : List Node.Id) :
    b.SumsUp c q members (q.combine (members.map fun m => ⟨b.label m, b.evaluate c m⟩))
      (Table.ofEntries (b.outcomes c members)) where
  value := by
    rw [Quantifier.value_combine, List.map_map]
    rfl
  lookup_eq := lookup_outcomes
  length_iff := by
    have hlength : members.length = (b.outcomes c members).length := (List.length_map _).symm
    rw [hlength, Table.length_ofEntries_iff, outcomes, List.map_map]
    rfl
  keeps_iff := keepsOutcomes_iff
  missing_iff h := by
    have hmem := exists_mem_outcomes h (· ≠ .null)
    rw [Quantifier.combine_missing_iff, Verdict.decidedCount, List.countP_eq_zero, List.map_map,
      List.forall_mem_map]
    have hall := not_congr hmem
    simp only [not_exists, not_and, not_not] at hall
    rw [hall]
    refine forall₂_congr fun m _ => ?_
    rw [outcome, Verdict.outcome_eq_null]
    simp
  passed_iff h := by
    have hfail := not_congr (exists_mem_outcomes h (· = .bool false))
    simp only [not_exists, not_and] at hfail
    rw [Quantifier.passed_combine, Quantifier.satisfied_iff, Quantifier.SatisfiedBy,
      exists_mem_outcomes h (· = .bool true), hfail]
    simp [outcome]

/-- **The value of a group sums up its members**, and two members share a label only if they come to
the same in every context, or if the label is that of a quantifier, which all groups without a name
have in common, or if a rule that is a group is called like the place of a check. -/
theorem evaluate_sumsUp {base : Registry} {root : Table Json}
    (h : compile base (.obj root) = .ok b) {id : Node.Id} {label : String}
    (hid : b.nodes[id]? = some (.group q label members)) (c : Context) :
    (∃ t, b.SumsUp c q members (b.evaluate c id) t) ∧
    ∃ rules, parseNamed (ruleBodies root) = .ok rules ∧
      ∀ m ∈ members, ∀ m' ∈ members, m ≠ m' → b.label m = b.label m' →
        (∀ c', b.evaluate c' m = b.evaluate c' m') ∨ (∃ q' : Quantifier, b.label m = q'.key) ∨
          ShowsItem (b.label m) ∧ IsGroupName rules (b.label m) := by
  have hb : b.Coherent := compile_coherent h
  obtain ⟨rules, hparsed, hlabelled⟩ := compile_labelled h
  refine ⟨⟨_, (hb.evaluate_group hid c).symm ▸ sumsUp_outcomes b c q members⟩, rules, hparsed,
    fun m hm m' hm' hne hlabel => ?_⟩
  have hnode {m : Node.Id} (hm : m ∈ members) :
      ∃ n, b.nodes[m]? = some n ∧ b.label m = n.label := by
    have hlt : m < b.nodes.size :=
      (hb.members id q label members hid m hm).trans (Array.getElem?_eq_some_iff.mp hid).1
    refine ⟨_, Array.getElem?_eq_getElem hlt, ?_⟩
    rw [Book.label, Array.getElem?_eq_getElem hlt]
  obtain ⟨n, hn, hnl⟩ := hnode hm
  obtain ⟨n', hn', hnl'⟩ := hnode hm'
  have hsame : n.label = n'.label := hnl.symm.trans (hlabel.trans hnl')
  rw [hnl]
  refine (hlabelled.clash hne hn hn' hsame).imp_left ?_
  rintro ⟨name, place, place', threshold, threshold', rfl, rfl⟩ c'
  -- leaves of one name are checked by one condition
  obtain ⟨k, hk, heval⟩ := hb.evaluate_leaf hn
  obtain ⟨k', hk', heval'⟩ := hb.evaluate_leaf hn'
  rw [hk, Option.some.injEq] at hk'
  rw [heval, heval', hk']

/-- The quantifier, the label and the members of a group. -/
def groupAt? (b : Book) (id : Node.Id) : Option (Quantifier × String × List Node.Id) :=
  (b.nodes[id]?).bind fun node => match node with
    | .group q label ids => some (q, label, ids)
    | .leaf _ _ _ => none

theorem groupAt?_eq_some {id : Node.Id} {label : String}
    (h : b.groupAt? id = some (q, label, members)) :
    b.nodes[id]? = some (.group q label members) := by
  obtain ⟨node, hnode, h⟩ := Option.bind_eq_some_iff.mp h
  cases node with
  | leaf _ _ _ => cases h
  | group _ _ _ =>
    cases h
    exact hnode

/-- The members of the outer group have labels of their own, and each has an entry. -/
theorem evaluate_sumsUp_sharedTrend : ∃ b t, compile .builtin (.obj sharedTrend) = .ok b ∧
    b.nodes[5]? = some (.group .all "all_of" [1, 2, 4]) ∧
    b.SumsUp indexAlone .all [1, 2, 4] (b.evaluate indexAlone 5) t ∧ t.length = 3 := by
  have hrun : ((compile .builtin (.obj sharedTrend)).toOption.map fun b =>
      (b.groupAt? 5, [1, 2, 4].map b.label)) =
        some (some (.all, "all_of", [1, 2, 4]), ["trend", "rsi_bullish", "any_of"]) := by
    decide +kernel
  obtain ⟨b, hb, hrun⟩ := Option.map_eq_some_iff.mp hrun
  obtain ⟨hgroup, hlabels⟩ := Prod.mk.inj hrun
  have hcompile := toOption_eq_some.mp hb
  obtain ⟨⟨t, ht⟩, -⟩ := evaluate_sumsUp hcompile (groupAt?_eq_some hgroup) indexAlone
  refine ⟨b, t, hcompile, groupAt?_eq_some hgroup, ht, ht.length_iff.mpr ?_⟩
  rw [hlabels]
  decide

/-- A group of two groups without a name. -/
def namelessConfig : Table Json :=
  [("validation", .obj [("timeframe", .obj [("1h", .obj [("long", .arr [.obj [("any_of", .arr [
    .obj [("all_of", .arr [.str "rsi_bullish"])],
    .obj [("all_of", .arr [.str "rsi_bearish"])]])]])])])])]

/-- Facts with an index alone. -/
def indexAt (x : Float) : Context :=
  .ofFacts "BTCUSDT" .h1 [("rsi", .number x)]

/-- **An outcome is lost**, and with it the reason of the verdict: the groups are two nodes with one
label, the second takes the place of the first, and from the value that is left it cannot be told
whether the outer group has passed. -/
theorem evaluate_nameless : ∃ b, compile .builtin (.obj namelessConfig) = .ok b ∧
    b.nodes[4]? = some (.group .any "any_of" [1, 3]) ∧
    b.outcome (indexAt 60.0) 1 = .bool true ∧ b.outcome (indexAt 60.0) 3 = .bool false ∧
    (b.evaluate (indexAt 60.0) 4).value = .obj [("all_of", .bool false)] ∧
    (b.evaluate (indexAt 60.0) 4).passed = true ∧
    (b.evaluate (indexAt 50.0) 4).value = .obj [("all_of", .bool false)] ∧
    (b.evaluate (indexAt 50.0) 4).passed = false := by
  have hrun : ((compile .builtin (.obj namelessConfig)).toOption.map fun b =>
      (b.groupAt? 4, [1, 3].map b.label,
        [1, 3, 4].map fun m => [(b.evaluate (indexAt 60.0) m).missing,
          (b.evaluate (indexAt 60.0) m).passed, (b.evaluate (indexAt 50.0) m).missing,
          (b.evaluate (indexAt 50.0) m).passed])) =
        some (some (.any, "any_of", [1, 3]), ["all_of", "all_of"],
          [[false, true, false, false], [false, false, false, false],
            [false, true, false, false]]) := by
    decide +kernel
  obtain ⟨b, hb, hrun⟩ := Option.map_eq_some_iff.mp hrun
  simp only [List.map_cons, List.map_nil, Prod.mk.injEq, List.cons.injEq, and_true] at hrun
  obtain ⟨hgroup, ⟨hlabel, hlabel'⟩, ⟨hm, hp, hn, hq⟩, ⟨hm', hp', hn', hq'⟩, -, hpassed, -,
    hfailed⟩ := hrun
  have hcompile := toOption_eq_some.mp hb
  have houtcome {c : Context} {id : Node.Id} {passed : Bool}
      (hm : (b.evaluate c id).missing = false) (hp : (b.evaluate c id).passed = passed) :
      b.outcome c id = .bool passed := Verdict.outcome_eq_bool.mpr ⟨hm, hp⟩
  have hvalue (c : Context) : (b.evaluate c 4).value =
      .obj (Table.ofEntries [("all_of", b.outcome c 1), ("all_of", b.outcome c 3)]) := by
    rw [(compile_coherent hcompile).evaluate_group (groupAt?_eq_some hgroup) c,
      (sumsUp_outcomes b c .any [1, 3]).value, outcomes, List.map_cons, List.map_cons, List.map_nil,
      hlabel, hlabel']
  refine ⟨b, hcompile, groupAt?_eq_some hgroup, houtcome hm hp, houtcome hm' hp', ?_, hpassed, ?_,
    hfailed⟩
  · rw [hvalue, houtcome hm hp, houtcome hm' hp']
    rfl
  · rw [hvalue, houtcome hn hq, houtcome hn' hq']
    rfl

end Book

end TopDown
