import TopDown.Proofs.Bind
import TopDown.Review.Check

/-!
# What is read from a value

The reader of rules and the review walk down the values of a configuration on their own. They agree
on what they see: from a value that can be read comes a leaf or a group, and the review remarks on
it as a leaf or on its members (`TopDown.Review.expression_of_parse`). The members of a group are
read from its items, one from each (`TopDown.Review.parseMembers_getElem?`). With these two facts a
statement about rules and the remarks on them is proved by going down the rule, and not once more
along both walks.
-/

namespace TopDown

/-! ### Leaves -/

/-- **The value refers to the name**: it is a text, or an object whose only key is the name. -/
def Json.RefersTo (name : String) : Json → Prop
  | .str s => s = name
  | .obj [(key, _)] => key = name
  | _ => False

namespace Rule

theorem quantifierOf?_key (q : Quantifier) : quantifierOf? q.key = some q := by
  cases q <;> decide

theorem quantifierOf?_eq_some {key : String} {k : Quantifier} (h : quantifierOf? key = some k) :
    key = k.key := by
  unfold quantifierOf? at h
  split at h
  · cases h
    assumption
  · split at h
    · cases h
      assumption
    · cases h

/-- **A rule is read from a value as a leaf**: it is a reference, and the value refers to its name,
or it is a check, and the value is an object that spells it. -/
def ReadAsLeaf (p : Path) (v : Json) (r : Rule) : Prop :=
  (∃ name threshold, r = .reference name threshold ∧ v.RefersTo name) ∨
    ∃ fields k, v = .obj fields ∧ parseCheck p fields = .ok k ∧ r = .check k

/-- An object that is no group spells a leaf. -/
theorem parseObject_ok {p : Path} {fields : Table Json} {r : Rule}
    (h : parseObject p fields = .ok r) : ReadAsLeaf p (.obj fields) r := by
  unfold parseObject at h
  split at h
  · cases h
  · split at h
    · unfold parseReference at h
      split at h
      · obtain ⟨t, -, h⟩ := bind_eq_ok.mp h
        cases h
        exact .inl ⟨_, _, rfl, rfl⟩
      · cases h
    · split at h
      · cases h
      · obtain ⟨k, hk, rfl⟩ := map_eq_ok.mp h
        exact .inr ⟨fields, k, rfl, hk, rfl⟩

/-- What is no group spells a leaf. -/
theorem parseLeaf_ok {p : Path} {v : Json} {r : Rule} (h : parseLeaf p v = .ok r) :
    ReadAsLeaf p v r := by
  unfold parseLeaf at h
  split at h
  · split at h
    · cases h
    · cases h
      exact .inl ⟨_, _, rfl, rfl⟩
  · exact parseObject_ok h
  · cases h

end Rule

/-! ### Both walks -/

namespace Review

/-- **A leaf is read from a value**, and the value is remarked on as a leaf. -/
structure ReadsLeaf (w : Review) (rule : Option String) (q : Path) (v : Json) (r : Rule) : Prop where
  /-- The rule is a reference or a check. -/
  shape : Rule.ReadAsLeaf q v r
  /-- The remarks are those on a leaf. -/
  remarks : w.expression rule q v = w.leaf rule q (.ok r)

/-- **A group is read from a value**: from a bare list, or from an object with its quantifier. -/
structure ReadsGroup (w : Review) (rule : Option String) (q : Path) (v : Json) (k : Quantifier)
    (rs : List Rule) (q' : Path) (items : List Json) : Prop where
  /-- The members are read from the items. -/
  members : Rule.parseMembers q' items = .ok rs
  /-- The remarks are those on the members. -/
  remarks : w.expression rule q v = w.members rule q' items
  /-- The items stand at the value itself, or below the key of the quantifier. -/
  spelling : v = .arr items ∧ k = .all ∧ q' = q ∨ v = .obj [(k.key, .arr items)] ∧ q' = q.key k.key

variable (w : Review) (rule : Option String) {q : Path}

/-- **What is read from a value** is a leaf or a group, and the review takes it for the same. -/
theorem expression_of_parse {v : Json} {r : Rule} (h : Rule.parse q v = .ok r) :
    w.ReadsLeaf rule q v r ∨
      ∃ k rs q' items, r = .group k rs ∧ w.ReadsGroup rule q v k rs q' items := by
  have hobject {fields : Table Json} (h : Rule.parseObject q fields = .ok r)
      (hremarks : w.expression rule q (.obj fields) = w.leaf rule q (Rule.parseObject q fields)) :
      w.ReadsLeaf rule q (.obj fields) r :=
    ⟨Rule.parseObject_ok h, by rw [hremarks, h]⟩
  cases v with
  | arr items =>
    rw [Rule.parse] at h
    obtain ⟨rs, hrs, rfl⟩ := map_eq_ok.mp h
    exact .inr ⟨.all, rs, q, items, rfl, hrs, by rw [expression], .inl ⟨rfl, rfl, rfl⟩⟩
  | obj fields =>
    rcases fields with _ | ⟨⟨key, value⟩, _ | ⟨e, rest⟩⟩
    case cons.nil =>
      unfold Rule.parse at h
      cases hk : Rule.quantifierOf? key with
      | none =>
        simp only [hk] at h
        exact .inl (hobject h (by unfold expression; simp only [hk]))
      | some k =>
        cases value with
        | arr items =>
          simp only [hk] at h
          obtain ⟨rs, hrs, rfl⟩ := map_eq_ok.mp h
          obtain rfl := Rule.quantifierOf?_eq_some hk
          exact .inr ⟨k, rs, q.key k.key, items, rfl, hrs, by unfold expression; simp only [hk],
            .inr ⟨rfl, rfl⟩⟩
        | null | bool _ | int _ | real _ | str _ | obj _ =>
          simp only [hk] at h
          cases h
    -- no key, or several
    all_goals
      simp only [Rule.parse] at h
      split at h
      · cases h
      · rename_i hgroup
        exact .inl (hobject h (by simp only [expression, if_neg hgroup]))
  | null | bool _ | int _ | real _ | str _ =>
    simp only [Rule.parse] at h
    exact .inl ⟨Rule.parseLeaf_ok h, by simp only [expression, h]⟩

/-- The members of a group are read one after the other, as the items of a list are. -/
theorem parseItems_getElem? {items : List Json} {rs : List Rule} {i : Nat}
    (h : Rule.parseItems q i items = .ok rs) {j : Nat} {r : Rule} (hr : rs[j]? = some r) :
    ∃ v, items[j]? = some v ∧ Rule.parse (q.index (i + j)) v = .ok r ∧
      w.expression rule (q.index (i + j)) v ⊆ w.items rule q i items := by
  induction items generalizing rs i j with
  | nil =>
    rw [Rule.parseItems] at h
    cases h
    cases hr
  | cons v rest ih =>
    rw [Rule.parseItems] at h
    obtain ⟨r', hr', h⟩ := bind_eq_ok.mp h
    obtain ⟨rs', hrest, h⟩ := bind_eq_ok.mp h
    cases h
    rw [items]
    cases j with
    | zero =>
      cases hr
      exact ⟨v, rfl, hr', List.subset_append_left _ _⟩
    | succ j =>
      obtain ⟨v', hv', hparsed, hsub⟩ := ih hrest hr
      rw [Nat.add_assoc, Nat.add_comm 1] at hparsed hsub
      exact ⟨v', hv', hparsed, List.subset_append_of_subset_right _ hsub⟩

theorem parseMembers_getElem? {items : List Json} {rs : List Rule}
    (h : Rule.parseMembers q items = .ok rs) {j : Nat} {r : Rule} (hr : rs[j]? = some r) :
    ∃ v, items[j]? = some v ∧ Rule.parse (q.index j) v = .ok r ∧
      w.expression rule (q.index j) v ⊆ w.members rule q items := by
  cases items with
  | nil =>
    rw [Rule.parseMembers] at h
    cases h
  | cons v rest =>
    have h' : Rule.parseItems q 0 (v :: rest) = .ok rs := h
    obtain ⟨v', hv', hparsed, hsub⟩ := parseItems_getElem? w rule h' hr
    rw [Nat.zero_add] at hparsed hsub
    exact ⟨v', hv', hparsed, hsub⟩

end Review

end TopDown
