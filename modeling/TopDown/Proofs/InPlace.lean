import TopDown.Proofs.Neutral
import TopDown.Proofs.Origin
import TopDown.Proofs.Parting

/-!
# Checks in place, and where their leaves are found

A check that is spelt out in place goes by the text of its place. If two configurations differ in the
rules for the audit only, a place outside of these rules (`TopDown.AuditPlace`) has the same rule in both
(`TopDown.Occurs.of_withoutAudit`), and so the same check. It remains to see which of these texts the
rules that decide come upon. A node that spells a rule reaches leaves of two kinds
(`TopDown.Spells.leaf_cases`): those that a reference names, and those of the checks below the place of
the rule or within a named one. None of the latter is among the rules for the audit, if the rule is not
(`TopDown.Book.gives_cases`).
-/

namespace TopDown

section Places

variable {root root' : Table Json} {rules : Table Rule} {p q : Path} {r : Rule}

/-- **The place is among the rules for and against going down** from a timeframe. -/
def AuditPlace (p : Path) : Prop :=
  ∃ key, ∃ group ∈ auditKeys, (groupsPlace.key key).key group <+: p

theorem AuditPlace.append (h : AuditPlace p) (s : Path) : AuditPlace (p ++ s) := by
  obtain ⟨key, group, hgroup, hlead⟩ := h
  exact ⟨key, group, hgroup, hlead.trans (List.prefix_append p s)⟩

/-- The place of a group of a timeframe has four steps. -/
theorem not_auditPlace_of_length (h : p.length < 4) : ¬AuditPlace p := by
  rintro ⟨key, group, -, hlead⟩
  exact absurd (show 4 ≤ p.length from hlead.length_le) (Nat.not_le.mpr h)

/-- A place of the audit lies below the place of a list only if this is a list of the audit. -/
theorem AuditPlace.of_below (hp : ListPlace p) (hlead : p <+: q) (h : AuditPlace q) :
    AuditPlace p := by
  obtain ⟨key, group, hgroup, haudit⟩ := h
  rcases List.prefix_or_prefix_of_prefix haudit hlead with h | h
  · exact ⟨key, group, hgroup, h⟩
  · -- the place of the list is not longer, and differs from this one unless it is the same
    obtain ⟨rest, hrest⟩ := h
    cases hp with
    | block _ _ | filters => simp [groupsPlace, selectorKey, Path.key] at hrest
    | selector hkey =>
      simp only [groupsPlace, Path.key, List.cons_append, List.nil_append, List.cons.injEq,
        Step.key.injEq, true_and] at hrest
      rw [hrest.1] at hkey
      exact absurd hkey (by decide)
    | minute => simp [groupsPlace, Path.key] at hrest
    | groups _ _ =>
      simp only [groupsPlace, Path.key, List.cons_append, List.nil_append, List.cons.injEq,
        Step.key.injEq, true_and] at hrest
      obtain ⟨rfl, rfl, -⟩ := hrest
      exact ⟨_, _, hgroup, List.prefix_rfl⟩

/-- The body of a named rule has no place of the audit. -/
theorem not_auditPlace_of_rulePath {name : String} (hlead : rulePath name <+: q) :
    ¬AuditPlace q := by
  rintro ⟨key, group, hgroup, haudit⟩
  rcases List.prefix_or_prefix_of_prefix haudit hlead with h | h
  · have hshort : (rulePath name).length < 4 := show 2 < 4 by decide
    exact not_auditPlace_of_length hshort ⟨key, group, hgroup, h⟩
  · obtain ⟨rest, hrest⟩ := h
    simp [groupsPlace, rulePath, selectorKey, Path.key] at hrest

/-- Two configurations that differ in the rules for the audit only have the same rules in any other
list. -/
theorem rulesAt_of_not_auditPlace (hsame : withoutAudit root = withoutAudit root')
    (hp : ListPlace p) (hnot : ¬AuditPlace p) : rulesAt root p = rulesAt root' p := by
  have hat : (Json.obj root).at? p = (Json.obj root').at? p → rulesAt root p = rulesAt root' p := by
    intro h
    rw [rulesAt, rulesAt, h]
  have hselector {key : String} (hkey : key ≠ "per_timeframe") :=
    selectorLookup_of_withoutAudit hsame hkey
  cases hp with
  | block _ _ =>
    refine hat ?_
    show (root.lookup "validation").bind _ = (root'.lookup "validation").bind _
    rw [lookup_of_withoutAudit hsame (by decide)]
  | filters =>
    refine hat ?_
    show (root.lookup "filters_mandatory").bind _ = (root'.lookup "filters_mandatory").bind _
    rw [lookup_of_withoutAudit hsame (by decide)]
  | @selector key hkey =>
    have hne : key ≠ "per_timeframe" := by
      rintro rfl
      exact absurd hkey (by decide)
    have hfield := hselector hne
    rw [← Json.at?_key, ← Json.at?_key] at hfield
    exact hat hfield
  | minute =>
    have hne : "allow_1m_only_for" ≠ "per_timeframe" := by decide
    have hfields := Json.fieldsAt_congr (hselector hne)
    refine hat ?_
    have hfield := congrArg (List.lookup "conditions") hfields
    rwa [← Json.at?_key, ← Json.at?_key] at hfield
  | @groups key group _ hgroup =>
    simp only [Review.groupKeys, List.mem_cons, List.not_mem_nil, or_false] at hgroup
    rcases hgroup with rfl | rfl | rfl
    · exact rulesAt_of_withoutAudit hsame key
    · exact absurd ⟨key, _, by decide, List.prefix_rfl⟩ hnot
    · exact absurd ⟨key, _, by decide, List.prefix_rfl⟩ hnot

/-- **A rule outside of the audit stands in both configurations**, if they differ in the audit only. -/
theorem Occurs.of_withoutAudit (hsame : withoutAudit root = withoutAudit root')
    (h : Occurs root rules p r) (hnot : ¬AuditPlace p) : Occurs root' rules p r := by
  induction h with
  | whole h =>
    cases h with
    | item hp hrs hr =>
      rw [rulesAt_of_not_auditPlace hsame hp fun haudit => hnot (haudit.append _)] at hrs
      exact .whole (.item hp hrs hr)
    | body hr => exact .whole (.body hr)
  | @member p q rs i r _ hr ih =>
    refine .member (ih fun haudit => hnot ?_) hr
    rw [Path.index, Path.key, List.append_assoc]
    exact haudit.append _

end Places

/-! ### The leaves that a rule reaches -/

section Leaves

variable {root : Table Json} {rules : Table Rule} {b : Book} {p : Path} {r : Rule} {id : Node.Id}
  {name : String} {threshold : Option Float}

/-- A leaf gives its own name. -/
theorem Book.Gives.eq_of_leaf {name' : String} {place : Nat} {threshold' : Option Float}
    (hnode : b.nodes[id]? = some (.leaf name' place threshold')) (h : b.Gives [id] name threshold) :
    name = name' := by
  obtain ⟨l, place', hreach, hl⟩ := h
  rcases (reaches_singleton_iff hnode).mp hreach with rfl | ⟨m, hm, -⟩
  · rw [hnode] at hl
    cases hl
    rfl
  · cases hm

/-- What a group gives, one of its members does. -/
theorem Book.Gives.exists_member {q : Quantifier} {label : String} {ids : List Node.Id}
    (hnode : b.nodes[id]? = some (.group q label ids)) (h : b.Gives [id] name threshold) :
    ∃ m ∈ ids, b.Gives [m] name threshold := by
  obtain ⟨l, place, hreach, hl⟩ := h
  rcases (reaches_singleton_iff hnode).mp hreach with rfl | ⟨m, hm, hreach⟩
  · rw [hnode] at hl
    cases hl
  · exact ⟨m, hm, l, place, hreach, hl⟩

/-- What a list gives, one of its rules does. -/
theorem Book.Gives.exists_root {roots : List Node.Id} (h : b.Gives roots name threshold) :
    ∃ id ∈ roots, b.Gives [id] name threshold := by
  obtain ⟨l, place, hreach, hl⟩ := h
  have hroot : ∃ id ∈ roots, b.Reaches [id] l := by
    clear hl
    induction hreach with
    | root h => exact ⟨_, h, .root (List.mem_singleton_self _)⟩
    | member _ hnode hm ih =>
      obtain ⟨id, hid, hreach⟩ := ih
      exact ⟨id, hid, .member hreach hnode hm⟩
  obtain ⟨id, hid, hreach⟩ := hroot
  exact ⟨id, hid, l, place, hreach, hl⟩

/-- **The leaves that a rule reaches**: a reference names them, or they are checks that are spelt out
below the rule or within a named one. -/
theorem Spells.leaf_cases (h : Spells b.registry b.nodes rules p r id) (hocc : Occurs root rules p r)
    (hgives : b.Gives [id] name threshold) :
    (∃ q t, Occurs root rules q (.reference name t)) ∨
      ∃ q k, Occurs root rules q (.check k) ∧ name = q.render ∧
        (p <+: q ∨ ∃ n, rulePath n <+: q) := by
  induction h with
  | leaf _ hid _ =>
    rw [hgives.eq_of_leaf (shapeAt_eq_leaf.mp hid)]
    exact .inl ⟨_, _, hocc⟩
  | named hr _ _ ih =>
    refine (ih (.whole (.body hr)) hgives).imp_right ?_
    rintro ⟨q, k, hq, hname, hbelow⟩
    exact ⟨q, k, hq, hname, .inr (hbelow.elim (fun h => ⟨_, h⟩) fun h => h)⟩
  | check hid _ =>
    exact .inr ⟨_, _, hocc, hgives.eq_of_leaf (shapeAt_eq_leaf.mp hid), .inl List.prefix_rfl⟩
  | @group p q rs id ids hid _ hlen _ ih =>
    obtain ⟨label, hnode⟩ := shapeAt_eq_group hid
    obtain ⟨m, hm, hgives⟩ := hgives.exists_member hnode
    obtain ⟨i, hi⟩ := List.mem_iff_getElem?.mp hm
    obtain ⟨hlt, -⟩ := List.getElem?_eq_some_iff.mp hi
    have hr : rs[i]? = some rs[i] := List.getElem?_eq_getElem (hlen ▸ hlt)
    refine (ih i rs[i] m hr hi (.member hocc hr) hgives).imp_right ?_
    rintro ⟨s, k, hs, hname, hbelow⟩
    refine ⟨s, k, hs, hname, hbelow.imp_left fun h => List.IsPrefix.trans ?_ h⟩
    rw [Path.index, Path.key, List.append_assoc]
    exact List.prefix_append p _

/-- The rules of a group that decides were made of a list outside of the audit, if there are any. -/
theorem Station.exists_list {L : Path → List Node.Id → Prop} (h : b.selection.EveryList L root)
    {s : Station} (hs : s.Decides) :
    s.rules b = [] ∨ ∃ p, ¬AuditPlace p ∧ L p (s.rules b) := by
  have hlayout := h.layout
  -- the places of the flat layout have two steps
  have hflat (key : String) {f : Groups → List Node.Id}
      (hf : ∀ g, b.selection.layout = .flat g → L (Path.key [.key selectorKey] key) (f g)) :
      b.flatGroups.elim [] f = [] ∨ ∃ p, ¬AuditPlace p ∧ L p (b.flatGroups.elim [] f) := by
    have hshort : (Path.key [.key selectorKey] key).length < 4 := show 2 < 4 by decide
    rw [Book.flatGroups]
    cases hl : b.selection.layout with
    | byTimeframe _ _ => exact .inl rfl
    | flat g => exact .inr ⟨_, not_auditPlace_of_length hshort, hf g hl⟩
  cases s with
  | filters =>
    refine .inr ⟨filtersPlace root, not_auditPlace_of_length ?_, h.filters⟩
    rw [filtersPlace]
    split <;> decide
  | minute => exact .inr ⟨_, not_auditPlace_of_length (by decide), h.minute⟩
  | stay tf =>
    rw [rules, Book.groupsAt]
    cases hl : b.selection.layout with
    | flat _ => exact .inl rfl
    | byTimeframe order groups =>
      rw [hl] at hlayout
      dsimp only
      cases hkey : spelling? ((Json.obj root).fieldsAt groupsPlace) tf with
      | none =>
        rw [hlayout.unspelt tf hkey]
        exact .inl rfl
      | some key =>
        obtain ⟨g, hg, hlists⟩ := hlayout.spelt tf key hkey
        rw [hg]
        refine .inr ⟨_, ?_, hlists.stay⟩
        rintro ⟨key', group, hgroup, haudit⟩
        have heq := haudit.eq_of_length rfl
        simp only [groupsPlace, Path.key, List.cons_append, List.nil_append, List.cons.injEq,
          Step.key.injEq, true_and, and_true] at heq
        rw [heq.2] at hgroup
        exact absurd hgroup (by decide)
  | stayFlat =>
    refine hflat "stay_on_15m_if" fun g hl => ?_
    rw [hl] at hlayout
    exact hlayout.stay
  | dropFlat =>
    refine hflat "drop_to_5m_if_any" fun g hl => ?_
    rw [hl] at hlayout
    exact hlayout.drop
  | forbidFlat =>
    refine hflat "forbid_drop_to_5m_if_any" fun g hl => ?_
    rw [hl] at hlayout
    exact hlayout.forbid
  | drop _ | forbid _ => exact hs.elim

/-- **The leaves that the rules of a deciding group reach**: a reference names them, or they are checks
that are spelt out outside of the audit. -/
theorem Book.gives_cases {base : Registry} (hordered : (Json.obj root).Ordered)
    (h : compile base (.obj root) = .ok b) (hparsed : parseNamed (ruleBodies root) = .ok rules)
    {s : Station} (hs : s.Decides) (hgives : b.Gives (s.rules b) name threshold) :
    (∃ q t, Occurs root rules q (.reference name t)) ∨
      ∃ q k, Occurs root rules q (.check k) ∧ name = q.render ∧ ¬AuditPlace q := by
  obtain ⟨rules', hparsed', hlists⟩ := Book.compile_lists hordered h
  obtain rfl := Except.ok.inj (hparsed.symm.trans hparsed')
  obtain ⟨id, hid, hgives⟩ := hgives.exists_root
  rcases Station.exists_list hlists.selection hs with hnone | ⟨p, hnot, hp, rs, hrs, hlen, hall⟩
  · rw [hnone] at hid
    cases hid
  · obtain ⟨i, hi⟩ := List.mem_iff_getElem?.mp hid
    obtain ⟨hlt, -⟩ := List.getElem?_eq_some_iff.mp hi
    have hr : rs[i]? = some rs[i] := List.getElem?_eq_getElem (hlen ▸ hlt)
    have hspells := hall i rs[i] id hr hi
    rw [Nat.zero_add] at hspells
    refine (hspells.leaf_cases (.whole (.item hp hrs hr)) hgives).imp_right ?_
    rintro ⟨q, k, hq, hname, hbelow⟩
    refine ⟨q, k, hq, hname, hbelow.elim (fun h haudit => hnot ?_) ?_⟩
    · exact haudit.of_below hp ((List.prefix_append p _).trans h)
    · rintro ⟨n, hn⟩
      exact not_auditPlace_of_rulePath hn

end Leaves

end TopDown
