import TopDown.Proofs.Document
import TopDown.Proofs.Path
import TopDown.Proofs.Walks

/-!
# Where mistakes are

A value that spells no rule is refused with a place and a mistake. The place leads on from where the
value stands, and down into the value: every step of it can be followed, but for the last, which may be
a key that is missing from the object it was looked for in (`TopDown.Json.Points`). On its way it passes
groups. A group is read one member after the other, and the first that cannot be read is the end of it,
so the place lies in the first faulty member of every group that it passes (`TopDown.Rule.StopsAt`).

`TopDown.Rule.parse_pointsAt` says so of every value. Below the groups it rests on the readers of the
fields of an object, each of which points at the object, at one of its keys, or at an item of the list
that stands there (`TopDown.Rule.PointsInto`).
-/

namespace TopDown

/-! ### Places in a value -/

/-- **A place in a value that can be pointed at**: there is something there, or it is a key that an
object does not have. -/
inductive Json.Points (v : Json) : Path → Prop
  /-- There is something there. -/
  | present {q : Path} {w : Json} (h : v.at? q = some w) : v.Points q
  /-- The object there does not have the key. -/
  | missing {q : Path} {fields : Table Json} {key : String} (h : v.at? q = some (.obj fields))
      (hkey : fields.lookup key = none) : v.Points (q ++ [.key key])

namespace Json

variable {v w : Json}

theorem points_nil (v : Json) : v.Points [] :=
  .present rfl

/-- Every key of an object can be pointed at, whether it is there or not. -/
theorem points_key (fields : Table Json) (key : String) : (Json.obj fields).Points [.key key] := by
  cases hkey : fields.lookup key with
  | none => exact .missing (q := []) rfl hkey
  | some w =>
    refine .present (w := w) ?_
    show ((fields.lookup key).bind fun w => some w) = some w
    rw [hkey, Option.bind_some]

/-- What can be pointed at one step into a value. -/
theorem Points.step {s : Step} {q : Path} (hs : v.step? s = some w) (h : w.Points q) :
    v.Points (s :: q) := by
  have hat (r : Path) : v.at? (s :: r) = w.at? r := by
    show ((v.step? s).bind fun w => w.at? r) = w.at? r
    rw [hs, Option.bind_some]
  cases h with
  | present h => exact .present ((hat _).trans h)
  | @missing r _ _ h hkey => exact .missing (q := s :: r) ((hat _).trans h) hkey

end Json

namespace Rule

variable {α β : Type} {p : Path} {v w : Json}

/-! ### Readings that point into a value -/

/-- **The reading points into the value** that stands at a place: if it fails, it does so at a place
that leads on into the value. -/
def PointsInto (p : Path) (v : Json) (x : Parsed α) : Prop :=
  ∀ e, x = .error e → ∃ q, e.path = p ++ q ∧ v.Points q

namespace PointsInto

theorem ok {a : α} : PointsInto p v (.ok a) :=
  fun _ h => nomatch h

theorem refuse {d : RuleDefect} : PointsInto p v (Rule.refuse p d : Parsed α) := by
  rintro _ ⟨⟩
  exact ⟨[], (List.append_nil p).symm, v.points_nil⟩

theorem refuse_key {fields : Table Json} {key : String} {d : RuleDefect} :
    PointsInto p (.obj fields) (Rule.refuse (p.key key) d : Parsed α) := by
  rintro _ ⟨⟩
  exact ⟨[.key key], rfl, Json.points_key fields key⟩

/-- One reading after the other. -/
theorem bind {x : Parsed α} {f : α → Parsed β} (hx : PointsInto p v x)
    (hf : ∀ a, PointsInto p v (f a)) : PointsInto p v (x >>= f) := by
  intro e h
  rcases bind_eq_error.mp h with h | ⟨a, -, h⟩
  · exact hx e h
  · exact hf a e h

theorem map {x : Parsed α} (hx : PointsInto p v x) (f : α → β) : PointsInto p v (x.map f) :=
  fun e h => hx e (map_eq_error.mp h)

/-- A reading that goes one step into the value. -/
theorem step {s : Step} {x : Parsed α} (hs : v.step? s = some w) (hx : PointsInto (p ++ [s]) w x) :
    PointsInto p v x := by
  intro e he
  obtain ⟨q, hq, hpoints⟩ := hx e he
  exact ⟨s :: q, by rw [hq, List.append_assoc]; rfl, hpoints.step hs⟩

end PointsInto

/-! ### Lists that are read in order -/

/-- **The reading of a list stops at an item**: it is the first that cannot be read. -/
structure StopsAt (read : Path → Json → Parsed α) (p : Path) (items : List Json) (e : RuleError)
    (i : Nat) (w : Json) : Prop where
  /-- The item stands there. -/
  item : items[i]? = some w
  /-- It cannot be read, for the mistake at hand. -/
  fails : read (p.index i) w = .error e
  /-- All items before it can. -/
  first : ∀ j w', j < i → items[j]? = some w' → ∃ a, read (p.index j) w' = .ok a

/-- **A list that cannot be read** has a first item that cannot. -/
theorem readItems_stops {read : Path → Json → Parsed α} {items : List Json} {e : RuleError}
    (h : readItems read p 0 items = .error e) : ∃ i w, StopsAt read p items e i w := by
  -- the items may be counted from any number on
  suffices hfrom : ∀ n, readItems read p n items = .error e →
      ∃ i w, items[i]? = some w ∧ read (p.index (n + i)) w = .error e ∧
        ∀ j w', j < i → items[j]? = some w' → ∃ a, read (p.index (n + j)) w' = .ok a by
    obtain ⟨i, w, hitem, hfails, hfirst⟩ := hfrom 0 h
    simp only [Nat.zero_add] at hfails hfirst
    exact ⟨i, w, hitem, hfails, hfirst⟩
  clear h
  induction items with
  | nil => exact fun n h => nomatch h
  | cons v rest ih =>
    intro n h
    rw [readItems] at h
    rcases bind_eq_error.mp h with hv | ⟨a, hv, h⟩
    · -- the first item
      exact ⟨0, v, rfl, hv, fun j _ hj => absurd hj (Nat.not_lt_zero j)⟩
    · rcases bind_eq_error.mp h with hrest | ⟨as, -, h⟩
      · obtain ⟨i, w, hitem, hfails, hfirst⟩ := ih (n + 1) hrest
        simp only [Nat.add_assoc, Nat.add_comm 1] at hfails hfirst
        refine ⟨i + 1, w, hitem, hfails, fun j w' hj hw' => ?_⟩
        cases j with
        | zero =>
          cases hw'
          exact ⟨a, hv⟩
        | succ j => exact hfirst j w' (Nat.lt_of_succ_lt_succ hj) hw'
      · cases h

theorem PointsInto.items {read : Path → Json → Parsed α} (hread : ∀ p v, PointsInto p v (read p v))
    (p : Path) (items : List Json) : PointsInto p (.arr items) (readItems read p 0 items) := by
  intro e h
  obtain ⟨i, w, hstops⟩ := readItems_stops h
  have hitem : (Json.arr items).step? (.index i) = some w := hstops.item
  exact PointsInto.step hitem (hread _ w) e hstops.fails

/-! ### The fields of an object -/

section Fields

variable (p) (fields : Table Json) (key : String)

theorem allowOnly_points (allowed : List String) :
    PointsInto p (.obj fields) (allowOnly p fields allowed) := by
  unfold allowOnly
  split
  · exact .refuse_key
  · exact .ok

theorem numberAt?_points : PointsInto p (.obj fields) (numberAt? p fields key) := by
  unfold numberAt?
  split
  · exact .ok
  · split
    · exact .ok
    · exact .refuse_key

theorem numberAt_points : PointsInto p (.obj fields) (numberAt p fields key) := by
  refine .bind (numberAt?_points p fields key) fun found => ?_
  cases found with
  | none => exact .refuse_key
  | some x => exact .ok

theorem magnitudeAt_points : PointsInto p (.obj fields) (magnitudeAt p fields key) := by
  refine .bind (numberAt?_points p fields key) fun found => ?_
  dsimp only
  split
  · exact .refuse_key
  · exact .ok

theorem countAt?_points : PointsInto p (.obj fields) (countAt? p fields key) := by
  unfold countAt?
  split
  · exact .ok
  · split
    · exact .ok
    · exact .refuse_key
    · exact .refuse_key

theorem positiveAt_points (default : UInt64) :
    PointsInto p (.obj fields) (positiveAt p fields key default) := by
  refine .bind (countAt?_points p fields key) fun found => ?_
  dsimp only
  split
  · exact .refuse_key
  · exact .ok

theorem flagAt_points : PointsInto p (.obj fields) (flagAt p fields key) := by
  unfold flagAt
  split
  · exact .ok
  · split
    · exact .ok
    · exact .refuse_key

theorem fieldName_points (v : Json) : PointsInto p v (fieldName p v) := by
  unfold fieldName
  split
  · split
    · exact .refuse
    · exact .ok
  · exact .refuse

theorem fieldAt_points : PointsInto p (.obj fields) (fieldAt p fields key) := by
  unfold fieldAt
  split
  · exact .refuse_key
  · rename_i v hv
    exact .step (s := .key key) (Json.lookup_of_given? hv) (fieldName_points _ v)

theorem operandAt_points : PointsInto p (.obj fields) (operandAt p fields key) := by
  unfold operandAt
  split
  · exact .refuse_key
  · split
    · split
      · exact .refuse_key
      · exact .ok
    · exact .ok
    · exact .refuse_key

theorem boundsAt_points : PointsInto p (.obj fields) (boundsAt p fields) := by
  refine .bind (numberAt_points p fields "min") fun min => ?_
  refine .bind (numberAt_points p fields "max") fun max => ?_
  split
  · exact .refuse
  · exact .ok

theorem directionAt_points (upKey downKey : String) :
    PointsInto p (.obj fields) (directionAt p fields upKey downKey) := by
  unfold directionAt
  split
  · exact .ok
  · exact .ok
  · exact .refuse

theorem comparisonAt_points : PointsInto p (.obj fields) (comparisonAt p fields) := by
  unfold comparisonAt
  split
  · split
    · exact .ok
    · exact .refuse_key
  · exact .refuse_key

theorem subjectAt_points : PointsInto p (.obj fields) (subjectAt p fields) := by
  unfold subjectAt
  split
  · exact (operandAt_points p fields _).map _
  · exact (fieldAt_points p fields _).map _
  · exact .refuse
  · exact .refuse

theorem timeframeItem_points (v : Json) : PointsInto p v (timeframeItem p v) := by
  unfold timeframeItem
  split
  · exact .ok
  · exact .refuse

theorem timeframesAt_points : PointsInto p (.obj fields) (timeframesAt p fields key) := by
  unfold timeframesAt
  split
  · exact .ok
  · rename_i items hv
    exact .step (s := .key key) (Json.lookup_of_given? hv) (.items timeframeItem_points _ items)
  · exact .refuse_key

/-! ### Checks -/

theorem parseCompare_points : PointsInto p (.obj fields) (parseCompare p fields) := by
  refine .bind (allowOnly_points p fields _) fun _ => ?_
  refine .bind (comparisonAt_points p fields) fun op => ?_
  refine .bind (subjectAt_points p fields) fun left => ?_
  refine .bind (operandAt_points p fields "right") fun right => ?_
  exact .bind (magnitudeAt_points p fields "eps") fun eps => .ok

theorem parseFieldOrder_points : PointsInto p (.obj fields) (parseFieldOrder p fields) := by
  refine .bind (directionAt_points p fields _ _) fun (direction, key) => ?_
  refine .bind (allowOnly_points p fields _) fun _ => ?_
  split
  · rename_i items hv
    split
    · exact .refuse_key
    · exact .bind (.step (s := .key key) hv (.items fieldName_points _ items)) fun _ => .ok
  · exact .refuse_key

theorem parseTrend_points : PointsInto p (.obj fields) (parseTrend p fields) := by
  refine .bind (directionAt_points p fields _ _) fun (direction, key) => ?_
  refine .bind (allowOnly_points p fields _) fun _ => ?_
  refine .bind (fieldAt_points p fields key) fun field => ?_
  refine .bind (positiveAt_points p fields "n" 2) fun n => ?_
  exact .bind (magnitudeAt_points p fields "eps") fun eps => .ok

theorem parseDerivative_points : PointsInto p (.obj fields) (parseDerivative p fields) := by
  refine .bind (allowOnly_points p fields _) fun _ => ?_
  refine .bind (numberAt?_points p fields _) fun above => ?_
  refine .bind (numberAt?_points p fields _) fun below => ?_
  have hrest : PointsInto p (.obj fields) (do
      let persist ← positiveAt p fields "persist_n" 1
      let field ← fieldAt p fields "field"
      return Check.derivative field above below persist) := by
    refine .bind (positiveAt_points p fields _ _) fun persist => ?_
    exact .bind (fieldAt_points p fields _) fun field => .ok
  dsimp only
  split
  · split
    · exact .refuse
    · exact hrest
  · exact hrest

theorem parseHysteresis_points : PointsInto p (.obj fields) (parseHysteresis p fields) := by
  refine .bind (allowOnly_points p fields _) fun _ => ?_
  refine .bind (flagAt_points p fields _) fun below => ?_
  refine .bind (flagAt_points p fields _) fun above => ?_
  have hrest : PointsInto p (.obj fields) (do
      let field ← fieldAt p fields "field"
      let level ← numberAt? p fields "level"
      let gap ← magnitudeAt p fields "min_gap"
      let coolDown := (← countAt? p fields "cool_down_bars").getD 0
      return Check.hysteresis field level gap coolDown below above) := by
    refine .bind (fieldAt_points p fields _) fun field => ?_
    refine .bind (numberAt?_points p fields _) fun level => ?_
    refine .bind (magnitudeAt_points p fields _) fun gap => ?_
    exact .bind (countAt?_points p fields _) fun coolDown => .ok
  dsimp only
  split
  · exact .refuse
  · exact hrest

theorem parseRange_points : PointsInto p (.obj fields) (parseRange p fields) := by
  refine .bind (allowOnly_points p fields _) fun _ => ?_
  refine .bind (boundsAt_points p fields) fun (min, max) => ?_
  refine .bind (timeframesAt_points p fields _) fun timeframes => ?_
  exact .bind (flagAt_points p fields _) fun adapts => .ok

theorem parseBounds_points : PointsInto p (.obj fields) (parseBounds p fields) := by
  refine .bind (allowOnly_points p fields _) fun _ => ?_
  refine .bind (boundsAt_points p fields) fun (min, max) => ?_
  exact .bind (fieldAt_points p fields _) fun field => .ok

theorem parseCheck_points : PointsInto p (.obj fields) (parseCheck p fields) := by
  unfold parseCheck
  split
  · exact parseCompare_points p fields
  split
  · exact parseFieldOrder_points p fields
  split
  · exact parseTrend_points p fields
  split
  · exact parseDerivative_points p fields
  split
  · exact parseHysteresis_points p fields
  split
  · split
    · exact parseBounds_points p fields
    · exact parseRange_points p fields
  · exact .refuse

/-! ### Leaves -/

theorem parseThreshold_points (v : Json) : PointsInto p v (parseThreshold p v) := by
  unfold parseThreshold
  split
  · exact .ok
  · exact .ok
  · exact .ok
  · exact .refuse

theorem parseReference_points : PointsInto p (.obj fields) (parseReference p fields) := by
  unfold parseReference
  split
  · rename_i name v
    have hstep : (Json.obj [(name, v)]).step? (.key name) = some v := by
      simp [Json.step?]
    exact .bind (.step hstep (parseThreshold_points _ v)) fun _ => .ok
  · exact .refuse

/-- **An object that is no group** is refused at a place in it. -/
theorem parseObject_points : PointsInto p (.obj fields) (parseObject p fields) := by
  unfold parseObject
  split
  · exact .refuse
  split
  · exact parseReference_points p fields
  split
  · exact .refuse
  · exact (parseCheck_points p fields).map _

theorem parseLeaf_points (v : Json) : PointsInto p v (parseLeaf p v) := by
  unfold parseLeaf
  split
  · split
    · exact .refuse
    · exact .ok
  · exact parseObject_points p _
  · exact .refuse

end Fields

end Rule

/-! ### Groups on the way -/

namespace Json

/-- **The value is a group**, and its members are listed at a place in it: it is a bare list, or an
object with the name of its quantifier alone. -/
inductive IsGroup : Json → Path → List Json → Prop
  /-- A bare list. -/
  | bare {items : List Json} : IsGroup (.arr items) [] items
  /-- A list under the name of a quantifier. -/
  | named {k : Quantifier} {items : List Json} :
      IsGroup (.obj [(k.key, .arr items)]) [.key k.key] items

/-- **A group in a value**, with the place where it stands and the one below it where its members are
listed: the value itself, or a group in one of its members. -/
inductive GroupAt : Json → Path → Path → List Json → Prop
  /-- The value itself. -/
  | self {v : Json} {q : Path} {items : List Json} (h : v.IsGroup q items) : GroupAt v [] q items
  /-- A group in a member. -/
  | member {v w : Json} {q s r : Path} {items members : List Json} {i : Nat} (h : v.IsGroup q items)
      (hw : items[i]? = some w) (hr : GroupAt w s r members) :
      GroupAt v (q ++ .index i :: s) r members

variable {v w : Json} {q r s : Path} {items members : List Json}

theorem IsGroup.unique (h : v.IsGroup q items) (h' : v.IsGroup r members) :
    q = r ∧ items = members := by
  cases h with
  | bare =>
    cases h'
    exact ⟨rfl, rfl⟩
  | @named k _ =>
    generalize hv : Json.obj [(k.key, .arr items)] = v at h'
    cases h' with
    | bare => cases hv
    | named =>
      simp only [Json.obj.injEq, List.cons.injEq, Prod.mk.injEq, Json.arr.injEq, and_true] at hv
      obtain ⟨hkey, rfl⟩ := hv
      exact ⟨by rw [hkey], rfl⟩

/-- The list of the members stands at its place. -/
theorem IsGroup.at? (h : v.IsGroup q items) : v.at? q = some (.arr items) := by
  cases h with
  | bare => rfl
  | named => simp [Json.at?, Json.step?]

theorem IsGroup.sizeOf_lt (h : v.IsGroup q items) {i : Nat} (hw : items[i]? = some w) :
    sizeOf w < sizeOf v := by
  have hlt := List.sizeOf_lt_of_mem (List.mem_of_getElem? hw)
  cases h with
  | bare =>
    simp only [Json.arr.sizeOf_spec]
    omega
  | named =>
    simp only [Json.obj.sizeOf_spec, List.cons.sizeOf_spec, Prod.mk.sizeOf_spec,
      Json.arr.sizeOf_spec]
    omega

/-- What can be pointed at below a place in the value. -/
theorem Points.append {u : Json} {s : Path} (hv : v.at? q = some u) (h : u.Points s) :
    v.Points (q ++ s) := by
  induction q generalizing v with
  | nil =>
    cases hv
    exact h
  | cons step q ih =>
    obtain ⟨w, hw, hv⟩ := Option.bind_eq_some_iff.mp hv
    exact (ih hv).step hw

/-- The groups in a group are itself and those in its members. -/
theorem GroupAt.cases_of_isGroup (h : v.GroupAt s r members) (hv : v.IsGroup q items) :
    s = [] ∧ r = q ∧ members = items ∨ ∃ i w t, s = q ++ .index i :: t ∧ items[i]? = some w ∧
      w.GroupAt t r members := by
  cases h with
  | self h =>
    obtain ⟨rfl, rfl⟩ := h.unique hv
    exact .inl ⟨rfl, rfl, rfl⟩
  | member h hw hr =>
    obtain ⟨rfl, rfl⟩ := h.unique hv
    exact .inr ⟨_, _, _, rfl, hw, hr⟩

end Json

namespace Rule

open Json (IsGroup GroupAt)

variable {p q : Path} {v : Json} {items : List Json} {e : RuleError}

/-- The items of a list are read in order. -/
theorem parseItems_eq (p : Path) (i : Nat) (items : List Json) :
    parseItems p i items = readItems parse p i items := by
  induction items generalizing i with
  | nil => rfl
  | cons v rest ih => rw [parseItems, readItems, ih]

/-- So are the members of a group, of which there is one at least. -/
theorem parseMembers_eq (p : Path) (items : List Json) : parseMembers p items =
    if items = [] then refuse p .emptyGroup else readItems parse p 0 items := by
  cases items with
  | nil => rw [parseMembers, if_pos rfl]
  | cons v rest => rw [parseMembers, if_neg (List.cons_ne_nil v rest), readItems, parseItems_eq]

/-- A group is read from its members. -/
theorem parse_of_isGroup (p : Path) (h : v.IsGroup q items) :
    ∃ k, parse p v = (parseMembers (p ++ q) items).map (.group k) := by
  cases h with
  | bare => exact ⟨.all, by rw [parse, List.append_nil]⟩
  | @named k _ => exact ⟨k, by simp only [parse, quantifierOf?_key]; rfl⟩

/-- **A value that is no group** is refused at a place in it. -/
theorem parse_points (p : Path) (h : ∀ q items, ¬v.IsGroup q items) :
    PointsInto p v (parse p v) := by
  cases v with
  | arr items => exact absurd .bare (h [] items)
  | obj fields =>
    rcases fields with _ | ⟨⟨key, value⟩, _ | ⟨e, rest⟩⟩
    case cons.nil =>
      unfold parse
      cases hk : quantifierOf? key with
      | none => exact parseObject_points p _
      | some k =>
        obtain rfl := quantifierOf?_eq_some hk
        cases value with
        | arr items => exact absurd .named (h _ items)
        | null | bool _ | int _ | real _ | str _ | obj _ => exact .refuse_key
    -- no key, or several
    all_goals
      simp only [parse]
      split
      · exact .refuse
      · exact parseObject_points p _
  | null | bool _ | int _ | real _ | str _ =>
    simp only [parse]
    exact parseLeaf_points p _

/-- **Where the reading of a group stops**: it has no members, or at the first of them that cannot be
read. -/
theorem parseMembers_stops (h : parseMembers p items = .error e) :
    items = [] ∧ e.path = p ∨ ∃ i w, StopsAt parse p items e i w := by
  rw [parseMembers_eq] at h
  split at h
  · rename_i hnil
    cases h
    exact .inl ⟨hnil, rfl⟩
  · exact .inr (readItems_stops h)

/-- **The place lies in the first faulty member** of a group that it passes, or it is that of a group
without members. -/
def Passes (p q : Path) (e : RuleError) (r : Path) (items : List Json) : Prop :=
  q = r ∧ items = [] ∨
    ∃ i w rest, q = r ++ .index i :: rest ∧ StopsAt parse (p ++ r) items e i w

/-- The place of a mistake in a value, and how it passes the groups above it. -/
theorem exists_place (p : Path) (v : Json) (h : parse p v = .error e) :
    ∃ q, e.path = p ++ q ∧ v.Points q ∧
      ∀ s r items, v.GroupAt s r items → s <+: q → Passes p q e (s ++ r) items := by
  by_cases hgroup : ∃ q items, v.IsGroup q items
  · obtain ⟨q, items, hv⟩ := hgroup
    obtain ⟨k, hparse⟩ := parse_of_isGroup p hv
    rw [hparse, map_eq_error] at h
    rcases parseMembers_stops h with ⟨rfl, hpath⟩ | ⟨i, w, hstops⟩
    · -- the group has no members
      refine ⟨q, hpath, .present hv.at?, fun s r members hr _ => ?_⟩
      rcases hr.cases_of_isGroup hv with ⟨rfl, rfl, rfl⟩ | ⟨j, w, t, -, hw, -⟩
      · exact .inl ⟨rfl, rfl⟩
      · cases hw
    · -- one of them cannot be read, and the mistake is in it
      have hlt := hv.sizeOf_lt hstops.item
      obtain ⟨u, hpath, hpoints, hpasses⟩ := exists_place ((p ++ q).index i) w hstops.fails
      have hitem : (Json.arr items).Points (.index i :: u) :=
        hpoints.step (v := .arr items) hstops.item
      refine ⟨q ++ .index i :: u, ?_, hitem.append hv.at?, fun s r members hr hprefix => ?_⟩
      · rw [hpath, Path.index]
        simp
      · rcases hr.cases_of_isGroup hv with ⟨rfl, rfl, rfl⟩ | ⟨j, w', t, rfl, hw', ht⟩
        · exact .inr ⟨i, w, u, rfl, hstops⟩
        · -- a group further down lies in the same member
          rw [List.prefix_append_right_inj, List.cons_prefix_cons, Step.index.injEq] at hprefix
          obtain ⟨rfl, hprefix⟩ := hprefix
          obtain rfl : w = w' := Option.some.inj (hstops.item.symm.trans hw')
          rcases hpasses t r members ht hprefix with ⟨rfl, hnil⟩ | ⟨i', w', rest, rfl, hdeeper⟩
          · exact .inl ⟨by simp, hnil⟩
          · refine .inr ⟨i', w', rest, by simp, ?_⟩
            rw [Path.index] at hdeeper
            simpa using hdeeper
  · rw [not_exists] at hgroup
    have hno (q : Path) (items : List Json) : ¬v.IsGroup q items :=
      fun hv => hgroup q ⟨items, hv⟩
    obtain ⟨q, hpath, hpoints⟩ := parse_points p hno e h
    refine ⟨q, hpath, hpoints, fun s r items hr _ => ?_⟩
    cases hr with
    | self hv => exact absurd hv (hno _ _)
    | member hv _ _ => exact absurd hv (hno _ _)
termination_by sizeOf v

/-- **A mistake is where its place says.** The place leads on from where the value stands, also in the
text that shows it, and down to something in the value or to a key that an object there does not have.
Of every group on its way it takes the first member that cannot be read, and it ends at the list of a
group that has no members. -/
theorem parse_pointsAt (h : parse p v = .error e) :
    ∃ q, e.path = p ++ q ∧
      (p.render ≠ "" → e.path.render.toList = p.render.toList ++ q.flatMap Path.stepChars) ∧
      v.Points q ∧
      ∀ s r items, v.GroupAt s r items → s <+: q → Passes p q e (s ++ r) items := by
  obtain ⟨q, hpath, hpoints, hpasses⟩ := exists_place p v h
  refine ⟨q, hpath, fun hp => ?_, hpoints, hpasses⟩
  rw [hpath, Path.render, List.foldl_append]
  exact Path.foldl_toList hp q

/-- A group in a group, in which the right side of a comparison is missing. -/
def lopsided : Json :=
  .obj [("any_of", .arr [.str "rsi_bullish",
    .obj [("all_of", .arr [.str "adx_trending", .obj [("left", .str "rsi"), ("op", .str ">")]])]])]

/-- What it is refused with, as the rule `r`. -/
def lopsidedMistake : RuleError :=
  ⟨[.key "rules", .key "r", .key "any_of", .index 1, .key "all_of", .index 1, .key "right"],
    .missingOperand "right"⟩

theorem parse_pointsAt_lopsided :
    ∃ q, lopsidedMistake.path = [.key "rules", .key "r"] ++ q ∧
      (Path.render [.key "rules", .key "r"] ≠ "" → lopsidedMistake.path.render.toList =
        (Path.render [.key "rules", .key "r"]).toList ++ q.flatMap Path.stepChars) ∧
      lopsided.Points q ∧
      ∀ s r items, lopsided.GroupAt s r items → s <+: q →
        Passes [.key "rules", .key "r"] q lopsidedMistake (s ++ r) items :=
  parse_pointsAt (v := lopsided) (by rfl)

end Rule

end TopDown
