import TopDown.Proofs.Clean
import TopDown.Proofs.Document
import TopDown.Proofs.Ranks

/-!
# The rules that a configuration can spell

A configuration spells a rule with keys, and the reader tells by the keys which check is meant. What
it lets through is the same for every spelling, and can be said of the rule alone: the numbers of a
check are the right way round and its flags do not contradict each other (`TopDown.Check.InOrder`), its
fields have names (`TopDown.Check.fields`), groups have members, and a threshold never stands under a
key that belongs to checks. `TopDown.Rule.WellFormed` says so, and `TopDown.Rule.parse_wellFormed` that
the reader returns nothing else.

Numbers need a word of their own. The reader refuses a tolerance that is below zero, and what is not
below zero need not be above it: an undefined number is neither. A document cannot spell undefined
numbers (`TopDown.Json.Genuine`), nor integers of more than 64 bits, which might be read as infinite
ones, so whatever it spells is finite, and comparisons mean what they seem to.
-/

namespace TopDown

/-! ### Documents with numbers that can be written -/

namespace Json

mutual

/-- Every integer of the document has 64 bits, and every other number is finite. -/
def Genuine : Json → Prop
  | .int n => -2 ^ 63 ≤ n ∧ n < 2 ^ 64
  | .real x => x.isFinite = true
  | .arr items => GenuineItems items
  | .obj fields => GenuineFields fields
  | .null | .bool _ | .str _ => True

/-- Every item is genuine. -/
def GenuineItems : List Json → Prop
  | [] => True
  | v :: rest => v.Genuine ∧ GenuineItems rest

/-- Every value is genuine. -/
def GenuineFields : List (String × Json) → Prop
  | [] => True
  | (_, v) :: rest => v.Genuine ∧ GenuineFields rest

end


theorem GenuineFields.mem {fields : Table Json} (h : GenuineFields fields) {name : String}
    {v : Json} (hmem : (name, v) ∈ fields) : v.Genuine := by
  induction fields with
  | nil => cases hmem
  | cons e rest ih =>
    rcases List.mem_cons.mp hmem with rfl | hmem
    · exact h.1
    · exact ih h.2 hmem

/-- What is found under a key is genuine. -/
theorem GenuineFields.lookup {fields : Table Json} (h : GenuineFields fields) {key : String}
    {v : Json} (hv : fields.lookup key = some v) : v.Genuine :=
  h.mem (Table.mem_of_lookup hv)

/-- **Every number that a genuine document spells is finite.** -/
theorem Genuine.isFinite {v : Json} (h : v.Genuine) {x : Float} (hx : v.asReal? = some x) :
    x.isFinite = true := by
  cases v with
  | int n =>
    cases hx
    obtain ⟨hlow, hhigh⟩ := h
    exact Number.isFinite_ofInt (by omega) (by omega)
  | real y =>
    cases hx
    exact h
  | null | bool _ | str _ | arr _ | obj _ => cases hx

end Json

/-! ### Checks and rules -/

/-- A name that is not blank. -/
def IsName (s : String) : Prop :=
  Text.isAllBlank s = false

instance (s : String) : Decidable (IsName s) :=
  inferInstanceAs (Decidable (_ = _))

/-- The fields that an operand names. -/
def Operand.fields : Operand → List String
  | field name => [name]
  | constant _ => []

/-- The fields that a subject names. -/
def Subject.fields : Subject → List String
  | operand o => o.fields
  | slope field => [field]

/-- The numbers of an operand are finite. -/
def Operand.Finite : Operand → Prop
  | field _ => True
  | constant x => x.isFinite = true

/-- The numbers of a subject are finite. -/
def Subject.Finite : Subject → Prop
  | operand o => o.Finite
  | slope _ => True

namespace Check

/-- The fields that a check names. -/
def fields : Check → List String
  | compare left _ right _ => left.fields ++ right.fields
  | fieldOrder _ fields => fields
  | trend _ field _ _ => [field]
  | range _ _ _ _ => []
  | hysteresis field _ _ _ _ _ => [field]
  | derivative field _ _ _ => [field]
  | bounds field _ _ => [field]

/-- The numbers of a check are the right way round, there are enough of what it counts, and it is not
required to come from both sides. -/
def InOrder : Check → Prop
  | compare _ _ _ eps => 0.0 ≤ eps
  | fieldOrder _ fields => 2 ≤ fields.length
  | trend _ _ n eps => 1 ≤ n ∧ 0.0 ≤ eps
  | range min max _ _ => min ≤ max
  | hysteresis _ _ gap _ fromBelow fromAbove => 0.0 ≤ gap ∧ ¬(fromBelow = true ∧ fromAbove = true)
  | derivative _ above below persist =>
    1 ≤ persist ∧ ∀ a b, above = some a → below = some b → a < b
  | bounds _ min max => min ≤ max

/-- The numbers of a check are finite. -/
def Finite : Check → Prop
  | compare left _ right eps => left.Finite ∧ right.Finite ∧ eps.isFinite = true
  | fieldOrder _ _ => True
  | trend _ _ _ eps => eps.isFinite = true
  | range min max _ _ => min.isFinite = true ∧ max.isFinite = true
  | hysteresis _ level gap _ _ _ => (∀ l, level = some l → l.isFinite = true) ∧ gap.isFinite = true
  | derivative _ above below _ =>
    (∀ a, above = some a → a.isFinite = true) ∧ ∀ b, below = some b → b.isFinite = true
  | bounds _ min max => min.isFinite = true ∧ max.isFinite = true

/-- **A check that a configuration can spell**: its numbers are in order and its fields have
names. -/
structure WellFormed (k : Check) : Prop where
  /-- The numbers are in order. -/
  inOrder : k.InOrder
  /-- The fields have names. -/
  named : ∀ f ∈ k.fields, IsName f

end Check

/-- The number of a threshold is finite. -/
def Threshold.Finite : Threshold → Prop
  | number x => x.isFinite = true
  | flag _ => True

namespace Rule

mutual

/-- **A rule that a configuration can spell.** -/
def WellFormed : Rule → Prop
  | reference name threshold => ∀ t, threshold = some t → name ∉ reservedKeys
  | group _ members => members ≠ [] ∧ WellFormedAll members
  | check k => k.WellFormed

/-- Every rule is one that a configuration can spell. -/
def WellFormedAll : List Rule → Prop
  | [] => True
  | r :: rest => r.WellFormed ∧ WellFormedAll rest

end

mutual

/-- The numbers of a rule are finite. -/
def Finite : Rule → Prop
  | reference _ threshold => ∀ t, threshold = some t → t.Finite
  | group _ members => FiniteAll members
  | check k => k.Finite

/-- The numbers of every rule are finite. -/
def FiniteAll : List Rule → Prop
  | [] => True
  | r :: rest => r.Finite ∧ FiniteAll rest

end

/-! ### What the fields of an object give -/

variable {p : Path} {fields : Table Json} {key : String}

section Numbers

variable (hfields : Json.GenuineFields fields)
include hfields

theorem numberAt?_finite {x : Float} (h : numberAt? p fields key = .ok (some x)) :
    x.isFinite = true := by
  unfold numberAt? at h
  split at h
  · cases h
  · rename_i v hv
    split at h
    · rename_i y hy
      cases h
      exact (hfields.lookup (Json.lookup_of_given? hv)).isFinite hy
    · cases h

theorem numberAt_finite {x : Float} (h : numberAt p fields key = .ok x) : x.isFinite = true := by
  obtain ⟨found, hfound, h⟩ := bind_eq_ok.mp h
  cases found with
  | none => cases h
  | some y =>
    cases h
    exact numberAt?_finite hfields hfound

/-- A magnitude is finite and not negative. -/
theorem magnitudeAt_ok {x : Float} (h : magnitudeAt p fields key = .ok x) :
    x.isFinite = true ∧ 0.0 ≤ x := by
  obtain ⟨found, hfound, h⟩ := bind_eq_ok.mp h
  have hfinite : (found.getD 0.0).isFinite = true := by
    cases found with
    | none => decide +kernel
    | some y => exact numberAt?_finite hfields hfound
  dsimp only at h
  split at h
  · cases h
  · rename_i hnot
    cases h
    exact ⟨hfinite, Number.le_of_not_lt hfinite (by decide +kernel) hnot⟩

theorem boundsAt_ok {min max : Float} (h : boundsAt p fields = .ok (min, max)) :
    min.isFinite = true ∧ max.isFinite = true ∧ min ≤ max := by
  obtain ⟨low, hlow, h⟩ := bind_eq_ok.mp h
  obtain ⟨high, hhigh, h⟩ := bind_eq_ok.mp h
  have hlow' := numberAt_finite hfields hlow
  have hhigh' := numberAt_finite hfields hhigh
  split at h
  · cases h
  · rename_i hnot
    cases h
    exact ⟨hlow', hhigh', Number.le_of_not_lt hhigh' hlow' hnot⟩

theorem operandAt_ok {o : Operand} (h : operandAt p fields key = .ok o) :
    o.Finite ∧ ∀ f ∈ o.fields, IsName f := by
  unfold operandAt at h
  split at h
  · cases h
  · rename_i v hv
    split at h
    · split at h
      · cases h
      · rename_i hname
        cases h
        refine ⟨trivial, fun f hf => ?_⟩
        rw [List.mem_singleton.mp hf]
        exact Bool.eq_false_iff.mpr hname
    · rename_i x _ hx
      cases h
      exact ⟨(hfields.lookup hv).isFinite hx, fun f hf => absurd hf List.not_mem_nil⟩
    · cases h

end Numbers

theorem fieldName_ok {v : Json} {s : String} (h : fieldName p v = .ok s) : IsName s := by
  unfold fieldName at h
  split at h
  · split at h
    · cases h
    · rename_i hname
      cases h
      exact Bool.eq_false_iff.mpr hname
  · cases h

theorem fieldAt_ok {s : String} (h : fieldAt p fields key = .ok s) : IsName s := by
  unfold fieldAt at h
  split at h
  · cases h
  · exact fieldName_ok h

theorem positiveAt_ok {default n : UInt64} (h : positiveAt p fields key default = .ok n) :
    1 ≤ n := by
  obtain ⟨found, -, h⟩ := bind_eq_ok.mp h
  dsimp only at h
  split at h
  · cases h
  · rename_i hne
    cases h
    have hnat : (found.getD default).toNat ≠ 0 := fun hzero => hne (UInt64.toNat_inj.mp hzero)
    exact UInt64.le_iff_toNat_le.mpr (Nat.one_le_iff_ne_zero.mpr hnat)

/-- Items that are read come one for one. -/
theorem readItems_ok {α : Type} {read : Path → Json → Parsed α} {i : Nat} {items : List Json}
    {as : List α} (h : readItems read p i items = .ok as) :
    as.length = items.length ∧ ∀ a ∈ as, ∃ q v, read q v = .ok a := by
  induction items generalizing i as with
  | nil =>
    cases h
    exact ⟨rfl, fun a ha => absurd ha List.not_mem_nil⟩
  | cons v rest ih =>
    obtain ⟨a, ha, h⟩ := bind_eq_ok.mp h
    obtain ⟨as', has', h⟩ := bind_eq_ok.mp h
    cases h
    obtain ⟨hlen, hread⟩ := ih has'
    refine ⟨congrArg (· + 1) hlen, fun b hb => ?_⟩
    rcases List.mem_cons.mp hb with rfl | hb
    · exact ⟨_, v, ha⟩
    · exact hread b hb

/-! ### What the readers of checks have found -/

/-- What the reader of a comparison has found. -/
theorem parseCompare_cases {k : Check} (h : parseCompare p fields = .ok k) :
    ∃ left op right eps, subjectAt p fields = .ok left ∧ operandAt p fields "right" = .ok right ∧
      magnitudeAt p fields "eps" = .ok eps ∧ k = .compare left op right eps := by
  obtain ⟨-, -, h⟩ := bind_eq_ok.mp h
  obtain ⟨op, -, h⟩ := bind_eq_ok.mp h
  obtain ⟨left, hleft, h⟩ := bind_eq_ok.mp h
  obtain ⟨right, hright, h⟩ := bind_eq_ok.mp h
  obtain ⟨eps, heps, h⟩ := bind_eq_ok.mp h
  cases h
  exact ⟨left, op, right, eps, hleft, hright, heps, rfl⟩

/-- What the reader of an order of fields has found. -/
theorem parseFieldOrder_cases {k : Check} (h : parseFieldOrder p fields = .ok k) :
    ∃ direction key items names, 2 ≤ items.length ∧
      readItems fieldName (p.key key) 0 items = .ok names ∧ k = .fieldOrder direction names := by
  obtain ⟨⟨direction, key⟩, -, h⟩ := bind_eq_ok.mp h
  obtain ⟨-, -, h⟩ := bind_eq_ok.mp h
  split at h
  · rename_i items _
    split at h
    · cases h
    · rename_i hlen
      obtain ⟨names, hnames, h⟩ := bind_eq_ok.mp h
      cases h
      exact ⟨direction, key, items, names, Nat.not_lt.mp hlen, hnames, rfl⟩
  · cases h

/-- What the reader of a trend has found. -/
theorem parseTrend_cases {k : Check} (h : parseTrend p fields = .ok k) :
    ∃ direction key field n eps, fieldAt p fields key = .ok field ∧
      positiveAt p fields "n" 2 = .ok n ∧ magnitudeAt p fields "eps" = .ok eps ∧
      k = .trend direction field n eps := by
  obtain ⟨⟨direction, key⟩, -, h⟩ := bind_eq_ok.mp h
  obtain ⟨-, -, h⟩ := bind_eq_ok.mp h
  obtain ⟨field, hfield, h⟩ := bind_eq_ok.mp h
  obtain ⟨n, hn, h⟩ := bind_eq_ok.mp h
  obtain ⟨eps, heps, h⟩ := bind_eq_ok.mp h
  cases h
  exact ⟨direction, key, field, n, eps, hfield, hn, heps, rfl⟩

/-- What the reader of a range has found. -/
theorem parseRange_cases {k : Check} (h : parseRange p fields = .ok k) :
    ∃ min max timeframes adapts, boundsAt p fields = .ok (min, max) ∧
      k = .range min max timeframes adapts := by
  obtain ⟨-, -, h⟩ := bind_eq_ok.mp h
  obtain ⟨⟨min, max⟩, hbounds, h⟩ := bind_eq_ok.mp h
  obtain ⟨timeframes, -, h⟩ := bind_eq_ok.mp h
  obtain ⟨adapts, -, h⟩ := bind_eq_ok.mp h
  cases h
  exact ⟨min, max, timeframes, adapts, hbounds, rfl⟩

/-- What the reader of bounds has found. -/
theorem parseBounds_cases {k : Check} (h : parseBounds p fields = .ok k) :
    ∃ field min max, boundsAt p fields = .ok (min, max) ∧ fieldAt p fields "field" = .ok field ∧
      k = .bounds field min max := by
  obtain ⟨-, -, h⟩ := bind_eq_ok.mp h
  obtain ⟨⟨min, max⟩, hbounds, h⟩ := bind_eq_ok.mp h
  obtain ⟨field, hfield, h⟩ := bind_eq_ok.mp h
  cases h
  exact ⟨field, min, max, hbounds, hfield, rfl⟩

/-- What the reader of a derivative has found. -/
theorem parseDerivative_cases {k : Check} (h : parseDerivative p fields = .ok k) :
    ∃ field above below persist, fieldAt p fields "field" = .ok field ∧
      numberAt? p fields "derivative_gt" = .ok above ∧
      numberAt? p fields "derivative_lt" = .ok below ∧
      positiveAt p fields "persist_n" 1 = .ok persist ∧
      (∀ a b, above = some a → below = some b → ¬b ≤ a) ∧
      k = .derivative field above below persist := by
  obtain ⟨-, -, h⟩ := bind_eq_ok.mp h
  obtain ⟨above, habove, h⟩ := bind_eq_ok.mp h
  obtain ⟨below, hbelow, h⟩ := bind_eq_ok.mp h
  have hrest : (∀ a b, above = some a → below = some b → ¬b ≤ a) ∧ (do
      let persist ← positiveAt p fields "persist_n" 1
      let field ← fieldAt p fields "field"
      return Check.derivative field above below persist) = .ok k := by
    dsimp only at h
    split at h
    · split at h
      · cases h
      · rename_i hnot
        refine ⟨fun a b ha hb => ?_, h⟩
        cases ha
        cases hb
        exact hnot
    · rename_i hother
      exact ⟨fun a b ha hb => absurd hb (hother a b ha), h⟩
  obtain ⟨hroom, h⟩ := hrest
  obtain ⟨persist, hpersist, h⟩ := bind_eq_ok.mp h
  obtain ⟨field, hfield, h⟩ := bind_eq_ok.mp h
  cases h
  exact ⟨field, above, below, persist, hfield, habove, hbelow, hpersist, hroom, rfl⟩

/-- What the reader of a hysteresis has found. -/
theorem parseHysteresis_cases {k : Check} (h : parseHysteresis p fields = .ok k) :
    ∃ field level gap coolDown below above, fieldAt p fields "field" = .ok field ∧
      numberAt? p fields "level" = .ok level ∧ magnitudeAt p fields "min_gap" = .ok gap ∧
      countAt? p fields "cool_down_bars" = .ok coolDown ∧ ¬(below = true ∧ above = true) ∧
      k = .hysteresis field level gap (coolDown.getD 0) below above := by
  obtain ⟨-, -, h⟩ := bind_eq_ok.mp h
  obtain ⟨below, -, h⟩ := bind_eq_ok.mp h
  obtain ⟨above, -, h⟩ := bind_eq_ok.mp h
  have hrest : ¬(below = true ∧ above = true) ∧ (do
      let field ← fieldAt p fields "field"
      let level ← numberAt? p fields "level"
      let gap ← magnitudeAt p fields "min_gap"
      let coolDown := (← countAt? p fields "cool_down_bars").getD 0
      return Check.hysteresis field level gap coolDown below above) = .ok k := by
    dsimp only at h
    split at h
    · cases h
    · rename_i hnot
      exact ⟨Bool.and_eq_true_iff.not.mp hnot, h⟩
  obtain ⟨hflags, h⟩ := hrest
  obtain ⟨field, hfield, h⟩ := bind_eq_ok.mp h
  obtain ⟨level, hlevel, h⟩ := bind_eq_ok.mp h
  obtain ⟨gap, hgap, h⟩ := bind_eq_ok.mp h
  obtain ⟨coolDown, hcoolDown, h⟩ := bind_eq_ok.mp h
  cases h
  exact ⟨field, level, gap, coolDown, below, above, hfield, hlevel, hgap, hcoolDown, hflags, rfl⟩

/-- A check is read by one of the seven readers. -/
theorem parseCheck_cases {k : Check} (h : parseCheck p fields = .ok k) :
    parseCompare p fields = .ok k ∨ parseFieldOrder p fields = .ok k ∨
      parseTrend p fields = .ok k ∨ parseDerivative p fields = .ok k ∨
      parseHysteresis p fields = .ok k ∨ parseBounds p fields = .ok k ∨
      parseRange p fields = .ok k := by
  unfold parseCheck at h
  split at h
  · exact .inl h
  split at h
  · exact .inr (.inl h)
  split at h
  · exact .inr (.inr (.inl h))
  split at h
  · exact .inr (.inr (.inr (.inl h)))
  split at h
  · exact .inr (.inr (.inr (.inr (.inl h))))
  split at h
  · split at h
    · exact .inr (.inr (.inr (.inr (.inr (.inl h)))))
    · exact .inr (.inr (.inr (.inr (.inr (.inr h)))))
  · cases h

/-! ### What the readers of checks return -/

section Checks

variable (hfields : Json.GenuineFields fields) {k : Check}
include hfields

theorem parseCompare_ok (h : parseCompare p fields = .ok k) : k.WellFormed ∧ k.Finite := by
  obtain ⟨left, op, right, eps, hleft, hright, heps, rfl⟩ := parseCompare_cases h
  obtain ⟨hfinite, hnonneg⟩ := magnitudeAt_ok hfields heps
  obtain ⟨hright, hnamed⟩ := operandAt_ok hfields hright
  have hsubject : left.Finite ∧ ∀ f ∈ left.fields, IsName f := by
    unfold subjectAt at hleft
    split at hleft
    · obtain ⟨o, ho, rfl⟩ := map_eq_ok.mp hleft
      exact operandAt_ok hfields ho
    · obtain ⟨f, hf, rfl⟩ := map_eq_ok.mp hleft
      refine ⟨trivial, fun g hg => ?_⟩
      rw [List.mem_singleton.mp hg]
      exact fieldAt_ok hf
    · cases hleft
    · cases hleft
  exact ⟨⟨hnonneg, fun f hf => (List.mem_append.mp hf).elim (hsubject.2 f) (hnamed f)⟩,
    hsubject.1, hright, hfinite⟩

omit hfields in
theorem parseFieldOrder_ok (h : parseFieldOrder p fields = .ok k) : k.WellFormed ∧ k.Finite := by
  obtain ⟨direction, key, items, names, hlen, hnames, rfl⟩ := parseFieldOrder_cases h
  obtain ⟨hcount, hread⟩ := readItems_ok hnames
  refine ⟨⟨?_, fun f hf => ?_⟩, trivial⟩
  · rwa [Check.InOrder, hcount]
  · obtain ⟨q, v, hv⟩ := hread f hf
    exact fieldName_ok hv

theorem parseTrend_ok (h : parseTrend p fields = .ok k) : k.WellFormed ∧ k.Finite := by
  obtain ⟨direction, key, field, n, eps, hfield, hn, heps, rfl⟩ := parseTrend_cases h
  obtain ⟨hfinite, hnonneg⟩ := magnitudeAt_ok hfields heps
  refine ⟨⟨⟨positiveAt_ok hn, hnonneg⟩, fun f hf => ?_⟩, hfinite⟩
  rw [List.mem_singleton.mp hf]
  exact fieldAt_ok hfield

theorem parseDerivative_ok (h : parseDerivative p fields = .ok k) : k.WellFormed ∧ k.Finite := by
  obtain ⟨field, above, below, persist, hfield, habove, hbelow, hpersist, hroom, rfl⟩ :=
    parseDerivative_cases h
  have hfinite : ∀ a, above = some a → a.isFinite = true := by
    rintro a rfl
    exact numberAt?_finite hfields habove
  have hfinite' : ∀ b, below = some b → b.isFinite = true := by
    rintro b rfl
    exact numberAt?_finite hfields hbelow
  refine ⟨⟨⟨positiveAt_ok hpersist, ?_⟩, fun f hf => ?_⟩, hfinite, hfinite'⟩
  · intro a b ha hb
    exact Number.lt_of_not_le (hfinite' b hb) (hfinite a ha) (hroom a b ha hb)
  · rw [List.mem_singleton.mp hf]
    exact fieldAt_ok hfield

theorem parseHysteresis_ok (h : parseHysteresis p fields = .ok k) : k.WellFormed ∧ k.Finite := by
  obtain ⟨field, level, gap, coolDown, below, above, hfield, hlevel, hgap, -, hflags, rfl⟩ :=
    parseHysteresis_cases h
  obtain ⟨hfinite, hnonneg⟩ := magnitudeAt_ok hfields hgap
  refine ⟨⟨⟨hnonneg, hflags⟩, fun f hf => ?_⟩, ?_, hfinite⟩
  · rw [List.mem_singleton.mp hf]
    exact fieldAt_ok hfield
  · rintro l rfl
    exact numberAt?_finite hfields hlevel

theorem parseRange_ok (h : parseRange p fields = .ok k) : k.WellFormed ∧ k.Finite := by
  obtain ⟨min, max, timeframes, adapts, hbounds, rfl⟩ := parseRange_cases h
  obtain ⟨hmin, hmax, hle⟩ := boundsAt_ok hfields hbounds
  exact ⟨⟨hle, fun f hf => absurd hf List.not_mem_nil⟩, hmin, hmax⟩

theorem parseBounds_ok (h : parseBounds p fields = .ok k) : k.WellFormed ∧ k.Finite := by
  obtain ⟨field, min, max, hbounds, hfield, rfl⟩ := parseBounds_cases h
  obtain ⟨hmin, hmax, hle⟩ := boundsAt_ok hfields hbounds
  refine ⟨⟨hle, fun f hf => ?_⟩, hmin, hmax⟩
  rw [List.mem_singleton.mp hf]
  exact fieldAt_ok hfield

/-- **Every check that is read can be spelt**, whichever keys it is told by. -/
theorem parseCheck_ok (h : parseCheck p fields = .ok k) : k.WellFormed ∧ k.Finite := by
  rcases parseCheck_cases h with h | h | h | h | h | h | h
  · exact parseCompare_ok hfields h
  · exact parseFieldOrder_ok h
  · exact parseTrend_ok hfields h
  · exact parseDerivative_ok hfields h
  · exact parseHysteresis_ok hfields h
  · exact parseBounds_ok hfields h
  · exact parseRange_ok hfields h

/-! ### What the reader of rules returns -/

theorem parseObject_wellFormed {r : Rule} (h : parseObject p fields = .ok r) :
    r.WellFormed ∧ r.Finite := by
  unfold parseObject at h
  split at h
  · cases h
  · split at h
    · rename_i hfree
      unfold parseReference at h
      split at h
      · rename_i name v hnonempty
        obtain ⟨threshold, hthreshold, h⟩ := bind_eq_ok.mp h
        cases h
        simp only [Rule.WellFormed, Rule.Finite]
        refine ⟨fun t _ hreserved => ?_, fun t ht => ?_⟩
        · have hany : (Table.names [(name, v)]).any reservedKeys.contains = true :=
            List.any_eq_true.mpr ⟨name, List.mem_singleton_self name,
              List.contains_iff_mem.mpr hreserved⟩
          rw [hany] at hfree
          cases hfree
        · subst ht
          unfold parseThreshold at hthreshold
          split at hthreshold
          · cases hthreshold
          · cases hthreshold
            trivial
          · rename_i x _ _ hx
            cases hthreshold
            exact Json.Genuine.isFinite hfields.1 hx
          · cases hthreshold
      · cases h
    · split at h
      · cases h
      · obtain ⟨k, hk, rfl⟩ := map_eq_ok.mp h
        simp only [Rule.WellFormed, Rule.Finite]
        exact parseCheck_ok hfields hk

end Checks

theorem wellFormed_map_group {q : Quantifier} {x : Parsed (List Rule)} {r : Rule}
    (h : ∀ {rs}, x = .ok rs → rs ≠ [] ∧ WellFormedAll rs ∧ FiniteAll rs)
    (hr : x.map (.group q) = .ok r) : r.WellFormed ∧ r.Finite := by
  obtain ⟨rs, hrs, rfl⟩ := map_eq_ok.mp hr
  obtain ⟨hne, hwell, hfinite⟩ := h hrs
  simp only [WellFormed, Finite]
  exact ⟨⟨hne, hwell⟩, hfinite⟩

mutual

/-- **Every rule that is read from a genuine document can be spelt**, and its numbers are finite. -/
theorem parse_wellFormed (p : Path) : (v : Json) → v.Genuine → ∀ {r : Rule}, parse p v = .ok r →
    r.WellFormed ∧ r.Finite
  | .arr items, hv, r, hr => by
    rw [parse] at hr
    exact wellFormed_map_group (parseMembers_wellFormed p items hv) hr
  | .obj [(key, value)], hv, r, hr => by
    unfold parse at hr
    cases hq : quantifierOf? key with
    | none =>
      simp only [hq] at hr
      exact parseObject_wellFormed hv hr
    | some q =>
      cases value with
      | arr items =>
        simp only [hq] at hr
        exact wellFormed_map_group (parseMembers_wellFormed (p.key key) items hv.1) hr
      | null | bool _ | int _ | real _ | str _ | obj _ =>
        simp only [hq] at hr
        cases hr
  | .obj [], hv, r, hr => by
    simp only [parse] at hr
    rw [if_neg (by decide)] at hr
    exact parseObject_wellFormed hv hr
  | .obj (e :: e' :: rest), hv, r, hr => by
    simp only [parse] at hr
    split at hr
    · cases hr
    · exact parseObject_wellFormed hv hr
  | .str name, _, r, hr => by
    simp only [parse, parseLeaf] at hr
    split at hr
    · cases hr
    · cases hr
      simp only [WellFormed, Finite]
      refine ⟨?_, ?_⟩
      · rintro t ⟨⟩
      · rintro t ⟨⟩
  | .null, _, r, hr | .bool _, _, r, hr | .int _, _, r, hr | .real _, _, r, hr => by
    simp only [parse, parseLeaf] at hr
    cases hr

/-- The same for the members of a group. -/
theorem parseMembers_wellFormed (p : Path) : (items : List Json) → Json.GenuineItems items →
    ∀ {rs : List Rule}, parseMembers p items = .ok rs →
      rs ≠ [] ∧ WellFormedAll rs ∧ FiniteAll rs
  | [], _, rs, hrs => by
    rw [parseMembers] at hrs
    cases hrs
  | v :: rest, hv, rs, hrs => by
    rw [parseMembers] at hrs
    obtain ⟨r, hr, hrs⟩ := bind_eq_ok.mp hrs
    obtain ⟨rs', hrest, hrs⟩ := bind_eq_ok.mp hrs
    cases hrs
    obtain ⟨hwell, hfinite⟩ := parse_wellFormed (p.index 0) v hv.1 hr
    obtain ⟨hwells, hfinites⟩ := parseItems_wellFormed p 1 rest hv.2 hrest
    exact ⟨List.cons_ne_nil _ _, ⟨hwell, hwells⟩, hfinite, hfinites⟩

/-- The same for the items of a list. -/
theorem parseItems_wellFormed (p : Path) (i : Nat) : (items : List Json) →
    Json.GenuineItems items → ∀ {rs : List Rule}, parseItems p i items = .ok rs →
      WellFormedAll rs ∧ FiniteAll rs
  | [], _, rs, hrs => by
    rw [parseItems] at hrs
    cases hrs
    exact ⟨trivial, trivial⟩
  | v :: rest, hv, rs, hrs => by
    rw [parseItems] at hrs
    obtain ⟨r, hr, hrs⟩ := bind_eq_ok.mp hrs
    obtain ⟨rs', hrest, hrs⟩ := bind_eq_ok.mp hrs
    cases hrs
    obtain ⟨hwell, hfinite⟩ := parse_wellFormed (p.index i) v hv.1 hr
    obtain ⟨hwells, hfinites⟩ := parseItems_wellFormed p (i + 1) rest hv.2 hrest
    exact ⟨⟨hwell, hwells⟩, hfinite, hfinites⟩

end

end Rule

end TopDown
