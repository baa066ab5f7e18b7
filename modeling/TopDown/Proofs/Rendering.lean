import TopDown.Proofs.WellFormed
import TopDown.Rule.Evaluate

/-!
# Every well-formed rule can be spelt

The reader returns well-formed rules only, with finite numbers
(`TopDown.Rule.parse_wellFormed`). Here is the other direction: `TopDown.Rule.render` writes any such
rule as a document that the reader reads back (`TopDown.Rule.parse_render`). Together they say exactly
which rules a configuration can spell, `TopDown.Rule.parse_image`.

A check is told by its keys, in a fixed order of preference, so a rendering must have a telling key
even where the check has nothing to say there. It therefore leaves nothing out: a bound that is not
given is written as an absent value under its key. The one reference that cannot be a text is that to
a blank name; it is an object whose only field is absent.
-/

namespace TopDown

/-! ### Writing -/

/-- A count as a document. -/
def Json.ofCount (n : UInt64) : Json :=
  .int n.toNat

/-- An operand as a document. -/
def Operand.render : Operand → Json
  | field name => .str name
  | constant x => .real x

/-- The fields of the object that spells a check. -/
def Check.render : Check → Table Json
  | compare (.operand o) op right eps =>
    [("eps", .real eps), ("left", o.render), ("op", .str op.sign), ("right", right.render)]
  | compare (.slope field) op right eps =>
    [("eps", .real eps), ("op", .str op.sign), ("right", right.render), ("slope_left", .str field)]
  | fieldOrder .up fields => [("lt_fields", .arr (fields.map .str))]
  | fieldOrder .down fields => [("gt_fields", .arr (fields.map .str))]
  | trend .up field n eps => [("eps", .real eps), ("increasing", .str field), ("n", .ofCount n)]
  | trend .down field n eps => [("decreasing", .str field), ("eps", .real eps), ("n", .ofCount n)]
  | range min max timeframes adapts =>
    [("adapt_with_vol_bucket", .bool adapts), ("max", .real max), ("min", .real min),
      ("use_atr_tf", .arr (timeframes.map fun tf => .str tf.name))]
  | hysteresis field level gap coolDown fromBelow fromAbove =>
    [("cool_down_bars", .ofCount coolDown), ("field", .str field),
      ("level", .ofOption .real level), ("min_gap", .real gap),
      ("require_prev_above", .bool fromAbove), ("require_prev_below", .bool fromBelow)]
  | derivative field above below persist =>
    [("derivative_gt", .ofOption .real above), ("derivative_lt", .ofOption .real below),
      ("field", .str field), ("persist_n", .ofCount persist)]
  | bounds field min max => [("field", .str field), ("max", .real max), ("min", .real min)]

/-- A threshold as a document. -/
def Threshold.render : Threshold → Json
  | number x => .real x
  | flag b => .bool b

namespace Rule

mutual

/-- The document that spells a rule. -/
def render : Rule → Json
  | reference name none => if Text.isAllBlank name then .obj [(name, .null)] else .str name
  | reference name (some t) => .obj [(name, t.render)]
  | group q members => .obj [(q.key, .arr (renderAll members))]
  | check k => .obj k.render

/-- The documents that spell some rules. -/
def renderAll : List Rule → List Json
  | [] => []
  | r :: rest => r.render :: renderAll rest

end

/-! ### Reading back the fields of an object -/

variable {p : Path} {fields : Table Json} {key : String}

theorem numberAt?_option {o : Option Float} (h : fields.lookup key = some (.ofOption .real o)) :
    numberAt? p fields key = .ok o := by
  cases o <;> simp only [numberAt?, Json.given?, h] <;> rfl

theorem numberAt_real {x : Float} (h : fields.lookup key = some (.real x)) :
    numberAt p fields key = .ok x := by
  rw [numberAt, numberAt?_option (o := some x) h]
  rfl

theorem magnitudeAt_real {x : Float} (h : fields.lookup key = some (.real x)) (hx : 0.0 ≤ x) :
    magnitudeAt p fields key = .ok x := by
  rw [magnitudeAt, numberAt?_option (o := some x) h]
  exact if_neg (Number.not_lt_of_le hx)

theorem boundsAt_real {min max : Float} (hmin : fields.lookup "min" = some (.real min))
    (hmax : fields.lookup "max" = some (.real max)) (hle : min ≤ max) :
    boundsAt p fields = .ok (min, max) := by
  rw [boundsAt, numberAt_real hmin, numberAt_real hmax]
  exact if_neg (Number.not_lt_of_le hle)

theorem asCount?_ofCount (n : UInt64) : (Json.ofCount n).asCount? = some n := by
  have hrange : (0 ≤ (n.toNat : Int) && (n.toNat : Int) < UInt64.size) = true := by
    rw [Bool.and_eq_true, decide_eq_true_eq, decide_eq_true_eq]
    exact ⟨Int.natCast_nonneg _, Int.ofNat_lt.mpr n.toNat_lt_size⟩
  rw [Json.ofCount, Json.asCount?, if_pos hrange, Int.toNat_natCast, UInt64.ofNat_toNat]

theorem countAt?_of_asCount? {v : Json} {n : UInt64} (h : Json.given? fields key = some v)
    (hn : v.asCount? = some n) : countAt? p fields key = .ok (some n) := by
  rw [countAt?, h]
  dsimp only
  rw [hn]

theorem countAt?_ofCount {n : UInt64} (h : fields.lookup key = some (.ofCount n)) :
    countAt? p fields key = .ok (some n) := by
  have hgiven : Json.given? fields key = some (.ofCount n) := by
    rw [Json.given?, h]
    rfl
  exact countAt?_of_asCount? hgiven (asCount?_ofCount n)

theorem positiveAt_ofCount {n default : UInt64} (h : fields.lookup key = some (.ofCount n))
    (hn : 1 ≤ n) : positiveAt p fields key default = .ok n := by
  rw [positiveAt, countAt?_ofCount h]
  refine if_neg fun hzero => ?_
  change n = 0 at hzero
  rw [hzero] at hn
  exact absurd hn (by decide)

theorem flagAt_bool {b : Bool} (h : fields.lookup key = some (.bool b)) :
    flagAt p fields key = .ok b := by
  simp only [flagAt, Json.given?, h]
  rfl

theorem fieldName_str {s : String} (hs : IsName s) : fieldName p (.str s) = .ok s :=
  if_neg (Bool.eq_false_iff.mp hs)

theorem fieldAt_str {s : String} (h : fields.lookup key = some (.str s)) (hs : IsName s) :
    fieldAt p fields key = .ok s := by
  simp only [fieldAt, Json.given?, h]
  exact fieldName_str hs

theorem operandAt_render {o : Operand} (h : fields.lookup key = some o.render)
    (ho : ∀ f ∈ o.fields, IsName f) : operandAt p fields key = .ok o := by
  cases o with
  | field name =>
    simp only [operandAt, h, Operand.render]
    exact if_neg (Bool.eq_false_iff.mp (ho name List.mem_cons_self))
  | constant x =>
    simp only [operandAt, h, Operand.render]
    rfl

/-- Items that are written one for one are read back. -/
theorem readItems_map {α : Type} {read : Path → Json → Parsed α} {write : α → Json} {as : List α}
    (h : ∀ a ∈ as, ∀ q, read q (write a) = .ok a) (p : Path) (i : Nat) :
    readItems read p i (as.map write) = .ok as := by
  induction as generalizing i with
  | nil => rfl
  | cons a rest ih =>
    rw [List.map_cons, readItems, h a List.mem_cons_self,
      ih (fun b hb => h b (List.mem_cons_of_mem a hb))]
    rfl

theorem timeframeItem_name (q : Path) (tf : Timeframe) :
    timeframeItem q (.str tf.name) = .ok tf := by
  have hparse : Timeframe.parse? tf.name = some tf := by cases tf <;> decide +kernel
  simp only [timeframeItem, Json.asText?, Option.bind_some, hparse]

/-! ### Reading back checks -/

theorem ok_bind {α β : Type} (a : α) (f : α → Parsed β) : (Except.ok a >>= f) = f a :=
  rfl

theorem parseCompare_render {left : Subject} {op : Comparison} {right : Operand} {eps : Float}
    (hk : (Check.compare left op right eps).WellFormed) (p : Path) :
    parseCompare p (Check.compare left op right eps).render = .ok (.compare left op right eps) := by
  obtain ⟨horder, hnamed⟩ := hk
  have hright : ∀ f ∈ right.fields, IsName f := fun f hf => hnamed f (List.mem_append_right _ hf)
  have hleft : ∀ f ∈ left.fields, IsName f := fun f hf => hnamed f (List.mem_append_left _ hf)
  -- all but the left side is written alike
  have hrest {fields : Table Json} (hfields : (Check.compare left op right eps).render = fields)
      (hallow : allowOnly p fields ["op", "left", "slope_left", "right", "eps"] = .ok ())
      (hop : comparisonAt p fields = .ok op) (hsubject : subjectAt p fields = .ok left)
      (hoperand : fields.lookup "right" = some right.render)
      (hmagnitude : fields.lookup "eps" = some (.real eps)) :
      parseCompare p (Check.compare left op right eps).render =
        .ok (.compare left op right eps) := by
    simp only [hfields, parseCompare, hallow, hop, hsubject, operandAt_render hoperand hright,
      magnitudeAt_real hmagnitude horder, ok_bind]
    rfl
  cases left with
  | operand o =>
    have hoperand : operandAt p (Check.compare (.operand o) op right eps).render "left"
        = .ok o := operandAt_render rfl hleft
    exact hrest rfl rfl (by cases op <;> rfl) (congrArg (Except.map Subject.operand) hoperand)
      rfl rfl
  | slope field =>
    have hfield : fieldAt p (Check.compare (.slope field) op right eps).render "slope_left"
        = .ok field := fieldAt_str rfl (hleft field List.mem_cons_self)
    exact hrest rfl rfl (by cases op <;> rfl) (congrArg (Except.map Subject.slope) hfield) rfl rfl

theorem parseFieldOrder_render {direction : Direction} {names : List String}
    (hk : (Check.fieldOrder direction names).WellFormed) (p : Path) :
    parseFieldOrder p (Check.fieldOrder direction names).render =
      .ok (.fieldOrder direction names) := by
  obtain ⟨hlen, hnamed⟩ := hk
  have hread (q : Path) : readItems fieldName q 0 (names.map .str) = .ok names :=
    readItems_map (fun f hf q => fieldName_str (hnamed f hf)) q 0
  have hmany : ¬(names.map Json.str).length < 2 := by
    rw [List.length_map]
    exact Nat.not_lt.mpr hlen
  -- only the key tells the direction
  have hrest {key : String} (hdirection : directionAt p (Check.fieldOrder direction names).render
        "lt_fields" "gt_fields" = .ok (direction, key))
      (hallow : allowOnly p (Check.fieldOrder direction names).render [key] = .ok ())
      (hitems : (Check.fieldOrder direction names).render.lookup key
        = some (.arr (names.map .str))) :
      parseFieldOrder p (Check.fieldOrder direction names).render =
        .ok (.fieldOrder direction names) := by
    simp only [parseFieldOrder, hdirection, hallow, hitems, hread, ok_bind, if_neg hmany]
    rfl
  cases direction with
  | up | down => exact hrest rfl rfl rfl

theorem parseTrend_render {direction : Direction} {field : String} {n : UInt64} {eps : Float}
    (hk : (Check.trend direction field n eps).WellFormed) (p : Path) :
    parseTrend p (Check.trend direction field n eps).render =
      .ok (.trend direction field n eps) := by
  obtain ⟨⟨hn, heps⟩, hnamed⟩ := hk
  have hname := hnamed field List.mem_cons_self
  -- all but the telling key is the same for both directions
  have hrest {key : String} (hdirection : directionAt p (Check.trend direction field n eps).render
        "increasing" "decreasing" = .ok (direction, key))
      (hallow : allowOnly p (Check.trend direction field n eps).render [key, "n", "eps"] = .ok ())
      (hfield : (Check.trend direction field n eps).render.lookup key = some (.str field))
      (hcount : (Check.trend direction field n eps).render.lookup "n" = some (.ofCount n))
      (hmagnitude : (Check.trend direction field n eps).render.lookup "eps" = some (.real eps)) :
      parseTrend p (Check.trend direction field n eps).render =
        .ok (.trend direction field n eps) := by
    simp only [parseTrend, hdirection, hallow, fieldAt_str hfield hname,
      positiveAt_ofCount hcount hn, magnitudeAt_real hmagnitude heps, ok_bind]
    rfl
  cases direction with
  | up | down => exact hrest rfl rfl rfl rfl rfl

theorem parseRange_render {min max : Float} {timeframes : List Timeframe} {adapts : Bool}
    (hk : (Check.range min max timeframes adapts).WellFormed) (p : Path) :
    parseRange p (Check.range min max timeframes adapts).render =
      .ok (.range min max timeframes adapts) := by
  have hallow : allowOnly p (Check.range min max timeframes adapts).render
      ["min", "max", "use_atr_tf", "adapt_with_vol_bucket"] = .ok () := rfl
  have hbounds : boundsAt p (Check.range min max timeframes adapts).render = .ok (min, max) :=
    boundsAt_real rfl rfl hk.inOrder
  have htimeframes : timeframesAt p (Check.range min max timeframes adapts).render "use_atr_tf"
      = .ok timeframes := readItems_map (fun tf _ q => timeframeItem_name q tf) _ 0
  have hadapts : flagAt p (Check.range min max timeframes adapts).render "adapt_with_vol_bucket"
      = .ok adapts := flagAt_bool rfl
  simp only [parseRange, hallow, hbounds, htimeframes, hadapts, ok_bind]
  rfl

theorem parseHysteresis_render {field : String} {level : Option Float} {gap : Float}
    {coolDown : UInt64} {below above : Bool}
    (hk : (Check.hysteresis field level gap coolDown below above).WellFormed) (p : Path) :
    parseHysteresis p (Check.hysteresis field level gap coolDown below above).render =
      .ok (.hysteresis field level gap coolDown below above) := by
  obtain ⟨⟨hnonneg, hflags⟩, hnamed⟩ := hk
  generalize hfields : (Check.hysteresis field level gap coolDown below above).render = fields
  have hallow : allowOnly p fields ["field", "level", "min_gap", "cool_down_bars",
      "require_prev_below", "require_prev_above"] = .ok () := by
    subst hfields
    rfl
  have hbelow : flagAt p fields "require_prev_below" = .ok below := by
    subst hfields
    exact flagAt_bool rfl
  have habove : flagAt p fields "require_prev_above" = .ok above := by
    subst hfields
    exact flagAt_bool rfl
  have hfield : fieldAt p fields "field" = .ok field := by
    subst hfields
    exact fieldAt_str rfl (hnamed field List.mem_cons_self)
  have hlevel : numberAt? p fields "level" = .ok level := by
    subst hfields
    exact numberAt?_option rfl
  have hgap : magnitudeAt p fields "min_gap" = .ok gap := by
    subst hfields
    exact magnitudeAt_real rfl hnonneg
  have hcoolDown : countAt? p fields "cool_down_bars" = .ok (some coolDown) := by
    subst hfields
    exact countAt?_ofCount rfl
  have hnot : ¬(below && above) = true := Bool.and_eq_true_iff.not.mpr hflags
  simp only [parseHysteresis, hallow, hbelow, habove, hfield, hlevel, hgap, hcoolDown, ok_bind,
    if_neg hnot]
  rfl

theorem parseDerivative_render {field : String} {above below : Option Float} {persist : UInt64}
    (hk : (Check.derivative field above below persist).WellFormed) (p : Path) :
    parseDerivative p (Check.derivative field above below persist).render =
      .ok (.derivative field above below persist) := by
  obtain ⟨⟨hpos, hroom⟩, hnamed⟩ := hk
  generalize hfields : (Check.derivative field above below persist).render = fields
  have hallow : allowOnly p fields ["field", "derivative_gt", "derivative_lt", "persist_n"]
      = .ok () := by
    subst hfields
    rfl
  have habove : numberAt? p fields "derivative_gt" = .ok above := by
    subst hfields
    exact numberAt?_option rfl
  have hbelow : numberAt? p fields "derivative_lt" = .ok below := by
    subst hfields
    exact numberAt?_option rfl
  have hpersist : positiveAt p fields "persist_n" 1 = .ok persist := by
    subst hfields
    exact positiveAt_ofCount rfl hpos
  have hfield : fieldAt p fields "field" = .ok field := by
    subst hfields
    exact fieldAt_str rfl (hnamed field List.mem_cons_self)
  simp only [parseDerivative, hallow, habove, hbelow, hpersist, hfield, ok_bind]
  cases above with
  | none => rfl
  | some a =>
    cases below with
    | none => rfl
    | some b =>
      have hnot : ¬a ≥ b := Number.not_le_of_lt (hroom a b rfl rfl)
      simp only [if_neg hnot]
      rfl

theorem parseBounds_render {field : String} {min max : Float}
    (hk : (Check.bounds field min max).WellFormed) (p : Path) :
    parseBounds p (Check.bounds field min max).render = .ok (.bounds field min max) := by
  obtain ⟨horder, hnamed⟩ := hk
  have hallow : allowOnly p (Check.bounds field min max).render ["field", "min", "max"]
      = .ok () := rfl
  have hbounds : boundsAt p (Check.bounds field min max).render = .ok (min, max) :=
    boundsAt_real rfl rfl horder
  have hfield : fieldAt p (Check.bounds field min max).render "field" = .ok field :=
    fieldAt_str rfl (hnamed field List.mem_cons_self)
  simp only [parseBounds, hallow, hbounds, hfield, ok_bind]
  rfl

/-- **The reader tells every check by its rendering.** -/
theorem parse_check {k : Check} (hk : k.WellFormed) (p : Path) :
    parse p (.obj k.render) = .ok (.check k) := by
  cases k with
  | compare left op right eps =>
    cases left with
    | operand o | slope field => exact congrArg (Except.map Rule.check) (parseCompare_render hk p)
  | fieldOrder direction fields =>
    cases direction with
    | up | down => exact congrArg (Except.map Rule.check) (parseFieldOrder_render hk p)
  | trend direction field n eps =>
    cases direction with
    | up | down => exact congrArg (Except.map Rule.check) (parseTrend_render hk p)
  | range min max timeframes adapts =>
    exact congrArg (Except.map Rule.check) (parseRange_render hk p)
  | hysteresis field level gap coolDown fromBelow fromAbove =>
    exact congrArg (Except.map Rule.check) (parseHysteresis_render hk p)
  | derivative field above below persist =>
    exact congrArg (Except.map Rule.check) (parseDerivative_render hk p)
  | bounds field min max =>
    exact congrArg (Except.map Rule.check) (parseBounds_render hk p)

/-! ### Reading back rules -/

/-- A key that belongs to no check or group is the name of a reference. -/
theorem parse_reference {name : String} (hname : name ∉ reservedKeys) (p : Path) (v : Json) :
    parse p (.obj [(name, v)]) = (parseThreshold (p.key name) v).map (.reference name) := by
  have hquantifier : quantifierOf? name = none := by
    have hall : name ≠ "all_of" := by
      rintro rfl
      exact hname (by decide)
    have hany : name ≠ "any_of" := by
      rintro rfl
      exact hname (by decide)
    rw [quantifierOf?, if_neg hall, if_neg hany]
  have hfree : (!(Table.names [(name, v)]).any reservedKeys.contains) = true := by
    simp [Table.names, hname]
  unfold parse
  simp only [hquantifier]
  rw [parseObject, if_neg (by simp), if_pos hfree, parseReference]
  cases parseThreshold (p.key name) v with
  | error e => rfl
  | ok t => rfl

theorem not_mem_reservedKeys {name : String} (hname : Text.isAllBlank name = true) :
    name ∉ reservedKeys := by
  intro hmem
  have hnames : ∀ k ∈ reservedKeys, Text.isAllBlank k = false := by decide +kernel
  rw [hnames name hmem] at hname
  cases hname

mutual

/-- **Every well-formed rule is read back from its rendering.** -/
theorem parse_render (p : Path) : (r : Rule) → r.WellFormed → parse p r.render = .ok r
  | .reference name none, _ => by
    rw [render]
    split
    · rename_i hblank
      rw [parse_reference (not_mem_reservedKeys hblank)]
      rfl
    · rename_i hname
      simp only [parse, parseLeaf]
      exact if_neg hname
  | .reference name (some t), h => by
    simp only [WellFormed] at h
    rw [render, parse_reference (h t rfl)]
    cases t with
    | number x | flag b => rfl
  | .group q members, h => by
    simp only [WellFormed] at h
    obtain ⟨hne, hwell⟩ := h
    rw [render]
    simp only [parse, quantifierOf?_key]
    cases members with
    | nil => exact absurd rfl hne
    | cons r rest =>
      rw [renderAll, parseMembers, parse_render _ r hwell.1, ok_bind,
        parseItems_renderAll _ 1 rest hwell.2]
      rfl
  | .check k, h => by
    simp only [WellFormed] at h
    rw [render]
    exact parse_check h p

/-- The same for the items of a list. -/
theorem parseItems_renderAll (p : Path) (i : Nat) : (rs : List Rule) → WellFormedAll rs →
    parseItems p i (renderAll rs) = .ok rs
  | [], _ => by rw [renderAll, parseItems]
  | r :: rest, h => by
    rw [renderAll, parseItems, parse_render _ r h.1, ok_bind,
      parseItems_renderAll _ (i + 1) rest h.2]
    rfl

end

/-! ### Renderings are documents -/

/-- Texts are ordered and genuine. -/
theorem texts_ordered {α : Type} (write : α → String) (as : List α) :
    Json.OrderedItems (as.map fun a => .str (write a)) := by
  induction as with
  | nil => trivial
  | cons a rest ih => exact ⟨trivial, ih⟩

theorem texts_genuine {α : Type} (write : α → String) (as : List α) :
    Json.GenuineItems (as.map fun a => .str (write a)) := by
  induction as with
  | nil => trivial
  | cons a rest ih => exact ⟨trivial, ih⟩

theorem operand_ordered (o : Operand) : o.render.Ordered := by
  cases o <;> trivial

theorem operand_genuine {o : Operand} (h : o.Finite) : o.render.Genuine := by
  cases o with
  | field name => trivial
  | constant x => exact h

theorem ofOption_ordered (o : Option Float) : (Json.ofOption .real o).Ordered := by
  cases o <;> trivial

theorem ofOption_genuine {o : Option Float} (h : ∀ x, o = some x → x.isFinite = true) :
    (Json.ofOption .real o).Genuine := by
  cases o with
  | none => trivial
  | some x => exact h x rfl

theorem ofCount_genuine (n : UInt64) : (Json.ofCount n).Genuine := by
  have hlt := n.toNat_lt
  refine ⟨?_, ?_⟩ <;> omega

theorem check_ordered (k : Check) : (Json.obj k.render).Ordered := by
  cases k with
  | compare left op right eps =>
    cases left with
    | operand o =>
      refine ⟨?_, trivial, operand_ordered o, trivial, operand_ordered right, trivial⟩
      change ["eps", "left", "op", "right"].Pairwise (· < ·)
      decide
    | slope field =>
      refine ⟨?_, trivial, trivial, operand_ordered right, trivial, trivial⟩
      change ["eps", "op", "right", "slope_left"].Pairwise (· < ·)
      decide
  | fieldOrder direction fields =>
    cases direction with
    | up | down => exact ⟨List.pairwise_singleton _ _, texts_ordered id fields, trivial⟩
  | trend direction field n eps =>
    cases direction with
    | up =>
      refine ⟨?_, trivial, trivial, trivial, trivial⟩
      change ["eps", "increasing", "n"].Pairwise (· < ·)
      decide
    | down =>
      refine ⟨?_, trivial, trivial, trivial, trivial⟩
      change ["decreasing", "eps", "n"].Pairwise (· < ·)
      decide
  | range min max timeframes adapts =>
    refine ⟨?_, trivial, trivial, trivial, texts_ordered Timeframe.name timeframes, trivial⟩
    change ["adapt_with_vol_bucket", "max", "min", "use_atr_tf"].Pairwise (· < ·)
    decide
  | hysteresis field level gap coolDown fromBelow fromAbove =>
    refine ⟨?_, trivial, trivial, ofOption_ordered level, trivial, trivial, trivial, trivial⟩
    change ["cool_down_bars", "field", "level", "min_gap", "require_prev_above",
      "require_prev_below"].Pairwise (· < ·)
    decide
  | derivative field above below persist =>
    refine ⟨?_, ofOption_ordered above, ofOption_ordered below, trivial, trivial, trivial⟩
    change ["derivative_gt", "derivative_lt", "field", "persist_n"].Pairwise (· < ·)
    decide
  | bounds field min max =>
    refine ⟨?_, trivial, trivial, trivial, trivial⟩
    change ["field", "max", "min"].Pairwise (· < ·)
    decide

theorem check_genuine {k : Check} (h : k.Finite) : (Json.obj k.render).Genuine := by
  cases k with
  | compare left op right eps =>
    obtain ⟨hleft, hright, heps⟩ := h
    cases left with
    | operand o => exact ⟨heps, operand_genuine hleft, trivial, operand_genuine hright, trivial⟩
    | slope field => exact ⟨heps, trivial, operand_genuine hright, trivial, trivial⟩
  | fieldOrder direction fields =>
    cases direction with
    | up | down => exact ⟨texts_genuine id fields, trivial⟩
  | trend direction field n eps =>
    cases direction with
    | up => exact ⟨h, trivial, ofCount_genuine n, trivial⟩
    | down => exact ⟨trivial, h, ofCount_genuine n, trivial⟩
  | range min max timeframes adapts =>
    exact ⟨trivial, h.2, h.1, texts_genuine Timeframe.name timeframes, trivial⟩
  | hysteresis field level gap coolDown fromBelow fromAbove =>
    exact ⟨ofCount_genuine coolDown, trivial, ofOption_genuine h.1, h.2, trivial, trivial, trivial⟩
  | derivative field above below persist =>
    exact ⟨ofOption_genuine h.1, ofOption_genuine h.2, trivial, ofCount_genuine persist, trivial⟩
  | bounds field min max => exact ⟨trivial, h.2, h.1, trivial⟩

/-- An object of one field is ordered if the value is. -/
theorem single_ordered {name : String} {v : Json} (h : v.Ordered) :
    (Json.obj [(name, v)]).Ordered :=
  ⟨List.pairwise_singleton _ _, h, trivial⟩

mutual

theorem render_ordered : (r : Rule) → r.render.Ordered
  | .reference name none => by
    rw [render]
    split
    · exact single_ordered trivial
    · trivial
  | .reference name (some t) => by
    rw [render]
    cases t with
    | number x | flag b => exact single_ordered trivial
  | .group q members => by
    rw [render]
    exact single_ordered (renderAll_ordered members)
  | .check k => by
    rw [render]
    exact check_ordered k

theorem renderAll_ordered : (rs : List Rule) → Json.OrderedItems (renderAll rs)
  | [] => by
    rw [renderAll]
    trivial
  | r :: rest => by
    rw [renderAll]
    exact ⟨render_ordered r, renderAll_ordered rest⟩

end

mutual

theorem render_genuine : (r : Rule) → r.Finite → r.render.Genuine
  | .reference name none, _ => by
    rw [render]
    split
    · exact ⟨trivial, trivial⟩
    · trivial
  | .reference name (some t), h => by
    simp only [Finite] at h
    have ht := h t rfl
    rw [render]
    cases t with
    | number x => exact ⟨ht, trivial⟩
    | flag b => exact ⟨trivial, trivial⟩
  | .group q members, h => by
    simp only [Finite] at h
    rw [render]
    exact ⟨renderAll_genuine members h, trivial⟩
  | .check k, h => by
    simp only [Finite] at h
    rw [render]
    exact check_genuine h

theorem renderAll_genuine : (rs : List Rule) → FiniteAll rs → Json.GenuineItems (renderAll rs)
  | [], _ => by
    rw [renderAll]
    trivial
  | r :: rest, h => by
    rw [renderAll]
    exact ⟨render_genuine r h.1, renderAll_genuine rest h.2⟩

end

/-! ### Exactly the well-formed rules -/

/-- **What the reader returns, at any place, are exactly the well-formed rules with finite
numbers.** It returns no others from a genuine document, and each of them from some document in
order. -/
theorem parse_image (p : Path) (r : Rule) :
    (∀ v : Json, v.Genuine → parse p v = .ok r → r.WellFormed ∧ r.Finite) ∧
    (r.WellFormed ∧ r.Finite → ∃ v : Json, v.Ordered ∧ v.Genuine ∧ parse p v = .ok r) :=
  ⟨fun v hv hr => parse_wellFormed p v hv hr, fun h =>
    ⟨r.render, render_ordered r, render_genuine r h.2, parse_render p r h.1⟩⟩

/-- A group whose derivative has no bound can be spelt, though its object has to have a telling
key. -/
theorem parse_image_derivative :
    (Rule.group .any [.reference "rsi" (some (.number 50.0)),
      .check (.derivative "macd" none none 1)]).WellFormed ∧
    ∃ v : Json, v.Ordered ∧ v.Genuine ∧ parse [.key "r"] v =
      .ok (.group .any [.reference "rsi" (some (.number 50.0)),
        .check (.derivative "macd" none none 1)]) := by
  have hwell : (Rule.group .any [.reference "rsi" (some (.number 50.0)),
      .check (.derivative "macd" none none 1)]).WellFormed := by
    simp only [WellFormed, WellFormedAll, and_true]
    refine ⟨List.cons_ne_nil _ _, fun t _ => by decide, ⟨⟨by decide, ?_⟩, ?_⟩⟩
    · rintro a b ⟨⟩
    · intro f hf
      rw [List.mem_singleton.mp hf]
      decide +kernel
  have hfinite : (Rule.group .any [.reference "rsi" (some (.number 50.0)),
      .check (.derivative "macd" none none 1)]).Finite := by
    simp only [Finite, FiniteAll, and_true]
    refine ⟨?_, ?_, ?_⟩
    · rintro t ⟨⟩
      change Float.isFinite 50.0 = true
      decide +kernel
    · rintro a ⟨⟩
    · rintro b ⟨⟩
  exact ⟨hwell, (parse_image _ _).2 ⟨hwell, hfinite⟩⟩

/-- The check has its numbers in order, and they are finite, but no document spells it. -/
def Unspelt (k : Check) : Prop :=
  k.InOrder ∧ k.Finite ∧ ¬∃ (p : Path) (v : Json), v.Genuine ∧ parse p v = .ok (.check k)

/-- A check on a field without a name is not spelt, whatever its numbers. -/
theorem unspelt_of_blank {k : Check} (horder : k.InOrder) (hfinite : k.Finite)
    (hblank : "" ∈ k.fields) : Unspelt k := by
  refine ⟨horder, hfinite, ?_⟩
  rintro ⟨p, v, hv, h⟩
  have hwell := (parse_wellFormed p v hv h).1
  simp only [WellFormed] at hwell
  exact absurd (hwell.named "" hblank) (by decide)

/-- **A hysteresis, a derivative and bounds need a field with a name**: with numbers in order alone
no document spells them. -/
theorem blank_fields_not_spelt :
    Unspelt (.hysteresis "" none 0.0 0 false false) ∧ Unspelt (.derivative "" none none 1) ∧
      Unspelt (.bounds "" 0.0 0.0) := by
  have hzero : (0.0 : Float).isFinite = true := by decide +kernel
  have hle : (0.0 : Float) ≤ 0.0 := by decide +kernel
  refine ⟨unspelt_of_blank ⟨hle, by decide⟩ ⟨?_, hzero⟩ List.mem_cons_self,
    unspelt_of_blank ⟨by decide, ?_⟩ ⟨?_, ?_⟩ List.mem_cons_self,
    unspelt_of_blank hle ⟨hzero, hzero⟩ List.mem_cons_self⟩
  · rintro l ⟨⟩
  · rintro a b ⟨⟩
  · rintro a ⟨⟩
  · rintro b ⟨⟩

end Rule

end TopDown
