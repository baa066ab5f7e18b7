import TopDown.Gate
import TopDown.Proofs.Namesakes
import TopDown.Proofs.WellFormed
import TopDown.Proofs.Windows

/-!
# Counts of bars

A configuration counts bars under four keys (`TopDown.Json.countKeys`). Its counts have up to 64 bits,
and what is computed from them need not fit: a window has one or two values more than the count that it
is made from, and the bars that are missing are counted as a signed number of 32 bits. If all counts of
a configuration are short (`TopDown.Json.ShortCounts`), nothing of this happens.

For a compiled book this means two things. The bars that it asks for are short, and there is at least
one of them (`TopDown.Book.compile_minBars`). And no rule of it breaks down
(`TopDown.Book.compile_evaluate_crash`). The second cannot be told from the registry, where only the
conditions are left and not the checks; so we go back to the rules that are made, of which
`TopDown.Taken` says where they stand in the configuration.
-/

namespace TopDown

/-! ### Documents -/

/-- The count fits into 31 bits. -/
def IsShort (n : UInt64) : Prop :=
  n.toNat < 2 ^ 31

instance (n : UInt64) : Decidable (IsShort n) :=
  inferInstanceAs (Decidable (_ < _))

namespace Json

/-- The keys under which a configuration counts bars. -/
def countKeys : List String :=
  ["min_bars", "n", "persist_n", "cool_down_bars"]

mutual

/-- **The counts of the document are short**, wherever in it they stand. -/
def ShortCounts : Json → Prop
  | .arr items => ShortCountsItems items
  | .obj fields => ShortCountsFields fields
  | .null | .bool _ | .int _ | .real _ | .str _ => True

/-- The counts of every item are short. -/
def ShortCountsItems : List Json → Prop
  | [] => True
  | v :: rest => v.ShortCounts ∧ ShortCountsItems rest

/-- The counts among the fields are short, and those of every value. -/
def ShortCountsFields : List (String × Json) → Prop
  | [] => True
  | (key, v) :: rest =>
    (key ∈ countKeys → ∀ n, v.asCount? = some n → IsShort n) ∧
      v.ShortCounts ∧ ShortCountsFields rest

end

/-- What holds of the fields holds of each of them. -/
theorem ShortCountsFields.mem {fields : Table Json} (h : ShortCountsFields fields) {key : String}
    {v : Json} (hmem : (key, v) ∈ fields) :
    (key ∈ countKeys → ∀ n, v.asCount? = some n → IsShort n) ∧ v.ShortCounts := by
  induction fields with
  | nil => cases hmem
  | cons e rest ih =>
    rcases List.mem_cons.mp hmem with rfl | hmem
    · exact ⟨h.1, h.2.1⟩
    · exact ih h.2.2 hmem

/-- A count that is given under one of the keys is short. -/
theorem ShortCountsFields.isShort {fields : Table Json} (h : ShortCountsFields fields) {key : String}
    (hkey : key ∈ countKeys) {v : Json} (hv : given? fields key = some v) {n : UInt64}
    (hn : v.asCount? = some n) : IsShort n :=
  (h.mem (Table.mem_of_lookup (lookup_of_given? hv))).1 hkey n hn

theorem ShortCountsItems.mem {items : List Json} (h : ShortCountsItems items) {v : Json}
    (hmem : v ∈ items) : v.ShortCounts := by
  induction items with
  | nil => cases hmem
  | cons w rest ih =>
    rcases List.mem_cons.mp hmem with rfl | hmem
    · exact h.1
    · exact ih h.2 hmem

theorem ShortCounts.step? {v w : Json} (h : v.ShortCounts) {s : Step} (hw : v.step? s = some w) :
    w.ShortCounts := by
  cases v with
  | obj fields =>
    cases s with
    | key name => exact (ShortCountsFields.mem h (Table.mem_of_lookup hw)).2
    | index i => cases hw
  | arr items =>
    cases s with
    | key name => cases hw
    | index i => exact ShortCountsItems.mem h (List.mem_of_getElem? hw)
  | null | bool _ | int _ | real _ | str _ => cases hw

/-- The parts of a document have short counts too. -/
theorem ShortCounts.at? {v w : Json} {p : Path} (h : v.ShortCounts) (hw : v.at? p = some w) :
    w.ShortCounts := by
  induction p generalizing v with
  | nil =>
    cases hw
    exact h
  | cons s p ih =>
    obtain ⟨u, hu, hw⟩ := Option.bind_eq_some_iff.mp hw
    exact ih (h.step? hu) hw

theorem ShortCounts.fieldsAt {v : Json} (h : v.ShortCounts) (p : Path) :
    ShortCountsFields (v.fieldsAt p) := by
  unfold Json.fieldsAt
  split
  · rename_i fields hv
    exact h.at? hv
  · exact trivial

end Json

/-! ### Rules -/

namespace Rule

mutual

/-- **The windows of all checks in the rule can be counted.** -/
def Countable : Rule → Prop
  | reference _ _ => True
  | group _ members => CountableAll members
  | check k => k.Countable

/-- The windows of all checks in the rules can be counted. -/
def CountableAll : List Rule → Prop
  | [] => True
  | r :: rest => r.Countable ∧ CountableAll rest

end

theorem CountableAll.of_getElem? {rs : List Rule} (h : CountableAll rs) {i : Nat} {r : Rule}
    (hr : rs[i]? = some r) : r.Countable := by
  induction rs generalizing i with
  | nil => cases hr
  | cons r' rest ih =>
    cases i with
    | zero =>
      cases hr
      exact h.1
    | succ i => exact ih h.2 hr

variable {p : Path} {fields : Table Json} {key : String} {k : Check}

theorem countAt?_short (hshort : Json.ShortCountsFields fields) (hkey : key ∈ Json.countKeys)
    {n : UInt64} (h : countAt? p fields key = .ok (some n)) : IsShort n := by
  unfold countAt? at h
  split at h
  · cases h
  · rename_i v hv
    split at h
    · rename_i m _ hcount
      cases h
      exact hshort.isShort hkey hv hcount
    · cases h
    · cases h

/-- A count that may be left out is short if what stands for it then is. -/
theorem getD_short (hshort : Json.ShortCountsFields fields) (hkey : key ∈ Json.countKeys)
    {count : Option UInt64} (h : countAt? p fields key = .ok count) {default : UInt64}
    (hdefault : IsShort default) : IsShort (count.getD default) := by
  cases count with
  | none => exact hdefault
  | some n => exact countAt?_short hshort hkey h

theorem positiveAt_short (hshort : Json.ShortCountsFields fields) (hkey : key ∈ Json.countKeys)
    {n default : UInt64} (h : positiveAt p fields key default = .ok n) (hdefault : IsShort default) :
    IsShort n := by
  obtain ⟨count, hcount, h⟩ := bind_eq_ok.mp h
  dsimp only at h
  split at h
  · cases h
  · cases h
    exact getD_short hshort hkey hcount hdefault

/-- A short count leaves room for what is added to it. -/
theorem lt_size_of_isShort {n : UInt64} (h : IsShort n) : n.toNat + 2 < UInt64.size := by
  unfold IsShort at h
  simp only [UInt64.size]
  omega

/-- **The window of a check can be counted** if the counts of its object are short. -/
theorem parseCheck_countable (hshort : Json.ShortCountsFields fields)
    (h : parseCheck p fields = .ok k) : k.Countable := by
  rcases parseCheck_cases h with h | h | h | h | h | h | h
  · obtain ⟨_, _, _, _, -, -, -, rfl⟩ := parseCompare_cases h
    exact trivial
  · obtain ⟨_, _, _, _, -, -, rfl⟩ := parseFieldOrder_cases h
    exact trivial
  · obtain ⟨_, _, _, n, _, -, hn, -, rfl⟩ := parseTrend_cases h
    exact Nat.lt_of_succ_lt
      (lt_size_of_isShort (positiveAt_short hshort (by decide) hn (by decide)))
  · obtain ⟨_, _, _, persist, -, -, -, hpersist, -, rfl⟩ := parseDerivative_cases h
    exact Nat.lt_of_succ_lt
      (lt_size_of_isShort (positiveAt_short hshort (by decide) hpersist (by decide)))
  · obtain ⟨_, _, _, coolDown, _, _, -, -, -, hcoolDown, -, rfl⟩ := parseHysteresis_cases h
    exact lt_size_of_isShort (getD_short hshort (by decide) hcoolDown (by decide))
  · obtain ⟨_, _, _, -, -, rfl⟩ := parseBounds_cases h
    exact trivial
  · obtain ⟨_, _, _, _, -, rfl⟩ := parseRange_cases h
    exact trivial

theorem parseObject_countable (hshort : Json.ShortCountsFields fields) {r : Rule}
    (h : parseObject p fields = .ok r) : r.Countable := by
  rcases parseObject_ok h with ⟨name, threshold, rfl, -⟩ | ⟨_, k, heq, hk, rfl⟩
  · exact trivial
  · cases heq
    exact parseCheck_countable hshort hk

mutual

/-- **The windows of a rule can be counted** if the counts of the document are short. -/
theorem countable_of_parse {p : Path} {r : Rule} :
    (v : Json) → v.ShortCounts → parse p v = .ok r → r.Countable
  | .arr items, hshort, h => by
    rw [parse] at h
    obtain ⟨rs, hrs, rfl⟩ := map_eq_ok.mp h
    exact countableAll_of_parseMembers items hshort hrs
  | .obj [(key, value)], hshort, h => by
    rw [parse] at h
    cases hq : quantifierOf? key with
    | none =>
      rw [hq] at h
      exact parseObject_countable hshort h
    | some q =>
      rw [hq] at h
      cases value with
      | arr items =>
        obtain ⟨rs, hrs, rfl⟩ := map_eq_ok.mp h
        exact countableAll_of_parseMembers items hshort.2.1 hrs
      | null | bool _ | int _ | real _ | str _ | obj _ => cases h
  | .obj [], hshort, h => by
    simp only [parse] at h
    split at h
    · cases h
    · exact parseObject_countable hshort h
  | .obj (e :: e' :: rest), hshort, h => by
    simp only [parse] at h
    split at h
    · cases h
    · exact parseObject_countable hshort h
  | .str name, _, h => by
    simp only [parse, parseLeaf] at h
    split at h
    · cases h
    · cases h
      exact trivial
  | .null, _, h | .bool _, _, h | .int _, _, h | .real _, _, h => by
    simp only [parse, parseLeaf] at h
    cases h

/-- The same for the members of a group. -/
theorem countableAll_of_parseMembers {p : Path} {rs : List Rule} :
    (items : List Json) → Json.ShortCountsItems items → parseMembers p items = .ok rs → CountableAll rs
  | [], _, h => by cases h
  | v :: rest, hshort, h => by
    rw [parseMembers] at h
    obtain ⟨r, hr, h⟩ := bind_eq_ok.mp h
    obtain ⟨rs', hrs, h⟩ := bind_eq_ok.mp h
    cases h
    exact ⟨countable_of_parse v hshort.1 hr, countableAll_of_parseItems rest hshort.2 hrs⟩

/-- The same for the items of a list. -/
theorem countableAll_of_parseItems {p : Path} {i : Nat} {rs : List Rule} :
    (items : List Json) → Json.ShortCountsItems items → parseItems p i items = .ok rs → CountableAll rs
  | [], _, h => by
    cases h
    exact trivial
  | v :: rest, hshort, h => by
    rw [parseItems] at h
    obtain ⟨r, hr, h⟩ := bind_eq_ok.mp h
    obtain ⟨rs', hrs, h⟩ := bind_eq_ok.mp h
    cases h
    exact ⟨countable_of_parse v hshort.1 hr, countableAll_of_parseItems rest hshort.2 hrs⟩

end

theorem countableAll_of_parseList {v : Json} {rs : List Rule} (hshort : v.ShortCounts)
    (h : parseList p v = .ok rs) : CountableAll rs := by
  cases v with
  | arr items => exact countableAll_of_parseItems items hshort h
  | null =>
    cases h
    exact trivial
  | bool _ | int _ | real _ | str _ | obj _ => cases h

end Rule

theorem countable_of_parseNamed {fields : Table Json} {rules : Table Rule}
    (hshort : Json.ShortCountsFields fields) (h : parseNamed fields = .ok rules) {name : String}
    {r : Rule} (hr : rules.lookup name = some r) : r.Countable := by
  induction fields generalizing rules with
  | nil =>
    cases h
    cases hr
  | cons e rest ih =>
    obtain ⟨n, v⟩ := e
    obtain ⟨body, hbody, h⟩ := bind_eq_ok.mp h
    obtain ⟨rs, hrs, h⟩ := bind_eq_ok.mp h
    cases h
    by_cases hname : name = n
    · subst hname
      rw [List.lookup_cons_self, Option.some.injEq] at hr
      subst hr
      exact Rule.countable_of_parse v hshort.2.1 hbody
    · rw [Table.lookup_cons_of_ne hname] at hr
      exact ih hshort.2.2 hrs hr

/-! ### Compiled books -/

section Compiled

variable {base : Registry} {root : Table Json} {rules : Table Rule} {b : Book}

/-- The rules that are made can count their windows. -/
theorem Taken.countable (hshort : (Json.obj root).ShortCounts)
    (hparsed : parseNamed (ruleBodies root) = .ok rules) {p : Path} {r : Rule}
    (h : Taken root rules p r) : r.Countable := by
  induction h with
  | @item p rs i r _ hrs hr =>
    unfold rulesAt at hrs
    split at hrs
    · cases hrs
      cases hr
    · rename_i v hv
      exact (Rule.countableAll_of_parseList (hshort.at? hv) (toOption_eq_some.mp hrs)).of_getElem? hr
  | body hr =>
    rw [ruleBodies_eq] at hparsed
    exact countable_of_parseNamed (hshort.fieldsAt _) hparsed hr
  | member _ hr ih => exact Rule.CountableAll.of_getElem? ih hr

theorem GoesBy.countable (hshort : (Json.obj root).ShortCounts)
    (hparsed : parseNamed (ruleBodies root) = .ok rules) {name : String} {k : Check}
    (h : GoesBy root rules name k) : k.Countable := by
  cases h with
  | named hk => exact (Taken.body hk).countable hshort hparsed
  | spelt htaken _ _ => exact htaken.countable hshort hparsed

variable {config : Json}

/-- **No rule of a compiled book breaks down** if the counts of the configuration are short and the
conditions of the base do not break down. -/
theorem Book.compile_evaluate_crash (hordered : config.Ordered) (hshort : config.ShortCounts)
    (hbase : base.Steady) (h : compile base config = .ok b) (c : Context) {id : Node.Id}
    (hid : id < b.nodes.size) : (b.evaluate c id).crash = none := by
  cases config with
  | obj root =>
    obtain ⟨rules, hparsed, hsourced, -⟩ := compile_sourced hordered h
    refine (compile_coherent h).evaluate_crash (fun name k hk => ?_) c hid
    rcases hsourced.conditions name k hk with ⟨check, hcheck, rfl⟩ | ⟨-, hold⟩
    · exact Check.steady (hcheck.countable hshort hparsed) name
    · exact hbase _ (Table.mem_of_lookup hold)
  | null | bool _ | int _ | real _ | str _ | arr _ => cases h

theorem minBarsOf_ok {p : Path} {block : Table Json} (hshort : Json.ShortCountsFields block)
    {n : UInt64} {a a' : Assembly} (h : minBarsOf p block a = .ok (n, a')) :
    0 < n.toNat ∧ IsShort n := by
  unfold minBarsOf at h
  cases hg : Json.given? block "min_bars" with
  | none =>
    rw [hg] at h
    obtain ⟨rfl, -⟩ := Assemble.pure_eq_ok.mp h
    decide
  | some v =>
    cases hcount : v.asCount? with
    | none =>
      simp only [hg, hcount] at h
      exact absurd h Assemble.fail_ne_ok
    | some m =>
      simp only [hg, hcount] at h
      split at h
      · exact absurd h Assemble.fail_ne_ok
      · rename_i hne
        obtain ⟨rfl, -⟩ := Assemble.pure_eq_ok.mp h
        exact ⟨Nat.pos_of_ne_zero fun hzero => hne (UInt64.toNat_inj.mp hzero),
          hshort.isShort (by decide) hg hcount⟩

theorem assembleBlock_minBars {p : Path} {v : Json} (hshort : v.ShortCounts) {block : Block}
    {a a' : Assembly} (h : assembleBlock rules p v a = .ok (block, a')) :
    0 < block.minBars.toNat ∧ IsShort block.minBars := by
  cases v with
  | obj fields =>
    obtain ⟨minBars, a₁, hmin, h⟩ := Assemble.bind_eq_ok.mp h
    obtain ⟨grace, a₂, -, h⟩ := Assemble.bind_eq_ok.mp h
    obtain ⟨long, a₃, -, h⟩ := Assemble.bind_eq_ok.mp h
    obtain ⟨short, a₄, -, h⟩ := Assemble.bind_eq_ok.mp h
    split at h
    · obtain ⟨rfl, -⟩ := Assemble.pure_eq_ok.mp h
      exact minBarsOf_ok hshort hmin
    · cases h
  | null | bool _ | int _ | real _ | str _ | arr _ => exact absurd h Assemble.fail_ne_ok

/-- Of two keys that spell a timeframe the later one counts, but each asks for short counts. -/
theorem assembleBlocks_minBars {p : Path} {fields : Table Json}
    (hshort : Json.ShortCountsFields fields) {former m : ByTimeframe Block} {a a' : Assembly}
    (h : assembleBlocks rules p former fields a = .ok (m, a'))
    (hformer : ∀ tf block, former tf = some block → 0 < block.minBars.toNat ∧ IsShort block.minBars) :
    ∀ tf block, m tf = some block → 0 < block.minBars.toNat ∧ IsShort block.minBars := by
  induction fields generalizing a former with
  | nil =>
    obtain ⟨rfl, -⟩ := Assemble.pure_eq_ok.mp h
    exact hformer
  | cons e rest ih =>
    obtain ⟨key, v⟩ := e
    obtain ⟨tf, a₁, -, h⟩ := Assemble.bind_eq_ok.mp h
    obtain ⟨block, a₂, hblock, h⟩ := Assemble.bind_eq_ok.mp h
    refine ih hshort.2.2 h fun t found hfound => ?_
    unfold ByTimeframe.set at hfound
    split at hfound
    · cases hfound
      exact assembleBlock_minBars hshort.2.1 hblock
    · exact hformer t found hfound

/-- **A compiled book asks for one bar at least**, and for no more than can be counted. -/
theorem Book.compile_minBars (hshort : config.ShortCounts) (h : compile base config = .ok b)
    (tf : Timeframe) : 0 < (b.minBars tf).toNat ∧ IsShort (b.minBars tf) := by
  cases config with
  | obj root =>
    obtain ⟨rules, a₁, a₂, -, -, -, -, hvalidation, -⟩ := compile_cases h
    obtain ⟨fields, blocks, hfields, hblocks, hm⟩ := assembleValidation_cases hvalidation
    have hsection := (hshort.mem (Table.mem_of_lookup hfields)).2
    have hall := (Json.ShortCountsFields.mem hsection (Table.mem_of_lookup hblocks)).2
    have hcounts := assembleBlocks_minBars hall hm fun tf block hnone => by cases hnone
    unfold Book.minBars
    split
    · rename_i block hblock
      exact hcounts tf block hblock
    · decide
  | null | bool _ | int _ | real _ | str _ | arr _ => cases h

end Compiled

end TopDown
