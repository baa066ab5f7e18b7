import TopDown.Book.Evaluate
import TopDown.Json.Path
import TopDown.Rule.Evaluate
import TopDown.Book.Assembly

/-!
# What rules mean

A rule can be checked without a book, by going down its tree and looking up each name where it is
met. `TopDown.Means` is this reading of a rule at a place, over a registry of conditions and a table
of named rules; a `TopDown.Ruling` is what the rule comes to in a context.

The reading has one answer at most (`TopDown.Means.unique`), and none where a name is met that is
neither that of a rule nor that of a condition. `TopDown.Reaches` collects the names that are met; a
rule that has an answer is `TopDown.Grounded` in names that are `TopDown.Known`.
-/

namespace TopDown

/-! ### Rulings -/

/-- What a verdict comes to. -/
@[ext]
structure Ruling where
  /-- Data are missing. -/
  missing : Bool
  /-- The condition holds. -/
  passed : Bool
  /-- The breakdown, if the check broke down. -/
  crash : Option Crash
  deriving DecidableEq

/-- What the verdict comes to. -/
def Verdict.ruling (v : Verdict) : Ruling :=
  ⟨v.missing, v.passed, v.crash⟩

/-- **What a group comes to.** It is missing if all members are. Otherwise it asks of the members that
are not missing that all or any of them hold, and it breaks down like the first that does. -/
def Ruling.ofMembers (q : Quantifier) (members : List Ruling) : Ruling where
  missing := members.all (·.missing)
  passed :=
    match q with
    | .all => !members.all (·.missing) && members.all fun r => r.missing || r.passed
    | .any => members.any fun r => !r.missing && r.passed
  crash := members.findSome? (·.crash)

theorem decidedCount_eq_zero (vs : List Verdict) :
    Verdict.decidedCount vs = 0 ↔ (vs.map Verdict.ruling).all (·.missing) = true := by
  simp [Verdict.decidedCount, List.countP_eq_zero, Verdict.ruling]

theorem firstCrash_eq (vs : List Verdict) :
    Verdict.firstCrash vs = (vs.map Verdict.ruling).findSome? (·.crash) := by
  rw [Verdict.firstCrash, List.findSome?_map]
  rfl

theorem satisfied_eq (q : Quantifier) {vs : List Verdict} (h : Verdict.decidedCount vs ≠ 0) :
    q.satisfied vs = (Ruling.ofMembers q (vs.map Verdict.ruling)).passed := by
  have hall : (vs.map Verdict.ruling).all (·.missing) = false :=
    Bool.eq_false_iff.mpr (mt (decidedCount_eq_zero vs).mpr h)
  cases q with
  | all =>
    have hany : vs.any (fun v => !v.missing) = true := by
      simpa [Verdict.ruling] using hall
    simp only [Quantifier.satisfied, Verdict.allPassed, hany, Ruling.ofMembers, hall,
      Bool.not_false, Bool.true_and, List.all_map, List.not_any_eq_all_not]
    exact congrArg vs.all (funext fun v => by
      cases hm : v.missing <;> cases hp : v.passed <;> simp [Verdict.fails, Verdict.ruling, hm, hp])
  | any =>
    simp only [Quantifier.satisfied, Verdict.anyPassed, Ruling.ofMembers, List.any_map]
    rfl

/-- The verdict that a quantifier finds comes to what the members come to. -/
theorem ruling_combine (q : Quantifier) (members : List Labelled) :
    (q.combine members).ruling =
      Ruling.ofMembers q (members.map fun m => m.verdict.ruling) := by
  have hmap : members.map (fun m => m.verdict.ruling) =
      (members.map (·.verdict)).map Verdict.ruling := by
    rw [List.map_map]
    rfl
  rw [hmap]
  have hcrash := firstCrash_eq (members.map (·.verdict))
  by_cases h : Verdict.decidedCount (members.map (·.verdict)) = 0
  · -- all members are missing, so neither quantifier is satisfied
    have hall := (decidedCount_eq_zero _).mp h
    have hpassed : (Ruling.ofMembers q ((members.map (·.verdict)).map Verdict.ruling)).passed =
        false := by
      cases q with
      | all => simp only [Ruling.ofMembers, hall, Bool.not_true, Bool.false_and]
      | any =>
        simp only [Ruling.ofMembers]
        refine List.any_eq_false.mpr fun r hr => ?_
        have := List.all_eq_true.mp hall r hr
        simp [this]
    simp only [Quantifier.combine, if_pos h]
    exact Ruling.ext hall.symm hpassed.symm hcrash
  · have hall : ((members.map (·.verdict)).map Verdict.ruling).all (·.missing) = false :=
      Bool.eq_false_iff.mpr (mt (decidedCount_eq_zero _).mpr h)
    simp only [Quantifier.combine, if_neg h]
    exact Ruling.ext hall.symm (satisfied_eq q h) hcrash

/-! ### Reading a rule -/

/-- **What a rule at a place comes to** in a context. A name of a rule stands for the body of that
rule, a named check being checked under its own name; any other name is that of a condition. A check
that is spelt out in place goes by the text of its place. -/
inductive Means (base : Registry) (rules : Table Rule) (c : Context) : Path → Rule → Ruling → Prop
  /-- The name of a condition. -/
  | condition {p : Path} {name : String} {threshold : Option Threshold} {condition : Condition}
      (hr : rules.lookup name = none) (hb : base.find? name = some condition) :
      Means base rules c p (.reference name threshold) (condition c).ruling
  /-- The name of a check. -/
  | namedCheck {p : Path} {name : String} {threshold : Option Threshold} {k : Check}
      (hr : rules.lookup name = some (.check k)) :
      Means base rules c p (.reference name threshold) (k.evaluate name c).ruling
  /-- The name of another rule. -/
  | named {p : Path} {name : String} {threshold : Option Threshold} {r : Rule} {ruling : Ruling}
      (hr : rules.lookup name = some r) (hk : r.isCheck = false)
      (h : Means base rules c (rulePath name) r ruling) :
      Means base rules c p (.reference name threshold) ruling
  /-- A check that is spelt out. -/
  | check {p : Path} {k : Check} : Means base rules c p (.check k) (k.evaluate p.render c).ruling
  /-- A group. -/
  | group {p : Path} {q : Quantifier} {rs : List Rule} {rulings : List Ruling}
      (hlen : rulings.length = rs.length)
      (h : ∀ i r ruling, rs[i]? = some r → rulings[i]? = some ruling →
        Means base rules c ((p.key q.key).index i) r ruling) :
      Means base rules c p (.group q rs) (.ofMembers q rulings)

variable {base : Registry} {rules : Table Rule} {c : Context}

/-- Two lists of the same length that agree in every place are one. -/
theorem eq_of_getElem? {α : Type} {xs ys : List α} (hlen : xs.length = ys.length)
    (h : ∀ (i : Nat) (x y : α), xs[i]? = some x → ys[i]? = some y → x = y) : xs = ys := by
  refine List.ext_getElem hlen fun i hx hy => ?_
  exact h i _ _ (List.getElem?_eq_getElem hx) (List.getElem?_eq_getElem hy)

/-- **A rule comes to one thing.** -/
theorem Means.unique {p : Path} {r : Rule} {v v' : Ruling} (h : Means base rules c p r v)
    (h' : Means base rules c p r v') : v = v' := by
  induction h generalizing v' with
  | condition hr hb =>
    cases h' with
    | condition _ hb' =>
      rw [hb, Option.some.injEq] at hb'
      rw [hb']
    | namedCheck hr' =>
      rw [hr] at hr'
      cases hr'
    | named hr' _ _ =>
      rw [hr] at hr'
      cases hr'
  | namedCheck hr =>
    cases h' with
    | condition hr' _ =>
      rw [hr] at hr'
      cases hr'
    | namedCheck hr' =>
      rw [hr] at hr'
      cases hr'
      rfl
    | named hr' hk _ =>
      rw [hr] at hr'
      cases hr'
      cases hk
  | named hr hk _ ih =>
    cases h' with
    | condition hr' _ =>
      rw [hr] at hr'
      cases hr'
    | namedCheck hr' =>
      rw [hr] at hr'
      cases hr'
      cases hk
    | named hr' _ h' =>
      rw [hr] at hr'
      cases hr'
      exact ih h'
  | check =>
    cases h'
    rfl
  | @group p q rs rulings hlen _ ih =>
    cases h' with
    | @group _ _ _ rulings' hlen' hall =>
      congr 1
      refine eq_of_getElem? (hlen.trans hlen'.symm) fun i v v' hv hv' => ?_
      -- the rule in the same place
      obtain ⟨hi, -⟩ := List.getElem?_eq_some_iff.mp hv
      have hr : rs[i]? = some (rs.get ⟨i, hlen ▸ hi⟩) := List.getElem?_eq_getElem (hlen ▸ hi)
      exact ih i _ v hr hv (hall i _ v' hr hv')

/-! ### Names that are reached -/

/-- **The names that are met** when a rule is read: those in it, and those in the rules it names. -/
inductive Reaches (rules : Table Rule) : Rule → String → Prop
  /-- A name in the rule. -/
  | here {r : Rule} {n : String} (h : n ∈ r.references) : Reaches rules r n
  /-- A name that a rule named in it reaches. -/
  | through {r body : Rule} {n m : String} (h : n ∈ r.references)
      (hr : rules.lookup n = some body) (hm : Reaches rules body m) : Reaches rules r m

/-- The name is that of a rule or of a condition. -/
def Known (base : Registry) (rules : Table Rule) (n : String) : Prop :=
  rules.has n = true ∨ n ∈ base.names

variable {known : String → Prop}

/-- **The rule is grounded** in the known names: it reaches no others. -/
def Grounded (known : String → Prop) (rules : Table Rule) (r : Rule) : Prop :=
  ∀ n, Reaches rules r n → known n

theorem mem_referencesOfAll {rs : List Rule} {n : String} :
    n ∈ Rule.referencesOfAll rs ↔ ∃ r ∈ rs, n ∈ r.references := by
  induction rs with
  | nil => simp [Rule.referencesOfAll]
  | cons r rest ih => simp [Rule.referencesOfAll, ih]

theorem grounded_check (k : Check) : Grounded known rules (.check k) := by
  intro n h
  cases h with
  | here h => cases h
  | through h _ _ => cases h

theorem grounded_reference {name : String} {threshold : Option Threshold} :
    Grounded known rules (.reference name threshold) ↔
      known name ∧ ∀ body, rules.lookup name = some body → Grounded known rules body := by
  constructor
  · intro h
    exact ⟨h name (.here (List.mem_singleton_self name)),
      fun body hr n hn => h n (.through (List.mem_singleton_self name) hr hn)⟩
  · rintro ⟨hname, hbody⟩ n hn
    cases hn with
    | here h =>
      rw [List.mem_singleton.mp h]
      exact hname
    | through h hr hm =>
      rw [List.mem_singleton.mp h] at hr
      exact hbody _ hr n hm

theorem grounded_group {q : Quantifier} {rs : List Rule} :
    Grounded known rules (.group q rs) ↔ ∀ r ∈ rs, Grounded known rules r := by
  constructor
  · intro h r hr n hn
    cases hn with
    | here hn => exact h n (.here (mem_referencesOfAll.mpr ⟨r, hr, hn⟩))
    | through hn hbody hm => exact h n (.through (mem_referencesOfAll.mpr ⟨r, hr, hn⟩) hbody hm)
  · intro h n hn
    cases hn with
    | here hn =>
      obtain ⟨r, hr, hn⟩ := mem_referencesOfAll.mp hn
      exact h r hr n (.here hn)
    | through hn hbody hm =>
      obtain ⟨r, hr, hn⟩ := mem_referencesOfAll.mp hn
      exact h r hr n (.through hn hbody hm)

/-- **A rule that comes to something is grounded** in the names of rules and conditions. -/
theorem Means.grounded {p : Path} {r : Rule} {v : Ruling} (h : Means base rules c p r v) :
    Grounded (Known base rules) rules r := by
  induction h with
  | condition hr hb =>
    refine grounded_reference.mpr ⟨.inr ?_, fun body hbody => ?_⟩
    · exact List.mem_map.mpr ⟨_, Table.mem_of_lookup hb, rfl⟩
    · rw [hr] at hbody
      cases hbody
  | namedCheck hr =>
    refine grounded_reference.mpr ⟨.inl (by rw [Table.has, hr]; rfl), fun body hbody => ?_⟩
    rw [hr] at hbody
    cases hbody
    exact grounded_check _
  | named hr _ _ ih =>
    refine grounded_reference.mpr ⟨.inl (by rw [Table.has, hr]; rfl), fun body hbody => ?_⟩
    rw [hr] at hbody
    cases hbody
    exact ih
  | check => exact grounded_check _
  | @group p q rs rulings hlen _ ih =>
    refine grounded_group.mpr fun r hr => ?_
    obtain ⟨i, hi⟩ := List.mem_iff_getElem?.mp hr
    obtain ⟨hlt, -⟩ := List.getElem?_eq_some_iff.mp hi
    exact ih i r _ hi (List.getElem?_eq_getElem (hlen ▸ hlt))

end TopDown
