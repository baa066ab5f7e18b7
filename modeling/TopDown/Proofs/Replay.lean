import TopDown.Proofs.Selection

/-!
# Choices can be read off the audit

A decision keeps the groups that were checked on the way, and says of each whether it passed. Here it
is shown that this is enough to take the decision again. `TopDown.Book.replay` takes it from the
marks of the groups alone (`TopDown.Decision.marks`), without the facts, and
`TopDown.Book.replay_marks` says that it arrives at the same choice on the same ground. So no turn of
a selection depends on anything that the audit does not tell.

A group without rules leaves no mark. This does no harm: such a group never passes, and it is without
rules whatever the facts are.
-/

namespace TopDown

/-! ### Marks -/

/-- What the audit says of the group under a name: whether it passed, if it was checked at all. -/
def Decision.marks (d : Decision) (name : String) : Option Bool :=
  (d.groups.lookup name).map (·.passed)

/-- Whether a group passes, judged by the verdicts that are kept of it. The mandatory filters pass if
none of them fails, the rules for staying if all of them hold, and every other group if one rule
does. -/
def Station.judge (s : Station) (results : List Labelled) : Bool :=
  let verdicts := results.map (·.verdict)
  match s with
  | filters => !verdicts.any Verdict.fails
  | stay _ | stayFlat => Verdict.allPassed verdicts
  | drop _ | forbid _ | dropFlat | forbidFlat | minute => Verdict.anyPassed verdicts

namespace Station

variable {b : Book} {input : SelectionInput} {s : Station}

theorem passes_eq_judge (s : Station) : s.passes b input = s.judge (s.results b input) := by
  cases s <;> rfl

/-- Only the filters pass without rules. -/
theorem rules_ne_nil (hs : s ≠ filters) (h : s.Passes b input) : s.rules b ≠ [] := by
  intro hrules
  have hresults : s.results b input = [] := by
    rw [results, hrules]
    rfl
  unfold Passes at h
  rw [hresults] at h
  cases s with
  | filters => exact hs rfl
  | stay _ | stayFlat =>
    obtain ⟨⟨l, hl, -⟩, -⟩ := h
    exact List.not_mem_nil hl
  | drop _ | forbid _ | dropFlat | forbidFlat | minute =>
    obtain ⟨l, hl, -⟩ := h
    exact List.not_mem_nil hl

/-- The filters fail only with rules. -/
theorem filters_ne_nil (h : ¬filters.Passes b input) : filters.rules b ≠ [] := by
  intro hrules
  have hresults : filters.results b input = [] := by
    rw [results, hrules]
    rfl
  refine h fun l hl => ?_
  rw [hresults] at hl
  exact absurd hl List.not_mem_nil

end Station

section Marks

variable {b : Book} {input : SelectionInput} {choice : Choice} {ground : Ground}
  {way : List Station} {s : Station}

/-- A decision has the choice and the ground of its way, and keeps the groups on it. -/
theorem Book.Chooses.select (h : b.Chooses input choice ground way) :
    (b.select input).choice = choice ∧ (b.select input).ground = ground ∧
      (b.select input).groups = Weigh.visit b input way [] := by
  have hrun := Weigh.choice_run h []
  exact ⟨congrArg (·.1.1) hrun, congrArg (·.1.2) hrun, congrArg (·.2) hrun⟩

/-- **The mark of a group**: it is there if the group was checked and has rules, and it says whether
the group passes. -/
theorem Book.Chooses.marks_eq_some (h : b.Chooses input choice ground way) {passed : Bool} :
    (b.select input).marks s.name = some passed ↔
      s ∈ way ∧ s.rules b ≠ [] ∧ s.passes b input = passed := by
  rw [Decision.marks, h.select.2.2, Option.map_eq_some_iff]
  constructor
  · rintro ⟨r, hr, rfl⟩
    obtain ⟨t, ht, hrules, hname, rfl⟩ := lookup_visit.mp hr
    obtain rfl := Station.name_injective hname
    exact ⟨ht, hrules, rfl⟩
  · rintro ⟨hs, hrules, rfl⟩
    exact ⟨_, lookup_visit.mpr ⟨s, hs, hrules, rfl, rfl⟩, rfl⟩

/-- A group that is not that of the filters is marked as passed exactly where it was checked and
passes. -/
theorem Book.Chooses.marked_iff (h : b.Chooses input choice ground way)
    (hs : s ≠ .filters) :
    (b.select input).marks s.name = some true ↔ s ∈ way ∧ s.Passes b input := by
  rw [h.marks_eq_some, Station.passes_iff]
  exact ⟨fun ⟨hway, _, hp⟩ => ⟨hway, hp⟩, fun ⟨hway, hp⟩ => ⟨hway, Station.rules_ne_nil hs hp, hp⟩⟩

/-- The filters are marked as failed exactly where they fail. Every way comes past them. -/
theorem Book.Chooses.filters_marked_iff (h : b.Chooses input choice ground way) :
    (b.select input).marks Station.filters.name = some false ↔ ¬Station.filters.Passes b input := by
  have hway : Station.filters ∈ way := by cases h <;> exact List.mem_cons_self
  rw [h.marks_eq_some]
  constructor
  · rintro ⟨-, -, hp⟩ hpass
    rw [(Station.passes_iff b input _).mpr hpass] at hp
    cases hp
  · intro hfail
    exact ⟨hway, Station.filters_ne_nil hfail, Station.passes_eq_false b input hfail⟩

end Marks

/-! ### Taking a decision again -/

/-- The choice and its ground, read off the marks of the groups. -/
def Book.replay (b : Book) (marks : String → Option Bool) : Choice × Ground :=
  let passed (s : Station) : Bool := marks s.name = some true
  if marks Station.filters.name = some false then (.none, .filtersFailed)
  else
    match b.selection.layout with
    | .byTimeframe order _ =>
      match order.find? fun tf => passed (.stay tf) with
      | some tf => (.ofTimeframe tf, .stay tf)
      | none =>
        if passed .minute then (.m1, .minute) else (.ofTimeframe b.selection.default, .fallback)
    | .flat g =>
      if g.all.isEmpty then (.ofTimeframe b.selection.default, .noRules)
      else if passed .stayFlat then (.m15, .stayFlat)
      else if passed .forbidFlat then (.m15, .forbid)
      else if passed .dropFlat then if passed .minute then (.m1, .minute) else (.m5, .drop)
      else (.ofTimeframe b.selection.default, .fallback)

section Replay

variable {b : Book} {input : SelectionInput} {marks : String → Option Bool}

/-- Where the filters are not marked as failed, the layout decides. -/
theorem Book.replay_byTimeframe {order : List Timeframe} {groups : ByTimeframe Groups}
    (hfilters : marks Station.filters.name ≠ some false)
    (hlayout : b.selection.layout = .byTimeframe order groups) :
    b.replay marks =
      match order.find? fun tf => decide (marks (Station.stay tf).name = some true) with
      | some tf => (.ofTimeframe tf, .stay tf)
      | none =>
        if marks Station.minute.name = some true then (.m1, .minute)
        else (.ofTimeframe b.selection.default, .fallback) := by
  unfold replay
  rw [if_neg hfilters, hlayout]
  simp only [decide_eq_true_eq]

theorem Book.replay_flat {g : Groups} (hfilters : marks Station.filters.name ≠ some false)
    (hlayout : b.selection.layout = .flat g) :
    b.replay marks =
      if g.all = [] then (.ofTimeframe b.selection.default, .noRules)
      else if marks Station.stayFlat.name = some true then (.m15, .stayFlat)
      else if marks Station.forbidFlat.name = some true then (.m15, .forbid)
      else if marks Station.dropFlat.name = some true then
        if marks Station.minute.name = some true then (.m1, .minute) else (.m5, .drop)
      else (.ofTimeframe b.selection.default, .fallback) := by
  unfold replay
  rw [if_neg hfilters, hlayout]
  simp only [decide_eq_true_eq, List.isEmpty_iff]

/-- **The marks of a decision lead to it again.** -/
theorem Book.replay_marks (b : Book) (input : SelectionInput) :
    b.replay (b.select input).marks = ((b.select input).choice, (b.select input).ground) := by
  obtain ⟨choice, ground, way, h⟩ := b.exists_chooses input
  have hfilters := h.filters_marked_iff
  have hpassed (hpass : Station.filters.Passes b input) :
      (b.select input).marks Station.filters.name ≠ some false := fun hf => hfilters.mp hf hpass
  have hmarked {s : Station} (hs : s ≠ .filters) := h.marked_iff hs
  have hnot {s : Station} (hs : s ≠ .filters) (hp : ¬s.Passes b input) :
      (b.select input).marks s.name ≠ some true := fun hm => hp ((hmarked hs).mp hm).2
  have hnone {order : List Timeframe} (horder : ∀ t ∈ order, ¬(Station.stay t).Passes b input) :
      (order.find? fun t =>
        decide ((b.select input).marks (Station.stay t).name = some true)) = none :=
    List.find?_eq_none.mpr fun t ht hm =>
      hnot (by simp) (horder t ht) (of_decide_eq_true hm)
  obtain ⟨hchoice, hground, -⟩ := h.select
  rw [hchoice, hground]
  cases h with
  | filtersFailed hfailed => rw [replay, if_pos (hfilters.mpr hfailed)]
  | @stay order before after tf groups hpass hlayout horder hbefore hstay =>
    rw [replay_byTimeframe (hpassed hpass) hlayout]
    -- the timeframes before are not marked, and this one is
    have hfind : (order.find? fun t =>
        decide ((b.select input).marks (Station.stay t).name = some true)) = some tf := by
      refine List.find?_eq_some_iff_append.mpr ⟨?_, before, after, horder, fun t ht => ?_⟩
      · exact decide_eq_true ((hmarked (by simp)).mpr ⟨by simp, hstay⟩)
      · simp [hnot (s := .stay t) (by simp) (hbefore t ht)]
    rw [hfind]
  | @minute order groups hpass hlayout horder hallowed hminute =>
    rw [replay_byTimeframe (hpassed hpass) hlayout, hnone horder]
    exact if_pos ((hmarked (by simp)).mpr ⟨by simp, hminute⟩)
  | @fallback order groups hpass hlayout horder hminute =>
    rw [replay_byTimeframe (hpassed hpass) hlayout, hnone horder]
    refine if_neg fun hm => ?_
    -- one minute was looked at only if it is allowed, and then it does not pass
    obtain ⟨hway, hp⟩ := (hmarked (by simp)).mp hm
    refine hminute ?_ hp
    by_contra hallowed
    simp [hallowed, Station.ofTimeframe] at hway
  | noRules hpass hlayout hempty =>
    rw [replay_flat (hpassed hpass) hlayout, if_pos hempty]
  | stayFlat hpass hlayout hrules hstay =>
    rw [replay_flat (hpassed hpass) hlayout, if_neg hrules,
      if_pos ((hmarked (by simp)).mpr ⟨by simp, hstay⟩)]
  | minuteFlat hpass hlayout hrules hstay hdrop hforbid hallowed hminute =>
    rw [replay_flat (hpassed hpass) hlayout, if_neg hrules,
      if_neg (hnot (by simp) hstay),
      if_neg (hnot (by simp) hforbid),
      if_pos ((hmarked (by simp)).mpr ⟨by simp, hdrop⟩),
      if_pos ((hmarked (by simp)).mpr ⟨by simp, hminute⟩)]
  | drop hpass hlayout hrules hstay hdrop hforbid hminute =>
    rw [replay_flat (hpassed hpass) hlayout, if_neg hrules,
      if_neg (hnot (by simp) hstay),
      if_neg (hnot (by simp) hforbid),
      if_pos ((hmarked (by simp)).mpr ⟨by simp, hdrop⟩)]
    refine if_neg fun hm => ?_
    obtain ⟨hway, hp⟩ := (hmarked (by simp)).mp hm
    refine hminute ?_ hp
    by_contra hallowed
    simp [hallowed] at hway
  | forbid hpass hlayout hrules hstay hforbid =>
    rw [replay_flat (hpassed hpass) hlayout, if_neg hrules,
      if_neg (hnot (by simp) hstay),
      if_pos ((hmarked (by simp)).mpr ⟨by simp, hforbid⟩)]
  | fallbackFlat hpass hlayout hrules hstay hdrop hforbid =>
    rw [replay_flat (hpassed hpass) hlayout, if_neg hrules,
      if_neg (hnot (by simp) hstay),
      if_neg (hnot (by simp) hforbid),
      if_neg (hnot (by simp) hdrop)]

/-- What is kept of a group is judged by its own verdicts. -/
theorem Book.judge_of_lookup {name : String} {r : GroupRecord}
    (h : (b.select input).groups.lookup name = some r) :
    ∃ s : Station, s.name = name ∧ r.passed = s.judge r.results := by
  obtain ⟨choice, ground, way, hway⟩ := b.exists_chooses input
  rw [hway.select.2.2] at h
  obtain ⟨s, -, -, hname, rfl⟩ := lookup_visit.mp h
  exact ⟨s, hname, s.passes_eq_judge⟩

/-- **The audit tells why.** If two selections by one book mark the same groups in the same way, they
come to the same choice on the same ground. And the marks may be trusted: everything that is kept is
the record of a group, and its mark is what the verdicts that are kept with it come to. -/
theorem Book.select_replay {input' : SelectionInput}
    (h : ∀ name, (b.select input).marks name = (b.select input').marks name) :
    (b.select input).choice = (b.select input').choice ∧
      (b.select input).ground = (b.select input').ground ∧
      (∀ name r, (b.select input).groups.lookup name = some r → ∃ s : Station, s.name = name) ∧
      ∀ (s : Station) r, (b.select input).groups.lookup s.name = some r →
        r.passed = s.judge r.results := by
  have hreplay : ((b.select input).choice, (b.select input).ground) =
      ((b.select input').choice, (b.select input').ground) := by
    rw [← b.replay_marks input, ← b.replay_marks input', funext h]
  obtain ⟨hchoice, hground⟩ := Prod.mk.inj hreplay
  refine ⟨hchoice, hground, fun name r hr => ?_, fun s r hr => ?_⟩
  · obtain ⟨s, hname, -⟩ := Book.judge_of_lookup hr
    exact ⟨s, hname⟩
  · obtain ⟨t, hname, hjudge⟩ := Book.judge_of_lookup hr
    obtain rfl := Station.name_injective hname
    exact hjudge

end Replay

/-- Another signal for buying: the index is lower, but it rises too. -/
def risingLower : SelectionInput :=
  ⟨.long, .ofFacts "BTCUSDT" .m1 [("rsi", .series [10.0, 20.0, 40.0])], ByTimeframe.empty⟩

/-- It is marked like the one with the higher index, and entered on the same timeframe. -/
theorem Book.select_replay_rising : ∃ b, Book.compile .builtin (.obj twoTimeframes) = .ok b ∧
    (∀ name, (b.select risingInput).marks name = (b.select risingLower).marks name) ∧
    (b.select risingInput).choice = (b.select risingLower).choice ∧
    (b.select risingInput).ground = (b.select risingLower).ground := by
  have hmarks : ((Book.compile .builtin (.obj twoTimeframes)).toOption.map fun b =>
      (Table.mapValues GroupRecord.passed (b.select risingInput).groups,
        Table.mapValues GroupRecord.passed (b.select risingLower).groups)) =
      some ([("5m.stay_on_if", true), ("filters_mandatory", true)],
        [("5m.stay_on_if", true), ("filters_mandatory", true)]) := by decide +kernel
  obtain ⟨b, hb, hmarks⟩ := Option.map_eq_some_iff.mp hmarks
  obtain ⟨hrising, hlower⟩ := Prod.mk.inj hmarks
  have hsame (name : String) :
      (b.select risingInput).marks name = (b.select risingLower).marks name := by
    rw [Decision.marks, Decision.marks, ← Table.lookup_mapValues GroupRecord.passed,
      ← Table.lookup_mapValues GroupRecord.passed, hrising, hlower]
  obtain ⟨hchoice, hground, -⟩ := Book.select_replay hsame
  exact ⟨b, toOption_eq_some.mp hb, hsame, hchoice, hground⟩

end TopDown
