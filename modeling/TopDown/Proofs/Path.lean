import Mathlib.Data.List.TakeWhile
import Std.Data.String.ToNat
import TopDown.Json.Path
import TopDown.Timeframe

/-!
# Places can be told by how they are shown

A place in a document is shown as one text, in which keys are set apart by points and positions stand
in brackets. As long as no key has a point or an opening bracket in it, the text says which place it
is: `TopDown.Path.render_injective`. The book relies on it, because it registers a check that is spelt
out in place under the text of that place.

The names of timeframes and conditions are plain in this sense; those of rules are what their author
makes them.
-/

namespace TopDown

/-- The character begins a step of a place that is shown. -/
def opensStep (c : Char) : Bool :=
  c = '.' || c = '['

/-- **The text is plain**: it has no character in it that begins a step. -/
def Plain (s : String) : Prop :=
  ∀ c ∈ s.toList, opensStep c = false

instance (s : String) : Decidable (Plain s) :=
  List.decidableBAll _ s.toList

/-! ### Cutting at the first stop -/

/-- A text is cut in one way into a part without stops and a rest that is empty or begins with a
stop. -/
theorem append_inj_of_stop {stop : Char → Bool} {a b r s : List Char}
    (ha : ∀ c ∈ a, stop c = false) (hb : ∀ c ∈ b, stop c = false)
    (hr : ∀ c ∈ r.head?, stop c = true) (hs : ∀ c ∈ s.head?, stop c = true)
    (h : a ++ r = b ++ s) : a = b ∧ r = s := by
  induction a generalizing b with
  | nil =>
    cases b with
    | nil => exact ⟨rfl, h⟩
    | cons c b =>
      -- the rest on the left begins with a character that is no stop
      rw [List.nil_append] at h
      rw [h] at hr
      have := hb c List.mem_cons_self
      rw [hr c rfl] at this
      cases this
  | cons c a ih =>
    cases b with
    | nil =>
      rw [List.nil_append] at h
      rw [← h] at hs
      have := ha c List.mem_cons_self
      rw [hs c rfl] at this
      cases this
    | cons d b =>
      rw [List.cons_append, List.cons_append, List.cons.injEq] at h
      obtain ⟨rfl, h⟩ := h
      obtain ⟨rfl, rfl⟩ := ih (fun c hc => ha c (List.mem_cons_of_mem _ hc))
        (fun c hc => hb c (List.mem_cons_of_mem _ hc)) h
      exact ⟨rfl, rfl⟩

namespace Path

/-! ### The characters of a place -/

/-- The characters of a step that is not the first. -/
def stepChars : Step → List Char
  | .key name => '.' :: name.toList
  | .index i => '[' :: ((toString i).toList ++ [']'])

theorem renderStep_toList {shown : String} (h : shown ≠ "") (s : Step) :
    (renderStep shown s).toList = shown.toList ++ stepChars s := by
  cases s with
  | key name =>
    have hne : shown.isEmpty = false := by simpa using h
    simp [renderStep, stepChars, hne]
  | index i => simp [renderStep, stepChars]

theorem renderStep_ne {shown : String} (h : shown ≠ "") (s : Step) : renderStep shown s ≠ "" := by
  intro hnil
  have := congrArg String.toList hnil
  rw [renderStep_toList h] at this
  simp [h] at this

theorem foldl_toList {shown : String} (h : shown ≠ "") (p : Path) :
    (p.foldl renderStep shown).toList = shown.toList ++ p.flatMap stepChars := by
  induction p generalizing shown with
  | nil => simp
  | cons s p ih =>
    rw [List.foldl_cons, ih (renderStep_ne h s), renderStep_toList h, List.flatMap_cons,
      List.append_assoc]

/-- **The steps of the place are legible**: it begins with a key that is not empty, and all of its
keys are plain. -/
def Legible : Path → Prop
  | .key name :: p => name ≠ "" ∧ Plain name ∧ ∀ k, Step.key k ∈ p → Plain k
  | _ => False

theorem render_toList {name : String} (h : name ≠ "") (p : Path) :
    (render (.key name :: p)).toList = name.toList ++ p.flatMap stepChars := by
  have hfirst : renderStep "" (.key name) = name := by simp [renderStep]
  rw [render, List.foldl_cons, hfirst, foldl_toList h]

/-! ### Reading a place back -/

theorem head?_flatMap_stepChars (p : Path) :
    ∀ c ∈ (p.flatMap stepChars).head?, opensStep c = true := by
  intro c hc
  cases p with
  | nil => cases hc
  | cons s p => cases s <;> (simp [stepChars] at hc; subst hc; rfl)

theorem digits_ne_bracket (i : Nat) : ∀ c ∈ (toString i).toList, decide (c = ']') = false := by
  intro c hc
  rw [Nat.toString_eq_repr, Nat.toList_repr] at hc
  have hdigit := Nat.isDigit_of_mem_toDigits (by decide) (by decide) hc
  refine decide_eq_false fun hcc => ?_
  subst hcc
  cases hdigit

/-- The steps after the first can be read back. -/
theorem flatMap_stepChars_inj {p q : Path} (hp : ∀ k, Step.key k ∈ p → Plain k)
    (hq : ∀ k, Step.key k ∈ q → Plain k) (h : p.flatMap stepChars = q.flatMap stepChars) :
    p = q := by
  induction p generalizing q with
  | nil =>
    cases q with
    | nil => rfl
    | cons s q => cases s <;> simp [stepChars] at h
  | cons s p ih =>
    cases q with
    | nil => cases s <;> simp [stepChars] at h
    | cons t q =>
      have hp' : ∀ k, Step.key k ∈ p → Plain k := fun k hk => hp k (List.mem_cons_of_mem _ hk)
      have hq' : ∀ k, Step.key k ∈ q → Plain k := fun k hk => hq k (List.mem_cons_of_mem _ hk)
      rw [List.flatMap_cons, List.flatMap_cons] at h
      cases s with
      | key k =>
        cases t with
        | key l =>
          simp only [stepChars, List.cons_append, List.cons.injEq, true_and] at h
          obtain ⟨hkl, hrest⟩ := append_inj_of_stop (hp k List.mem_cons_self)
            (hq l List.mem_cons_self) (head?_flatMap_stepChars p) (head?_flatMap_stepChars q) h
          rw [String.toList_inj.mp hkl, ih hp' hq' hrest]
        | index j => simp [stepChars] at h
      | index i =>
        cases t with
        | key l => simp [stepChars] at h
        | index j =>
          simp only [stepChars, List.cons_append, List.append_assoc, List.cons.injEq, true_and,
            List.nil_append] at h
          obtain ⟨hij, hrest⟩ := append_inj_of_stop (digits_ne_bracket i) (digits_ne_bracket j)
            (by simp) (by simp) h
          rw [List.cons.injEq] at hrest
          rw [Nat.repr_injective (String.toList_inj.mp hij), ih hp' hq' hrest.2]

/-- **A legible place can be told by how it is shown.** -/
theorem render_injective {p q : Path} (hp : p.Legible) (hq : q.Legible)
    (h : p.render = q.render) : p = q := by
  match p, q, hp, hq with
  | .key k :: p, .key l :: q, ⟨hk, hkp, hp⟩, ⟨hl, hlp, hq⟩ =>
    have hchars := congrArg String.toList h
    rw [render_toList hk, render_toList hl] at hchars
    obtain ⟨hkl, hrest⟩ := append_inj_of_stop hkp hlp (head?_flatMap_stepChars p)
      (head?_flatMap_stepChars q) hchars
    rw [String.toList_inj.mp hkl, flatMap_stepChars_inj hp hq hrest]

/-- Plain steps keep a place legible. -/
theorem Legible.append {p s : Path} (hp : p.Legible) (hs : ∀ k, Step.key k ∈ s → Plain k) :
    Legible (p ++ s) := by
  match p, hp with
  | .key k :: p, ⟨hne, hk, hp⟩ =>
    refine ⟨hne, hk, fun l hl => ?_⟩
    rcases List.mem_append.mp hl with hl | hl
    · exact hp l hl
    · exact hs l hl

/-- A place of more than one step is not shown as a plain text. -/
theorem Legible.not_plain {p : Path} (hp : p.Legible) (hlen : 2 ≤ p.length) : ¬Plain p.render := by
  match p, hp, hlen with
  | .key k :: t :: p, ⟨hk, _, _⟩, _ =>
    intro hplain
    unfold Plain at hplain
    rw [render_toList hk] at hplain
    cases t with
    | key l => exact absurd (hplain '.' (by simp [stepChars])) (by decide)
    | index i => exact absurd (hplain '[' (by simp [stepChars])) (by decide)

/-- The place of an item is not shown as a plain text, whatever the keys are. -/
theorem not_plain_render_index (p : Path) (i : Nat) : ¬Plain (p.index i).render := by
  intro hplain
  have hrender : (p.index i).render = p.render ++ "[" ++ toString i ++ "]" := by
    rw [render, index, List.foldl_append]
    rfl
  have hbracket : '[' ∈ (p.index i).render.toList := by
    rw [hrender]
    simp
  exact absurd (hplain '[' hbracket) (by decide)

end Path

/-! ### The names of timeframes -/

/-- What is not blank is not trimmed away. -/
theorem Text.mem_trimChars {s : List Char} {c : Char} (hc : c ∈ s) (hb : isBlank c = false) :
    c ∈ trimChars s := by
  have hdrop {l : List Char} (hl : c ∈ l) : c ∈ l.dropWhile isBlank := by
    rw [← List.takeWhile_append_dropWhile (p := isBlank) (l := l)] at hl
    rcases List.mem_append.mp hl with hl | hl
    · rw [List.mem_takeWhile_imp hl] at hb
      cases hb
    · exact hl
  unfold trimChars
  exact List.mem_reverse.mpr (hdrop (List.mem_reverse.mpr (hdrop hc)))

theorem Timeframe.name_of_parse? {s : String} {tf : Timeframe} (h : parse? s = some tf) :
    Text.lowerAscii (Text.trim s) = tf.name := by
  unfold parse? at h
  split at h <;> cases h <;> assumption

/-- **A text that spells a timeframe is plain.** -/
theorem Timeframe.plain_of_parse? {s : String} {tf : Timeframe} (h : parse? s = some tf) :
    Plain s := by
  intro c hc
  by_contra hopens
  rw [Bool.not_eq_false] at hopens
  have hcases : c = '.' ∨ c = '[' := by simpa [opensStep] using hopens
  have hblank : Text.isBlank c = false := by
    rcases hcases with rfl | rfl <;> decide
  have hlower : c.toLower = c := by
    rcases hcases with rfl | rfl <;> decide
  -- such a character would be left in the name of the timeframe
  have hmem : c ∈ tf.name.toList := by
    rw [← name_of_parse? h]
    have htrim := Text.mem_trimChars hc hblank
    simp only [Text.lowerAscii, Text.trim, String.toList_ofList]
    exact List.mem_map.mpr ⟨c, htrim, hlower⟩
  have hplain : Plain tf.name := by cases tf <;> decide
  rw [hplain c hmem] at hopens
  cases hopens

end TopDown
