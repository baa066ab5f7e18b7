import TopDown.Proofs.Rounding

/-!
# Numbers in their order

Numbers of 64 bits come in the order of their bits: leaving the sign aside, the bits of a number are
the place of its magnitude, with infinity behind all finite magnitudes
(`TopDown.Number.Stored.rankOf_eq`). So each number has an integer for a rank
(`TopDown.Number.rank?`), which is missing for the undefined number only, and a comparison of numbers
is one of ranks (`TopDown.Number.lt_iff`, `TopDown.Number.le_iff`, `TopDown.Number.beq_iff`). That
makes the comparisons a linear order as long as nothing is undefined.

Rounding does not pass a number of the format, so a sum is not below its first summand when the second
one is not negative, however much is lost in rounding. This is `TopDown.Number.le_of_add_le`, with
`TopDown.Number.le_of_le_sub` for differences. They need no word on undefined or infinite summands: a
comparison that holds excludes those that do harm. Integers of 64 bits are not too large to be numbers
(`TopDown.Number.isFinite_ofInt`).
-/

namespace TopDown

open Float.Model Float.Model.UnpackedFloat Magnitude

namespace Number

/-! ### Ranks -/

/-- The rank of infinity. -/
def infinite : Int :=
  2047 * 2 ^ 52

/-- The rank of a number that is given by its parts. Magnitudes beyond the format have the rank of
infinity. -/
def rankOf : UnpackedFloat → Option Int
  | .notANumber => none
  | .infinity s => some (s.apply infinite)
  | .zero _ => some 0
  | .finite s m e _ => some (s.apply (min (place m e) infinite))

theorem rankOf_parts {s : Sign} {m : Nat} {e : Int} {hm : 0 < m} :
    rankOf (.finite s m e hm) = some (s.apply (min (place m e) infinite)) :=
  rfl

/-- The parts of a number are as the format has them, though the exponent may be too large. -/
def Rounded : UnpackedFloat → Prop
  | .finite _ m e _ => Canonical m e
  | _ => True

/-- The parts are those of a number. -/
def Proper : UnpackedFloat → Prop
  | .finite _ m e _ => Canonical m e ∧ e ≤ 971
  | _ => True

theorem Proper.rounded {u : UnpackedFloat} (h : Proper u) : Rounded u := by
  cases u with
  | finite s m e hm => exact h.1
  | notANumber | infinity _ | zero _ => trivial

theorem Proper.neg {u : UnpackedFloat} (h : Proper u) : Proper u.neg := by
  cases u with
  | finite s m e hm => exact h
  | notANumber | infinity _ | zero _ => trivial

/-- The rank of a finite number is below that of infinity. -/
theorem rankOf_finite {s : Sign} {m : Nat} {e : Int} {hm : 0 < m}
    (h : Proper (.finite s m e hm)) :
    rankOf (.finite s m e hm) = some (s.apply (place m e)) ∧
      0 < place m e ∧ place m e < infinite := by
  obtain ⟨⟨hlt, hleast, -⟩, hrange⟩ := h
  have hbound : 0 < place m e ∧ place m e < infinite := by
    rw [place, infinite]
    omega
  rw [rankOf_parts, min_eq_left hbound.2.le]
  exact ⟨rfl, hbound⟩

theorem rankOf_bounds {u : UnpackedFloat} (hu : Rounded u) {a : Int} (h : rankOf u = some a) :
    -infinite ≤ a ∧ a ≤ infinite := by
  have htop : (0 : Int) ≤ infinite := by decide
  cases u with
  | notANumber => cases h
  | infinity s =>
    cases h
    cases s <;> simp only [Sign.apply] <;> omega
  | zero s =>
    cases h
    omega
  | finite s m e hm =>
    cases h
    have := place_nonneg (m := m) hu.least
    cases s <;> simp only [Sign.apply] <;> omega

theorem rankOf_neg (u : UnpackedFloat) : rankOf u.neg = (rankOf u).map (- ·) := by
  cases u with
  | notANumber => rfl
  | infinity s | zero s => cases s <;> rfl
  | finite s m e hm =>
    cases s
    · exact congrArg some (neg_neg _).symm
    · rfl

/-! ### Bits -/

theorem unpackSign_packComponents {spec : Format} (s : Sign) (e : BitVec spec.exponentBits)
    (m : BitVec spec.mantissaBitsWithoutImplicit) :
    Sign.ofBitVec (unpackSign (packComponents spec s e m)) = s := by
  have h : unpackSign (packComponents spec s e m) = s.toBitVec := by
    ext i hi
    obtain rfl : i = 0 := by omega
    unfold unpackSign
    simp [packComponents, BitVec.getLsbD_append, BitVec.getElem_append]
  rw [h]
  cases s <;> rfl

/-- The digit that is not stored. -/
theorem implicit_toNat (m : BitVec Format.binary64.mantissaBitsWithoutImplicit) :
    (1#1 ++ m).toNat = 2 ^ 52 + m.toNat := by
  rw [BitVec.toNat_append, Nat.shiftLeft_eq]
  exact (Nat.two_pow_add_eq_or_of_lt m.isLt 1).symm

/-- **What the bits of an exponent and of the digits stand for.** -/
inductive Stored (s : Sign) (e m : Nat) : UnpackedFloat → Prop
  /-- Infinity. -/
  | infinity (he : e = 2047) (hm : m = 0) : Stored s e m (.infinity s)
  /-- The undefined number. -/
  | notANumber (he : e = 2047) (hm : m ≠ 0) : Stored s e m .notANumber
  /-- Zero. -/
  | zero (he : e = 0) (hm : m = 0) : Stored s e m (.zero s)
  /-- All digits are stored. -/
  | subnormal {k : Nat} {x : Int} {hk : 0 < k} (he : e = 0) (hm : k = m) (hx : x = -1074) :
    Stored s e m (.finite s k x hk)
  /-- All digits but the first are stored. -/
  | normal {k : Nat} {x : Int} {hk : 0 < k} (hzero : e ≠ 0) (hones : e ≠ 2047)
    (hm : k = 2 ^ 52 + m) (hx : x = e - 1075) : Stored s e m (.finite s k x hk)

theorem stored_unpack (b : BitVec Format.binary64.numBits) :
    Stored (Sign.ofBitVec (unpackSign b)) (unpackExponent b).toNat (unpackMantissa b).toNat
      (UnpackedFloat.unpack Format.binary64 b) := by
  unfold UnpackedFloat.unpack
  extract_lets m e exponent s' s
  change Stored s e.toNat m.toNat _
  by_cases hones : e = -1#_
  · have hones' : e.toNat = 2047 := congrArg BitVec.toNat hones
    rw [if_pos hones]
    by_cases hm : m = 0#_
    · rw [if_pos hm]
      exact .infinity hones' (congrArg BitVec.toNat hm)
    · rw [if_neg hm]
      exact .notANumber hones' fun h => hm (BitVec.eq_of_toNat_eq h)
  · rw [if_neg hones]
    by_cases hzero : e = 0#_
    · have hzero' : e.toNat = 0 := congrArg BitVec.toNat hzero
      rw [if_pos hzero]
      by_cases hm : m = 0#_
      · rw [dif_pos hm]
        exact .zero hzero' (congrArg BitVec.toNat hm)
      · rw [dif_neg hm]
        refine .subnormal hzero' rfl ?_
        change (e.toNat : Int) - 1075 + 1 = -1074
        omega
    · rw [if_neg hzero]
      exact .normal (fun h => hzero (BitVec.eq_of_toNat_eq h))
        (fun h => hones (BitVec.eq_of_toNat_eq h)) (implicit_toNat m) rfl

section Stored

variable {s : Sign} {e m : Nat} {u : UnpackedFloat} (h : Stored s e m u) (hm : m < 2 ^ 52)
  (he : e < 2 ^ 11)
include h hm he

theorem Stored.proper : Proper u := by
  cases h with
  | infinity _ _ | notANumber _ _ | zero _ _ => trivial
  | @subnormal k x hk _ hm' hx => exact ⟨⟨by omega, by omega, .inl hx⟩, by omega⟩
  | @normal k x hk hzero hones hm' hx => exact ⟨⟨by omega, by omega, .inr (by omega)⟩, by omega⟩

/-- **The rank of a number is what its bits spell**, given that it is not beyond infinity. -/
theorem Stored.rankOf_eq :
    rankOf u = if e = 2047 then if m = 0 then some (s.apply infinite) else none
      else some (s.apply ((e * 2 ^ 52 + m : Nat) : Int)) := by
  cases h with
  | infinity he hm' =>
    rw [if_pos he, if_pos hm']
    rfl
  | notANumber he hm' =>
    rw [if_pos he, if_neg hm']
    rfl
  | zero he hm' =>
    subst he hm'
    rw [if_neg (by decide)]
    cases s <;> rfl
  | @subnormal k x hk he hm' hx =>
    rw [if_neg (by omega), rankOf_parts, place, infinite]
    refine congrArg (fun r => some (s.apply r)) ?_
    omega
  | @normal k x hk hzero hones hm' hx =>
    rw [if_neg hones, rankOf_parts, place, infinite]
    refine congrArg (fun r => some (s.apply r)) ?_
    omega

end Stored

theorem unpack_proper (b : BitVec 64) : Proper (UnpackedFloat.unpack Format.binary64 b) :=
  (stored_unpack b).proper (unpackMantissa _).isLt (unpackExponent _).isLt

/-- The rank of a number that is put together of its parts. -/
theorem rankOf_packComponents (s : Sign) (e : BitVec Format.binary64.exponentBits)
    (m : BitVec Format.binary64.mantissaBitsWithoutImplicit) :
    rankOf (UnpackedFloat.unpack Format.binary64 (packComponents Format.binary64 s e m)) =
      if e.toNat = 2047 then if m.toNat = 0 then some (s.apply infinite) else none
      else some (s.apply ((e.toNat * 2 ^ 52 + m.toNat : Nat) : Int)) := by
  rw [(stored_unpack _).rankOf_eq (unpackMantissa _).isLt (unpackExponent _).isLt,
    unpackMantissa_packComponents, unpackExponent_packComponents, unpackSign_packComponents]

theorem neg_one_toNat : (-1#(Format.binary64.exponentBits)).toNat = 2047 :=
  rfl

theorem zero_toNat : (0#(Format.binary64.exponentBits)).toNat = 0 :=
  rfl

theorem rankOf_packedInfinity (s : Sign) :
    rankOf (UnpackedFloat.unpack Format.binary64 (packedInfinity Format.binary64 s)) =
      some (s.apply infinite) := by
  rw [packedInfinity, rankOf_packComponents, if_pos neg_one_toNat]
  rfl

/-- **Storing rounded parts keeps the rank.** -/
theorem rankOf_unpack_pack {u : UnpackedFloat} (h : Rounded u) :
    rankOf (UnpackedFloat.unpack Format.binary64 (UnpackedFloat.pack Format.binary64 u)) =
      rankOf u := by
  cases u with
  | notANumber =>
    unfold UnpackedFloat.pack packedNaN
    rw [rankOf_packComponents, if_pos neg_one_toNat, if_neg (by decide)]
    rfl
  | infinity s =>
    exact rankOf_packedInfinity s
  | zero s =>
    unfold UnpackedFloat.pack
    rw [packedZero, rankOf_packComponents, BitVec.ofNat_eq_ofNat, zero_toNat, if_neg (by decide)]
    cases s <;> rfl
  | finite s m e hm =>
    obtain ⟨hlt, hleast, hfull⟩ := h
    have hbias : e + Format.binary64.exponentBias + Format.binary64.mantissaBitsWithoutImplicit
      = e + 1075 := by
      rw [add_assoc]
      rfl
    have hbits : Format.binary64.mantissaBits = 53 := rfl
    have hexp : 2 ^ Format.binary64.exponentBits = 2048 := rfl
    have hm' : (BitVec.ofNat Format.binary64.mantissaBitsWithoutImplicit m).toNat = m % 2 ^ 52 :=
      BitVec.toNat_ofNat _ _
    change _ = some (s.apply (min (place m e) infinite))
    unfold UnpackedFloat.pack
    dsimp only
    rw [hbias, hbits, hexp]
    split
    · -- the exponent is too large
      rw [rankOf_packedInfinity, place, infinite]
      refine congrArg (fun r => some (s.apply r)) ?_
      omega
    · split
      · have hge : 2 ^ 52 ≤ m := (Nat.le_log2 hm.ne').mp (by omega)
        have he' : (BitVec.ofNat Format.binary64.exponentBits (e + 1075).toNat).toNat
            = (e + 1075).toNat % 2 ^ 11 :=
          BitVec.toNat_ofNat _ _
        rw [rankOf_packComponents, hm', he', if_neg (by omega), place, infinite]
        refine congrArg (fun r => some (s.apply r)) ?_
        omega
      · have hsmall : m < 2 ^ 52 := by
          have hlog := (Nat.log2_lt hm.ne').mpr hlt
          exact (Nat.log2_lt hm.ne').mp (by omega)
        rw [rankOf_packComponents, hm', zero_toNat, if_neg (by decide), place, infinite]
        refine congrArg (fun r => some (s.apply r)) ?_
        omega

/-! ### Comparing -/

theorem compare_place {m₁ m₂ : Nat} {e₁ e₂ : Int} (h₁ : Canonical m₁ e₁) (h₂ : Canonical m₂ e₂) :
    (compare e₁ e₂).then (compare m₁ m₂) = compare (place m₁ e₁) (place m₂ e₂) := by
  obtain ⟨hlt₁, hleast₁, hfull₁⟩ := h₁
  obtain ⟨hlt₂, hleast₂, hfull₂⟩ := h₂
  rcases lt_trichotomy e₁ e₂ with h | rfl | h
  · rw [compare_lt_iff_lt.mpr h]
    change Ordering.lt = _
    rw [eq_comm, compare_lt_iff_lt, place, place]
    omega
  · rw [compare_eq_iff_eq.mpr rfl, Ordering.then, place, place]
    rcases lt_trichotomy m₁ m₂ with hm | rfl | hm
    · rw [compare_lt_iff_lt.mpr hm, eq_comm, compare_lt_iff_lt]
      omega
    · rw [compare_eq_iff_eq.mpr rfl, compare_eq_iff_eq.mpr rfl]
    · rw [compare_gt_iff_gt.mpr hm, eq_comm, compare_gt_iff_gt]
      omega
  · rw [compare_gt_iff_gt.mpr h]
    change Ordering.gt = _
    rw [eq_comm, compare_gt_iff_gt, place, place]
    omega

theorem compare_neg (a b : Int) : compare (-a) (-b) = (compare a b).swap := by
  rcases lt_trichotomy a b with h | rfl | h
  · rw [compare_lt_iff_lt.mpr h, compare_gt_iff_gt.mpr (neg_lt_neg h)]
    rfl
  · rw [compare_eq_iff_eq.mpr rfl, compare_eq_iff_eq.mpr rfl]
    rfl
  · rw [compare_gt_iff_gt.mpr h, compare_lt_iff_lt.mpr (neg_lt_neg h)]
    rfl

/-- **Numbers compare as their ranks do**, if they have any. -/
theorem compare_eq {u v : UnpackedFloat} (hu : Proper u) (hv : Proper v) :
    u.compare v = (rankOf u).bind fun a => (rankOf v).map fun b => compare a b := by
  have htop : 0 < infinite := by decide
  have hless {a b : Int} (h : a < b) : some Ordering.lt = some (compare a b) :=
    congrArg some (compare_lt_iff_lt.mpr h).symm
  have hmore {a b : Int} (h : b < a) : some Ordering.gt = some (compare a b) :=
    congrArg some (compare_gt_iff_gt.mpr h).symm
  cases u with
  | notANumber => cases v <;> rfl
  | infinity s =>
    cases v with
    | notANumber => cases s <;> rfl
    | infinity s' => cases s <;> cases s' <;> decide
    | zero s' =>
      cases s
      · exact hless (by decide)
      · exact hmore (by decide)
    | finite s' m e hm =>
      obtain ⟨hrank, hpos, hbound⟩ := rankOf_finite hv
      rw [hrank]
      cases s
      · cases s'
        · exact hless (neg_lt_neg hbound)
        · exact hless (by change -infinite < place m e; omega)
      · cases s'
        · exact hmore (by change -place m e < infinite; omega)
        · exact hmore hbound
  | zero s =>
    cases v with
    | notANumber => rfl
    | infinity s' =>
      cases s'
      · exact hmore (by decide)
      · exact hless (by decide)
    | zero s' => exact congrArg some (compare_eq_iff_eq.mpr rfl).symm
    | finite s' m e hm =>
      obtain ⟨hrank, hpos, hbound⟩ := rankOf_finite hv
      rw [hrank]
      cases s'
      · exact hmore (neg_lt_zero.mpr hpos)
      · exact hless hpos
  | finite s m e hm =>
    obtain ⟨hrank, hpos, hbound⟩ := rankOf_finite hu
    rw [hrank]
    cases v with
    | notANumber => cases s <;> rfl
    | infinity s' =>
      cases s
      · cases s'
        · exact hmore (neg_lt_neg hbound)
        · exact hless (by change -place m e < infinite; omega)
      · cases s'
        · exact hmore (by change -infinite < place m e; omega)
        · exact hless hbound
    | zero s' =>
      cases s
      · exact hless (neg_lt_zero.mpr hpos)
      · exact hmore hpos
    | finite s' m' e' hm' =>
      obtain ⟨hrank', hpos', -⟩ := rankOf_finite hv
      rw [hrank']
      cases s
      · cases s'
        · refine congrArg some ?_
          rw [compare_place hu.1 hv.1]
          exact (compare_neg _ _).symm
        · exact hless (by change -place m e < place m' e'; omega)
      · cases s'
        · exact hmore (by change -place m' e' < place m e; omega)
        · exact congrArg some (compare_place hu.1 hv.1)

/-! ### Rounding -/

theorem round_rounded (s : Sign) {m : Nat} (e : Int) (hm : 0 < m) :
    Rounded (round Format.binary64 s m e) ∧
      rankOf (round Format.binary64 s m e) =
        some (s.apply (min (place (mantissa m e) (target m e)) infinite)) := by
  obtain ⟨hcanonical, hplace⟩ := carry (e := e) hm
  rw [round_eq s hm]
  by_cases h : (settled m e).1.mantissa = 0
  · rw [dif_pos h]
    have hleast : (settled m e).2 = -1074 := by
      have := hcanonical.full
      omega
    refine ⟨trivial, ?_⟩
    rw [← hplace, h, hleast]
    cases s <;> rfl
  · rw [dif_neg h, rankOf_parts, hplace]
    exact ⟨hcanonical, rfl⟩

/-- The rank lies on the same side of every magnitude of the format, with either sign, as the exact
value `n * 2 ^ e`. -/
def Sides (n e r : Int) : Prop :=
  ∀ (s : Sign) {m₁ : Nat} {e₁ : Int}, 0 < m₁ → Canonical m₁ e₁ → e ≤ e₁ →
    (s.apply ↑(m₁ <<< (e₁ - e).toNat) ≤ n → s.apply (min (place m₁ e₁) infinite) ≤ r) ∧
    (n ≤ s.apply ↑(m₁ <<< (e₁ - e).toNat) → r ≤ s.apply (min (place m₁ e₁) infinite))

/-- A rounded magnitude keeps its side, as magnitudes of the other sign are all on the other one. -/
theorem round_sides (s : Sign) {m : Nat} (e : Int) (hm : 0 < m) :
    Sides (s.apply m) e (s.apply (min (place (mantissa m e) (target m e)) infinite)) := by
  intro s₁ m₁ e₁ hm₁ hcanonical he
  have htop : (0 : Int) ≤ infinite := by decide
  have hge := place_le_place hcanonical hm he
  have hle := place_le_of_le hcanonical hm he
  have hplace := place_nonneg (m := m₁) hcanonical.least
  have hplace' := place_nonneg (m := mantissa m e) (least_le_target (m := m) (e := e))
  have hexact : 0 < m₁ * 2 ^ (e₁ - e).toNat := Nat.mul_pos hm₁ (Nat.two_pow_pos _)
  rw [Nat.shiftLeft_eq]
  cases s <;> cases s₁ <;> simp only [Sign.apply] <;> constructor <;> intro h <;> omega

theorem zero_sides (e : Int) : Sides 0 e 0 := by
  intro s₁ m₁ e₁ hm₁ hcanonical he
  have htop : (0 : Int) ≤ infinite := by decide
  have hplace := place_nonneg (m := m₁) hcanonical.least
  have hexact : 0 < m₁ * 2 ^ (e₁ - e).toNat := Nat.mul_pos hm₁ (Nat.two_pow_pos _)
  rw [Nat.shiftLeft_eq]
  cases s₁ <;> simp only [Sign.apply] <;> constructor <;> intro h <;> omega

/-- **Rounding the exact result `n * 2 ^ e` does not pass a magnitude of the format**, with either
sign. -/
theorem normalize_rounded (n : Int) (e : Int) (z : Sign) :
    Rounded (UnpackedFloat.normalize Format.binary64 n e z) ∧
      ∃ r, rankOf (UnpackedFloat.normalize Format.binary64 n e z) = some r ∧ Sides n e r := by
  rw [UnpackedFloat.normalize]
  rcases lt_trichotomy n 0 with hn | rfl | hn
  · have hm : 0 < (-n).toNat := by omega
    have hsign : n = Sign.negative.apply (-n).toNat := by
      simp only [Sign.apply]
      omega
    rw [compare_lt_iff_lt.mpr hn]
    obtain ⟨hrounded, hrank⟩ := round_rounded .negative e hm
    refine ⟨hrounded, _, hrank, ?_⟩
    have hsides := round_sides .negative e hm
    rwa [← hsign] at hsides
  · exact ⟨trivial, 0, rfl, zero_sides e⟩
  · have hm : 0 < n.toNat := by omega
    have hsign : n = Sign.positive.apply n.toNat := by
      simp only [Sign.apply]
      omega
    rw [compare_gt_iff_gt.mpr hn]
    obtain ⟨hrounded, hrank⟩ := round_rounded .positive e hm
    refine ⟨hrounded, _, hrank, ?_⟩
    have hsides := round_sides .positive e hm
    rwa [← hsign] at hsides

/-! ### Sums -/

/-- What is known of a sum with a rank: both summands have one, and the sum is not below the first
summand, or not above it, when the second one is not negative, or not positive. -/
def Sums (u v : UnpackedFloat) (c : Int) : Prop :=
  ∃ a b, rankOf u = some a ∧ rankOf v = some b ∧ (0 ≤ b → a ≤ c) ∧ (b ≤ 0 → c ≤ a)

/-- **A sum lies on the side of the first summand** that the second one leads to. -/
theorem add_rounded {u v : UnpackedFloat} (hu : Proper u) (hv : Proper v) :
    Rounded (UnpackedFloat.add Format.binary64 u v) ∧
      ∀ {c}, rankOf (UnpackedFloat.add Format.binary64 u v) = some c → Sums u v c := by
  cases u with
  | notANumber =>
    refine ⟨trivial, fun hc => ?_⟩
    cases hc
  | infinity s =>
    cases v with
    | notANumber =>
      refine ⟨trivial, fun hc => ?_⟩
      cases hc
    | infinity s' =>
      cases s <;> cases s' <;> refine ⟨trivial, fun hc => ?_⟩ <;> cases hc <;>
        exact ⟨_, _, rfl, rfl, fun _ => le_rfl, fun _ => le_rfl⟩
    | zero _ | finite _ _ _ _ =>
      refine ⟨trivial, fun hc => ?_⟩
      cases hc
      exact ⟨_, _, rfl, rfl, fun _ => le_rfl, fun _ => le_rfl⟩
  | zero s =>
    cases v with
    | notANumber =>
      refine ⟨trivial, fun hc => ?_⟩
      cases hc
    | infinity s' => exact ⟨trivial, fun hc => ⟨0, _, rfl, hc, id, id⟩⟩
    | zero s' =>
      cases s <;> cases s' <;> refine ⟨trivial, fun hc => ?_⟩ <;> cases hc <;>
        exact ⟨_, _, rfl, rfl, id, id⟩
    | finite s' m e hm => exact ⟨hv.rounded, fun hc => ⟨0, _, rfl, hc, id, id⟩⟩
  | finite s m e hm =>
    cases v with
    | notANumber =>
      refine ⟨trivial, fun hc => ?_⟩
      cases hc
    | infinity s' =>
      refine ⟨trivial, fun hc => ⟨_, _, rfl, hc, ?_⟩⟩
      obtain ⟨hlow, hhigh⟩ := rankOf_bounds hu.rounded rfl
      have htop : (0 : Int) < infinite := by decide
      cases hc
      cases s'
      · exact ⟨fun h => absurd h (not_le.mpr (neg_lt_zero.mpr htop)), fun _ => hlow⟩
      · exact ⟨fun _ => hhigh, fun h => absurd h (not_le.mpr htop)⟩
    | zero s' => exact ⟨hu.rounded, fun hc => ⟨_, 0, hc, rfl, fun _ => le_rfl, fun _ => le_rfl⟩⟩
    | finite s' m' e' hm' =>
      obtain ⟨hrounded, r, hr, hbounds⟩ := normalize_rounded
        (s.apply ↑(m <<< (e - min e e').toNat) + s'.apply ↑(m' <<< (e' - min e e').toNat))
        (min e e') .positive
      refine ⟨hrounded, fun {c} hc => ⟨_, _, rfl, (rankOf_finite hv).1, ?_⟩⟩
      have hsum := hbounds s hm hu.1 (min_le_left e e')
      have hpos := (rankOf_finite hv).2.1
      have hnonneg := Int.natCast_nonneg (m' <<< (e' - min e e').toNat)
      cases hr.symm.trans hc
      -- the second summand has the sign of its rank
      cases s'
      · exact ⟨fun h => absurd h (not_le.mpr (neg_lt_zero.mpr hpos)),
          fun _ => hsum.2 (add_le_of_nonpos_right (neg_nonpos.mpr hnonneg))⟩
      · exact ⟨fun _ => hsum.1 (le_add_of_nonneg_right hnonneg),
          fun h => absurd h (not_le.mpr hpos)⟩

theorem sub_eq_add_neg (u v : UnpackedFloat) :
    UnpackedFloat.sub Format.binary64 u v = UnpackedFloat.add Format.binary64 u v.neg := by
  cases u with
  | notANumber => rfl
  | infinity s | zero s =>
    cases v with
    | notANumber | infinity _ | zero _ | finite _ _ _ _ => rfl
  | finite s m e hm =>
    cases v with
    | notANumber | infinity _ | zero _ => rfl
    | finite s' m' e' hm' =>
      have hneg (n : Nat) : s.apply (m <<< (e - min e e').toNat) - s'.apply n
          = s.apply (m <<< (e - min e e').toNat) + (-s').apply n := by
        cases s'
        · exact sub_neg_eq_add _ _
        · exact Int.sub_eq_add_neg
      change UnpackedFloat.normalize _ (_ - _) _ _ = UnpackedFloat.normalize _ (_ + _) _ _
      rw [hneg]

/-! ### Numbers -/

/-- The rank of a number, unless it is undefined. -/
def rank? (x : Float) : Option Int :=
  rankOf x.toModel.unpack

theorem proper_unpack (x : Float) : Proper x.toModel.unpack :=
  unpack_proper _

theorem rank?_zero : rank? 0.0 = some 0 := by decide +kernel

theorem compare_toModel (x y : Float) :
    x.toModel.unpack.compare y.toModel.unpack =
      (rank? x).bind fun a => (rank? y).map fun b => compare a b :=
  compare_eq (proper_unpack x) (proper_unpack y)

variable {x y z : Float}

/-- **Numbers are ordered as their ranks are.** -/
theorem lt_iff : x < y ↔ ∃ a b, rank? x = some a ∧ rank? y = some b ∧ a < b := by
  have h : x < y ↔ x.toModel.unpack.compare y.toModel.unpack = some .lt :=
    decide_eq_true_iff.trans beq_iff_eq
  rw [h, compare_toModel]
  cases rank? x <;> cases rank? y <;> simp [compare_lt_iff_lt]

theorem le_iff : x ≤ y ↔ ∃ a b, rank? x = some a ∧ rank? y = some b ∧ a ≤ b := by
  have h : x ≤ y ↔ (x.toModel.unpack.compare y.toModel.unpack).any (·.isLE) = true :=
    decide_eq_true_iff
  rw [h, compare_toModel]
  cases rank? x <;> cases rank? y <;> simp [Int.isLE_compare]

theorem beq_iff : (x == y) = true ↔ ∃ a, rank? x = some a ∧ rank? y = some a := by
  have h : (x == y) = (x.toModel.unpack.compare y.toModel.unpack == some .eq) := rfl
  rw [h, compare_toModel]
  cases hx : rank? x with
  | none => exact iff_of_false Bool.false_ne_true fun ⟨_, h, _⟩ => by cases h
  | some a =>
    cases hy : rank? y with
    | none => exact iff_of_false Bool.false_ne_true fun ⟨_, _, h⟩ => by cases h
    | some b =>
      change (some (compare a b) == some .eq) = true ↔ _
      rw [beq_iff_eq, Option.some_inj, compare_eq_iff_eq]
      constructor
      · rintro rfl
        exact ⟨a, rfl, rfl⟩
      · rintro ⟨c, ha, hb⟩
        cases ha
        cases hb
        rfl

theorem isFinite_iff :
    x.isFinite = true ↔ ∃ a, rank? x = some a ∧ -infinite < a ∧ a < infinite := by
  have h : x.isFinite = x.toModel.unpack.isFinite := rfl
  have hproper := proper_unpack x
  rw [h, rank?]
  generalize x.toModel.unpack = u at *
  cases u with
  | notANumber => exact iff_of_false Bool.false_ne_true fun ⟨_, h, _⟩ => by cases h
  | infinity s => cases s <;> decide +kernel
  | zero s => exact iff_of_true rfl ⟨0, rfl, by decide, by decide⟩
  | finite s m e hm =>
    obtain ⟨hrank, hpos, hbound⟩ := rankOf_finite hproper
    rw [hrank]
    refine iff_of_true rfl ⟨_, rfl, ?_⟩
    cases s <;> simp only [Sign.apply] <;> omega

/-- Of two finite numbers that are not in one order, the other order holds. -/
theorem le_of_not_lt (hx : x.isFinite = true) (hy : y.isFinite = true) (h : ¬x < y) : y ≤ x := by
  obtain ⟨a, ha, -⟩ := isFinite_iff.mp hx
  obtain ⟨b, hb, -⟩ := isFinite_iff.mp hy
  exact le_iff.mpr ⟨b, a, hb, ha, not_lt.mp fun hlt => h (lt_iff.mpr ⟨a, b, ha, hb, hlt⟩)⟩

theorem lt_of_not_le (hx : x.isFinite = true) (hy : y.isFinite = true) (h : ¬x ≤ y) : y < x := by
  obtain ⟨a, ha, -⟩ := isFinite_iff.mp hx
  obtain ⟨b, hb, -⟩ := isFinite_iff.mp hy
  exact lt_iff.mpr ⟨b, a, hb, ha, not_le.mp fun hle => h (le_iff.mpr ⟨a, b, ha, hb, hle⟩)⟩

theorem not_lt_of_le (h : x ≤ y) : ¬y < x := by
  intro hlt
  obtain ⟨a, b, ha, hb, hab⟩ := le_iff.mp h
  obtain ⟨b', a', hb', ha', hba⟩ := lt_iff.mp hlt
  cases ha.symm.trans ha'
  cases hb.symm.trans hb'
  exact absurd hab (not_le.mpr hba)

theorem not_le_of_lt (h : x < y) : ¬y ≤ x :=
  fun hle => not_lt_of_le hle h

theorem not_lt_of_lt (h : x < y) : ¬y < x := by
  intro hlt
  obtain ⟨a, b, ha, hb, hab⟩ := lt_iff.mp h
  obtain ⟨b', a', hb', ha', hba⟩ := lt_iff.mp hlt
  cases ha.symm.trans ha'
  cases hb.symm.trans hb'
  exact absurd hab (not_lt.mpr hba.le)

/-- Numbers meet where one is not above the other, nor below it. -/
theorem beq_of_le (h : x ≤ y) (hnot : ¬x < y) : (x == y) = true := by
  obtain ⟨a, b, ha, hb, hab⟩ := le_iff.mp h
  have hba : b ≤ a := not_lt.mp fun hlt => hnot (lt_iff.mpr ⟨a, b, ha, hb, hlt⟩)
  exact beq_iff.mpr ⟨a, ha, le_antisymm hab hba ▸ hb⟩

theorem sums_of_add {c : Int} (h : rank? (x + y) = some c) :
    Sums x.toModel.unpack y.toModel.unpack c := by
  obtain ⟨hrounded, hsums⟩ := add_rounded (proper_unpack x) (proper_unpack y)
  exact hsums ((rankOf_unpack_pack hrounded).symm.trans h)

theorem sums_of_sub {c : Int} (h : rank? (x - y) = some c) :
    Sums x.toModel.unpack y.toModel.unpack.neg c := by
  obtain ⟨hrounded, hsums⟩ := add_rounded (proper_unpack x) (proper_unpack y).neg
  refine hsums ?_
  rw [← rankOf_unpack_pack hrounded, ← sub_eq_add_neg]
  exact h

/-- **What a sum with a number that is not negative does not exceed**, its first summand does not. -/
theorem le_of_add_le (hy : ¬y < 0.0) (h : x + y ≤ z) : x ≤ z := by
  obtain ⟨c, d, hc, hd, hle⟩ := le_iff.mp h
  obtain ⟨a, b, ha, hb, hup, -⟩ := sums_of_add hc
  have hpos : 0 ≤ b := not_lt.mp fun hneg => hy (lt_iff.mpr ⟨b, 0, hb, rank?_zero, hneg⟩)
  exact le_iff.mpr ⟨a, d, ha, hd, (hup hpos).trans hle⟩

/-- The same for differences. -/
theorem le_of_le_sub (hy : ¬y < 0.0) (h : z ≤ x - y) : z ≤ x := by
  obtain ⟨d, c, hd, hc, hle⟩ := le_iff.mp h
  obtain ⟨a, b, ha, hb, -, hdown⟩ := sums_of_sub hc
  rw [rankOf_neg] at hb
  obtain ⟨b', hb', rfl⟩ := Option.map_eq_some_iff.mp hb
  have hpos : 0 ≤ b' := not_lt.mp fun hneg => hy (lt_iff.mpr ⟨b', 0, hb', rank?_zero, hneg⟩)
  exact le_iff.mpr ⟨d, a, hd, ha, hle.trans (hdown (neg_nonpos.mpr hpos))⟩

/-! ### Integers -/

theorem isFinite_of_unpack_pack {x : Float} {u : UnpackedFloat}
    (h : x.toModel.unpack = UnpackedFloat.unpack Format.binary64 (UnpackedFloat.pack Format.binary64 u))
    (hrounded : Rounded u) {a : Int} (ha : rankOf u = some a) (hlow : -infinite < a)
    (hhigh : a < infinite) : x.isFinite = true := by
  refine isFinite_iff.mpr ⟨a, ?_, hlow, hhigh⟩
  rw [rank?, h, rankOf_unpack_pack hrounded, ha]

/-- Magnitudes up to `2 ^ 64` stay finite when they are rounded. -/
theorem round_inside (s : Sign) {m : Nat} {e : Int} (hm : 0 < m) (he : e ≤ 12)
    (h : m ≤ 2 ^ 52 * 2 ^ (12 - e).toNat) :
    ∃ r, rankOf (round Format.binary64 s m e) = some r ∧ -infinite < r ∧ r < infinite := by
  have htop : Canonical (2 ^ 52) 12 := ⟨by decide, by decide, .inr le_rfl⟩
  have hle := place_le_of_le htop hm he h
  have hnonneg := place_nonneg (m := mantissa m e) (least_le_target (m := m) (e := e))
  refine ⟨_, (round_rounded s e hm).2, ?_⟩
  have h12 : place (2 ^ 52) 12 < infinite := by decide
  cases s <;> simp only [Sign.apply] <;> omega

/-- A product of finite parts, one of which has all digits, is rounded as it is. -/
theorem mul_eq_round {s s' : Sign} {m m' : Nat} {e e' : Int} {hm : 0 < m} {hm' : 0 < m'}
    (h : 52 ≤ m.log2 ∨ 52 ≤ m'.log2) :
    UnpackedFloat.mul Format.binary64 (.finite s m e hm) (.finite s' m' e' hm') =
      round Format.binary64 (s * s') (m * m') (e + e') := by
  refine roundWithAccuracy_of_le _ ?_
  have hlog : 52 ≤ (m * m').log2 := by
    rw [Nat.le_log2 (Nat.mul_pos hm hm').ne']
    rcases h with h | h
    · exact ((Nat.le_log2 hm.ne').mp h).trans (Nat.le_mul_of_pos_right m hm')
    · exact ((Nat.le_log2 hm'.ne').mp h).trans (Nat.le_mul_of_pos_left m' hm)
  rw [target_eq]
  omega

/-- The parts of one. -/
theorem unpack_one : Float.exactlyRepresentablePowersOfTen[0].toModel.unpack =
    .finite .positive (2 ^ 52) (-52) (by decide) := by
  rfl

/-- Multiplying by one, which is how small integers become numbers. -/
theorem isFinite_mul_one {x : Float} {a : Int} (ha : rank? x = some a)
    (hlow : -place (2 ^ 52) 1 ≤ a) (hhigh : a ≤ place (2 ^ 52) 1) :
    (x * Float.exactlyRepresentablePowersOfTen[0]).isFinite = true := by
  have hmul : (x * Float.exactlyRepresentablePowersOfTen[0]).toModel.unpack =
      UnpackedFloat.unpack Format.binary64 (UnpackedFloat.pack Format.binary64
        (UnpackedFloat.mul Format.binary64 x.toModel.unpack
          (.finite .positive (2 ^ 52) (-52) (by decide)))) := by
    rw [← unpack_one]
    rfl
  have hproper := proper_unpack x
  have htop : place (2 ^ 52) 1 < infinite := by decide
  rw [rank?] at ha
  generalize x.toModel.unpack = u at *
  cases u with
  | notANumber => cases ha
  | infinity s =>
    cases ha
    cases s <;> simp only [Sign.apply] at hlow hhigh <;> omega
  | zero s => exact isFinite_of_unpack_pack (a := 0) hmul trivial rfl (by decide) (by decide)
  | finite s m e hm =>
    have hlog : 52 ≤ (2 ^ 52).log2 := by rw [Nat.log2_two_pow]
    rw [mul_eq_round (.inr hlog)] at hmul
    have hpos : 0 < m * 2 ^ 52 := Nat.mul_pos hm (Nat.two_pow_pos 52)
    obtain ⟨hlt, hleast, hfull⟩ := hproper.1
    have he : e ≤ 1 := by
      rw [(rankOf_finite hproper).1] at ha
      cases ha
      cases s <;> simp only [Sign.apply, place] at hlow hhigh <;> omega
    have hpow : 2 ^ 53 ≤ 2 ^ (12 - (e + -52)).toNat := Nat.pow_le_pow_right (by decide) (by omega)
    obtain ⟨r, hr, hlow', hhigh'⟩ := round_inside (s * .positive) (e := e + -52) hpos (by omega) (by
      rw [Nat.mul_comm]
      exact Nat.mul_le_mul_left _ (hlt.le.trans hpow))
    exact isFinite_of_unpack_pack hmul (round_rounded _ _ hpos).1 hr hlow' hhigh'

/-- **Integers of 64 bits are finite numbers.** -/
theorem isFinite_ofNat {n : Nat} (h : n ≤ 2 ^ 64) : (Float.ofNat n).isFinite = true := by
  change (Float.ofScientific n false 0).isFinite = true
  unfold Float.ofScientific
  split
  · rename_i hsmall
    obtain ⟨hrounded, r, hr, hbounds⟩ := normalize_rounded n 0 .positive
    have hcanonical : Canonical (2 ^ 52) 1 := ⟨by decide, by decide, .inr le_rfl⟩
    have hhigh := (hbounds .positive (by decide) hcanonical (by decide)).2
    have hlow := (hbounds .negative (by decide) hcanonical (by decide)).1
    have hcast : n.toUInt64.toNat = n := Nat.mod_eq_of_lt (by omega)
    have hrank : rank? n.toUInt64.toFloat = some r := by
      rw [← hr, ← rankOf_unpack_pack hrounded]
      change rankOf (UnpackedFloat.unpack Format.binary64
        (UnpackedFloat.pack Format.binary64
          (UnpackedFloat.normalize Format.binary64 n.toUInt64.toNat 0 _))) = _
      rw [hcast]
    have htop : min (place (2 ^ 52) 1) infinite = place (2 ^ 52) 1 := by decide
    have hexact : ((2 ^ 52 <<< ((1 : Int) - 0).toNat : Nat) : Int) = 2 ^ 53 := by decide
    rw [htop, hexact] at hhigh hlow
    refine isFinite_mul_one hrank (hlow ?_) (hhigh ?_) <;> simp only [Sign.apply] <;> omega
  · rename_i hlarge
    have hpos : 0 < n := by omega
    have hlog : 52 ≤ (n <<< 53).log2 := by
      rw [log2_shiftLeft hpos]
      omega
    have hmul : UnpackedFloat.ofScientific Format.binary64 n 0 =
        round Format.binary64 .positive (n <<< 53 * 1) (-53) := by
      have hlog' : ¬(0 : Int) < -((2 ^ Format.binary64.exponentBits : Int) + n.log2) := by
        change ¬(0 : Int) < -((2048 : Int) + n.log2)
        omega
      unfold UnpackedFloat.ofScientific
      rw [dif_neg hpos.ne', if_neg (by decide), if_neg hlog', if_pos le_rfl]
      exact mul_eq_round (.inl hlog)
    have hpos' : 0 < n <<< 53 * 1 := by omega
    have hexact : 2 ^ 64 * 2 ^ 53 = 2 ^ 52 * 2 ^ ((12 : Int) - -53).toNat := by decide
    obtain ⟨r, hr, hlow, hhigh⟩ := round_inside .positive (e := -53) hpos' (by decide) (by
      rw [Nat.shiftLeft_eq, Nat.mul_one, ← hexact]
      exact Nat.mul_le_mul_right _ h)
    refine isFinite_of_unpack_pack ?_ (round_rounded _ _ hpos').1 hr hlow hhigh
    rw [← hmul]
    rfl

theorem isFinite_neg {x : Float} (h : x.isFinite = true) : (-x).isFinite = true := by
  obtain ⟨a, ha, hlow, hhigh⟩ := isFinite_iff.mp h
  refine isFinite_of_unpack_pack (u := x.toModel.unpack.neg) (a := -a) rfl
    (proper_unpack x).neg.rounded ?_ (by omega) (by omega)
  rw [rankOf_neg]
  exact congrArg (Option.map (- ·)) ha

theorem isFinite_ofInt {n : Int} (hlow : -2 ^ 64 ≤ n) (hhigh : n ≤ 2 ^ 64) :
    (Float.ofInt n).isFinite = true := by
  cases n with
  | ofNat n => exact isFinite_ofNat (Int.ofNat_le.mp hhigh)
  | negSucc n => exact isFinite_neg (isFinite_ofNat (n := n + 1) (by omega))

end Number

end TopDown
