import Calculator.Proofs.JsonText
import Calculator.Proofs.Scaling

/-!
# Numbers that are read again

A number that is written as data and read again need not come back as it was, for its significand
and its power of ten may have to be rounded before they are put together. But it is finite and has
the same sign, and it is at most three words away; and it is the same number where neither of the
two has to be rounded.
-/

namespace Calculator

open Binary64 (unitsPerOne_pos)

/-! ## Range -/

namespace Magnitude

/-- There is room for a few digits above any magnitude but the last ones. -/
theorem exists_units_add_le {m : Magnitude} (h : m.exponent < 2045 ∨ m.significand + 3 < 2 ^ 53) :
    ∃ n : Magnitude, m.units + 3 * 2 ^ m.exponent ≤ n.units := by
  obtain ⟨hlt, hmax, hbottom⟩ := m.canonical
  by_cases hroom : m.significand + 3 < 2 ^ 53
  · refine ⟨⟨m.significand + 3, m.exponent, hroom, hmax, by omega⟩, ?_⟩
    rw [units, units, Nat.add_mul]
  · have hexponent := h.resolve_right hroom
    refine ⟨⟨2 ^ 52 + 1, m.exponent + 1, by decide, hexponent, .inr (by decide)⟩, ?_⟩
    have hle : m.significand + 3 ≤ (2 ^ 52 + 1) * 2 := by omega
    calc m.units + 3 * 2 ^ m.exponent = (m.significand + 3) * 2 ^ m.exponent :=
          (Nat.add_mul _ _ _).symm
      _ ≤ (2 ^ 52 + 1) * 2 * 2 ^ m.exponent := Nat.mul_le_mul_right _ hle
      _ = (2 ^ 52 + 1) * 2 ^ (m.exponent + 1) := by rw [Nat.mul_assoc, ← Nat.pow_succ']

/-- A quotient that is near to what is rounded to a magnitude is in range, unless the magnitude is
one of the last. -/
theorem exists_nearest?_of_near {x : Magnitude} {q : ℚ} {num den : Nat} (hden : 0 < den)
    (hx : |x.units - q| ≤ 2 ^ x.exponent / 2) (hnear : Near lastFactor (num / den) q)
    (hroom : x.exponent < 2045 ∨ x.significand + 3 < 2 ^ 53) :
    ∃ r, nearest? num den = some r := by
  obtain ⟨n, hn⟩ := exists_units_add_le hroom
  refine exists_nearest? hden (m := n) (le_trans ?_ (Nat.mul_le_mul_left den hn))
  have hden' : (0 : ℚ) < den := Nat.cast_pos.mpr hden
  have hbelow := (abs_le.mp hx).1
  have habove := hnear.1
  rw [lastFactor] at habove
  have hunits := x.units_le
  have hpos : (0 : ℚ) < 2 ^ x.exponent := by positivity
  have hle : (num : ℚ) / den ≤ x.units + 3 * 2 ^ x.exponent := by linarith
  rw [div_le_iff₀ hden', mul_comm] at hle
  exact_mod_cast hle

end Magnitude

/-! ## Texts -/

open Json

namespace JsonNumber

/-- A number with another sign in front of it. -/
def withSign (n : JsonNumber) (negative : Bool) : JsonNumber :=
  { n with negative }

/-- The sign does not matter for the significand and the exponent. -/
@[simp] theorem parts_withSign (n : JsonNumber) (negative : Bool) :
    (n.withSign negative).parts = n.parts :=
  rfl

/-- The sign does not matter for how a number may be written. -/
theorem Proper.withSign {n : JsonNumber} (h : n.Proper) (negative : Bool) :
    (n.withSign negative).Proper :=
  ⟨h.whole_ne_nil, h.isDigit_of_mem, h.leading, h.fraction_ne_nil, h.isDigit_of_mem_fraction⟩

/-- A sign is written in front of a number without one. -/
theorem chars_withSign {n : JsonNumber} (h : n.negative = false) (negative : Bool) :
    (n.withSign negative).chars = signText negative ++ n.chars := by
  rw [chars, chars, h]
  rfl

end JsonNumber

/-- The number as which the text of a magnitude is read, with a sign in front of it. -/
theorem readsAs_numberJson {n : JsonNumber} (hn : n.Proper) (hsign : n.negative = false)
    {m : Magnitude} (hchars : n.chars = NumberFormat.data.magnitudeText m) (negative : Bool) :
    ReadsAs (numberJson (.finite negative m)).toList (.number (n.withSign negative)) := by
  rw [numberJson, String.toList_ofList, ← hchars, ← JsonNumber.chars_withSign hsign]
  exact readsAs_number (hn.withSign negative)

/-- The last magnitudes are read as numbers, which their texts show one by one. -/
theorem isSome_value?_of_last {m : Magnitude} (hexponent : 2045 ≤ m.exponent)
    (hsignificand : 2 ^ 53 ≤ m.significand + 3) {n : JsonNumber}
    (h : ReadsAs (numberJson (.finite false m)).toList (.number n)) : n.value?.isSome = true := by
  have hlast : ∀ k < 3, (Magnitude.ofParts? (2 ^ 53 - 1 - k) 2045).all (fun m =>
      ((read? (numberJson (.finite false m))).bind number?).isSome) = true := by
    decide +kernel
  obtain ⟨hlt, hmax, -⟩ := m.canonical
  have hread := hlast (2 ^ 53 - 1 - m.significand) (by omega)
  rw [show 2 ^ 53 - 1 - (2 ^ 53 - 1 - m.significand) = m.significand by omega,
    Nat.le_antisymm hexponent hmax, m.ofParts?_self, Option.all_some, h.read?_eq] at hread
  exact hread

/-- How a magnitude comes back: at most three words away, and the same where its significand has no
more than 53 digits and its power of ten is one of the first. -/
structure ComesBack (m : Magnitude) (n : JsonNumber) (r : Magnitude) : Prop where
  proper : n.Proper
  negative_eq : n.negative = false
  chars_eq : n.chars = NumberFormat.data.magnitudeText m
  readSize?_eq : readSize? n.parts.1 n.parts.2 = some (.finite false r)
  word_le : r.word ≤ m.word + 3
  le_word : m.word ≤ r.word + 3
  eq_of_exact : n.parts.1 < 2 ^ 53 → -22 ≤ n.parts.2 → n.parts.2 ≤ 22 → r = m

/-- Every magnitude that is not zero comes back. -/
theorem exists_comesBack_of_ne {m : Magnitude} (hm : m.significand ≠ 0) :
    ∃ n r, ComesBack m n r := by
  obtain ⟨n, s, e, hsign, hdenotes, hread, hs, hbound, hlow, hhigh⟩ :=
    exists_denotes_magnitudeText hm
  have hparts := hdenotes.parts_eq (Nat.lt_of_le_of_lt hbound (by decide))
  obtain ⟨num, den, hden, hsize, hnear⟩ := exists_readQuotient hs hbound hlow hhigh
  -- the magnitude is nearest to what is written, and what is read is nearest to a quotient
  have hx : |(m.units : ℚ) - Decimal.units ⟨s, e⟩| ≤ 2 ^ m.exponent / 2 :=
    Magnitude.abs_sub_le_of_ofDecimal (d := ⟨s, e⟩) hread
  obtain ⟨r, hr⟩ : ∃ r, Magnitude.nearest? num den = some r := by
    by_cases hroom : m.exponent < 2045 ∨ m.significand + 3 < 2 ^ 53
    · exact Magnitude.exists_nearest?_of_near hden hx hnear hroom
    · have hreads := readsAs_numberJson hdenotes.proper hsign hdenotes.chars_eq false
      have hvalue := isSome_value?_of_last (by omega) (by omega) hreads
      rw [JsonNumber.value?_eq, JsonNumber.parts_withSign, hparts, hsize, Option.isSome_map,
        Option.isSome_map, Option.isSome_iff_exists] at hvalue
      exact hvalue
  have hsize' : readSize? n.parts.1 n.parts.2 = some (.finite false r) := by
    rw [hparts, hsize, hr]
    rfl
  obtain ⟨hle, hge⟩ :=
    Magnitude.word_near hx (Magnitude.abs_sub_le_of_nearest? hden hr) hnear.symm
  refine ⟨n, r, hdenotes.proper, hsign, hdenotes.chars_eq, hsize', hle, hge, ?_⟩
  intro hexact hlow' hhigh'
  rw [hparts] at hsize' hexact hlow' hhigh'
  rw [readSize?_eq_ofDecimal hexact hlow' hhigh' hread] at hsize'
  cases hsize'
  rfl

/-- Every magnitude comes back. -/
theorem exists_comesBack (m : Magnitude) : ∃ n r, ComesBack m n r := by
  by_cases hm : m.significand = 0
  · obtain rfl := Magnitude.eq_zero hm
    exact ⟨_, .zero, JsonNumber.proper_zero, rfl, rfl, by decide +kernel, by decide, by decide,
      fun _ _ _ => rfl⟩
  · exact exists_comesBack_of_ne hm

/-! ## Numbers -/

namespace Binary64

/-- The number as which a number comes back when it is written as data and read again. -/
def reread (x : Binary64) : Binary64 :=
  ((read? (numberJson x)).bind number?).getD x

/-- How a finite number comes back: finite, with the same sign, which is the first bit of its word,
and at most three words away. It is the same number where its text has a significand below `2 ^ 53`
and a power of ten up to the 22nd. -/
structure IsReread (x y : Binary64) : Prop where
  finite : y.isFinite = true
  sign_iff : 2 ^ 63 ≤ y.toBits ↔ 2 ^ 63 ≤ x.toBits
  toBits_le : y.toBits ≤ x.toBits + 3
  le_toBits : x.toBits ≤ y.toBits + 3
  eq_of_exact : ∀ n, read? (numberJson x) = some (.number n) → n.parts.1 < 2 ^ 53 →
    -22 ≤ n.parts.2 → n.parts.2 ≤ 22 → y = x

/-- The word of a number is that of its magnitude behind its sign. -/
theorem toBits_finite (negative : Bool) (m : Magnitude) :
    (finite negative m).toBits = (if negative then 2 ^ 63 else 0) + m.word :=
  rfl

/-- The word of a magnitude has no more than 63 bits. -/
theorem word_lt (m : Magnitude) : m.word < 2 ^ 63 := by
  obtain ⟨hlt, hmax, -⟩ := m.canonical
  rw [Magnitude.word]
  omega

/-- A finite number is read as a number that is at most three words away. -/
theorem exists_readsAs_numberJson {x : Binary64} (hx : x.isFinite = true) :
    ∃ n, ReadsAs (numberJson x).toList (.number n) ∧ n.value? = some x.reread ∧
      IsReread x x.reread := by
  cases x with
  | finite negative m =>
    obtain ⟨n, r, hproper, hsign, hchars, hsize, hle, hge, hexact⟩ := exists_comesBack m
    have hreads := readsAs_numberJson hproper hsign hchars negative
    have hvalue : (n.withSign negative).value? = some (.finite negative r) := by
      rw [JsonNumber.value?_eq, JsonNumber.parts_withSign, hsize, Option.map_some]
      cases negative <;> rfl
    have hreread : reread (.finite negative m) = .finite negative r := by
      rw [reread, hreads.read?_eq, Option.bind_some, number?, hvalue, Option.getD_some]
    have hr := word_lt r
    have hm := word_lt m
    refine ⟨_, hreads, hvalue.trans (congrArg some hreread.symm), ?_⟩
    rw [hreread]
    refine ⟨rfl, ?_, ?_, ?_, ?_⟩
    · rw [toBits_finite, toBits_finite]
      cases negative with
      | true => exact iff_of_true (Nat.le_add_right _ _) (Nat.le_add_right _ _)
      | false => exact iff_of_false (by simpa using hr) (by simpa using hm)
    · rw [toBits_finite, toBits_finite, Nat.add_assoc]
      exact Nat.add_le_add_left hle _
    · rw [toBits_finite, toBits_finite, Nat.add_assoc]
      exact Nat.add_le_add_left hge _
    · intro k hk hsmall hlow hhigh
      rw [hreads.read?_eq] at hk
      cases hk
      rw [hexact hsmall hlow hhigh]
  | infinite => cases hx
  | nan => cases hx

end Binary64

end Calculator
