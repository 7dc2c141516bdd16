import Calculator.Proofs.Reader

/-!
# The highest level

How deeply a part of an expression is nested, a reader of its tokens can tell without a tree: it is
the highest level that is open for him, counted from the level that the part starts on. A limit
below the highest level stops him with a level too many if nothing else is wrong.
-/

namespace Calculator

namespace Situation

/-- The highest level that is open before, between or behind the tokens of a list. -/
def highest : Situation → List Token → Nat
  | σ, [] => σ.level
  | σ, t :: ts => max σ.level (highest (σ.read t.kind) ts)

variable {σ : Situation} {limit : Nat} {stop : Token} {ts us : List Token}

/-- The level behind the tokens is not above the highest one. -/
theorem level_after_le_highest (σ : Situation) (ts : List Token) :
    (σ.after ts).level ≤ σ.highest ts := by
  induction ts generalizing σ with
  | nil => exact Nat.le_refl _
  | cons t ts ih => exact Nat.le_trans (ih (σ.read t.kind)) (Nat.le_max_right _ _)

/-- The highest level of two lists is the higher one of the two. -/
theorem highest_append (σ : Situation) (ts us : List Token) :
    σ.highest (ts ++ us) = max (σ.highest ts) ((σ.after ts).highest us) := by
  induction ts generalizing σ with
  | nil =>
    have hle : σ.level ≤ σ.highest us := by
      cases us with
      | nil => exact Nat.le_refl _
      | cons t us => exact Nat.le_max_left _ _
    rw [List.nil_append, highest, after_nil, Nat.max_eq_right hle]
  | cons t ts ih =>
    rw [List.cons_append, highest, highest, ih, after_cons, Nat.max_assoc]

/-- A limit below the highest level stops a reader with a level too many, if each of the tokens may
come next. -/
theorem failure?_of_lt_highest (stop : Token) (h : σ.Passes ts) (hlimit : limit < σ.highest ts) :
    ∃ t us, σ.failure? limit stop ts = some ((Fault.tooDeep limit).errorAt t, us) := by
  induction ts generalizing σ with
  | nil => exact ⟨_, _, failure?_of_lt hlimit⟩
  | cons t ts ih =>
    by_cases hlevel : limit < σ.level
    · exact ⟨_, _, failure?_of_lt hlevel⟩
    · rw [highest] at hlimit
      rw [failure?_of_none (Nat.not_lt.mp hlevel) h.1]
      exact ih h.2 (by omega)

/-- A complete operand goes on with an operator to a situation `τ` in the same group, which lies
`opened` levels higher. Behind the operand that follows the group goes on, and the highest level is
the one of the two parts. -/
theorem highest_operator {τ : Situation} {t : Token} {i j m n opened : Nat}
    (hafter : σ.after ts = σ.completed i) (hhighest : σ.highest ts = σ.level + m)
    (hread : (σ.completed i).read t.kind = τ) (houter : τ.outer = σ.outer)
    (hlevel : τ.level = σ.level + opened) (hafter' : τ.after us = τ.completed j)
    (hhighest' : τ.highest us = τ.level + n) :
    σ.after (ts ++ t :: us) = σ.completed j ∧
      σ.highest (ts ++ t :: us) = σ.level + max m (n + opened) := by
  constructor
  · rw [after_append, hafter, after_cons, hread, hafter', completed, houter]
    rfl
  · have hle := level_after_le_highest σ ts
    rw [hafter] at hle
    rw [highest_append, hafter, highest, hread, hhighest', hlevel]
    omega

/-- Behind an operator of a sum or a product a group that starts anew is back on its level. -/
theorem level_start_group (hinner : σ.inner = ⟨0, 0⟩) :
    level ⟨true, ⟨0, 0⟩, σ.outer⟩ = σ.level + 0 := by
  rw [level, level, hinner]
  rfl

end Situation

open Situation

/-- Behind the tokens of a part its operand is complete, and the highest level is the level that the
part starts on and the levels of the part. -/
theorem Derives.highest_eq {c : Category} {ts : List Token} {e : Expr} {n : Nat}
    (h : Derives c ts e n) {σ : Situation} (hσ : c.StartsIn σ) :
    ∃ exponents, σ.after ts = σ.completed exponents ∧
      (c = .operand ∨ c = .primary → exponents = σ.inner.exponents) ∧
      σ.highest ts = σ.level + n := by
  induction h generalizing σ with
  | sumOfProduct _ ih =>
    obtain ⟨j, hafter, -, hhighest⟩ := ih hσ
    exact ⟨j, hafter, nofun, hhighest⟩
  | productOfPower _ ih =>
    have hinner : σ.inner = ⟨0, 0⟩ := hσ.2
    obtain ⟨j, hafter, -, hhighest⟩ := ih ⟨hσ.1, by rw [hinner]⟩
    exact ⟨j, hafter, nofun, hhighest⟩
  | powerOfOperand _ ih =>
    obtain ⟨j, hafter, -, hhighest⟩ := ih ⟨hσ.1, trivial⟩
    exact ⟨j, hafter, nofun, hhighest⟩
  | operandOfPrimary _ ih =>
    obtain ⟨j, hafter, hj, hhighest⟩ := ih hσ
    exact ⟨j, hafter, fun _ => hj (.inr rfl), hhighest⟩
  | addition _ hop _ ihl ihr =>
    obtain ⟨i, hafter, -, hhighest⟩ := ihl hσ
    obtain ⟨j, hafter', -, hhighest'⟩ := ihr (σ := ⟨true, ⟨0, 0⟩, σ.outer⟩) ⟨rfl, rfl⟩
    obtain ⟨hall, hmax⟩ := highest_operator hafter hhighest (read_operator i (.inl hop)) rfl
      (level_start_group hσ.2) hafter' hhighest'
    exact ⟨j, hall, nofun, hmax⟩
  | multiplication _ hop _ ihl ihr =>
    obtain ⟨i, hafter, -, hhighest⟩ := ihl hσ
    obtain ⟨j, hafter', -, hhighest'⟩ := ihr (σ := ⟨true, ⟨0, 0⟩, σ.outer⟩) ⟨rfl, rfl⟩
    obtain ⟨hall, hmax⟩ := highest_operator hafter hhighest (read_operator i (.inr hop)) rfl
      (level_start_group hσ.2) hafter' hhighest'
    exact ⟨j, hall, nofun, hmax⟩
  | raising _ hk _ ihl ihr =>
    -- no sign waits where a power starts, so the exponent lies one level above the power
    have hsigns : σ.inner.signs = 0 := hσ.2
    obtain ⟨i, hafter, hi, hhighest⟩ := ihl ⟨hσ.1, trivial⟩
    obtain rfl := hi (.inl rfl)
    obtain ⟨j, hafter', -, hhighest'⟩ :=
      ihr (σ := (σ.completed σ.inner.exponents).read .caret) ⟨rfl, rfl⟩
    have hlevel := level_read_caret σ σ.inner.exponents
    rw [level_completed_eq hsigns] at hlevel
    obtain ⟨hall, hmax⟩ := highest_operator hafter hhighest (congrArg _ hk) rfl hlevel hafter'
      hhighest'
    exact ⟨j, hall, nofun, hmax⟩
  | @signing ts e n t sign hsign _ ih =>
    have hread := read_sign hσ.1 hsign
    obtain ⟨j, hafter, hj, hhighest⟩ := ih (σ := σ.read t.kind) ⟨by rw [hread], trivial⟩
    obtain rfl := hj (.inl rfl)
    refine ⟨_, ?_, fun _ => rfl, ?_⟩
    · rw [after_cons, hafter, hread]
      rfl
    · rw [highest, hhighest, level_read_sign hσ.1 hsign]
      omega
  | number hk _ =>
    have hle := level_completed_le σ
    refine ⟨_, ?_, fun _ => rfl, ?_⟩
    · rw [after_cons, after_nil, hk, read_number hσ.1]
    · rw [highest, highest, hk, read_number hσ.1]
      omega
  | @group ts e n opening closing ho _ hc ih =>
    have hread := read_openParen hσ.1
    obtain ⟨j, hafter, -, hhighest⟩ := ih (σ := σ.read .openParen) (by rw [hread]; exact ⟨rfl, rfl⟩)
    have hclose : ((σ.read .openParen).completed j).read closing.kind =
        σ.completed σ.inner.exponents := by
      rw [hread, hc]
      rfl
    refine ⟨_, ?_, fun _ => rfl, ?_⟩
    · rw [after_cons, ho, after_append, hafter, after_cons, hclose, after_nil]
    · -- the highest level lies inside: in front of the group and behind it are lower ones
      have hle := level_completed_le σ
      have hle' := level_after_le_highest (σ.read .openParen) ts
      rw [hafter] at hle'
      rw [highest, ho, highest_append, hafter, highest, highest, hclose, hhighest,
        level_read_openParen hσ.1]
      rw [hhighest, level_read_openParen hσ.1] at hle'
      omega

/-- No list of tokens makes an expression with two different numbers of levels. -/
theorem Derives.levels_unique {ts : List Token} {e f : Expr} {m n : Nat}
    (he : Derives .sum ts e m) (hf : Derives .sum ts f n) : m = n := by
  obtain ⟨-, -, -, hm⟩ := he.highest_eq (σ := start) ⟨rfl, rfl⟩
  obtain ⟨-, -, -, hn⟩ := hf.highest_eq (σ := start) ⟨rfl, rfl⟩
  omega

/-- Tokens that make an expression are not parsed with fewer levels than it has: there is a level
too many. -/
theorem parse_eq_tooDeep {limit n : Nat} {tokens : List Token} {e : Expr}
    (h : Derives .sum (beforeEnd tokens) e n) (hlimit : limit < n + 1) :
    ∃ t, parse limit tokens = .error ((Fault.tooDeep limit).errorAt t) := by
  have hpasses := passes_append.mp (passes_of_derives h (endOf tokens) (kind_endOf tokens))
  obtain ⟨-, -, -, hhighest⟩ := h.highest_eq (σ := start) ⟨rfl, rfl⟩
  rw [show start.level = 1 from rfl] at hhighest
  have hlt : limit < start.highest (beforeEnd tokens) := by omega
  obtain ⟨t, us, hreader⟩ := failure?_of_lt_highest (endOf tokens) hpasses.1 hlt
  exact ⟨t, parse_eq_error_iff.mpr ⟨us, hreader⟩⟩

end Calculator
