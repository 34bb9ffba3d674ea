/-
# A counter that wraps around, read in a larger unit

A counter of period `2 * m` is read as a signed number from `-m` to `m - 1`
(`reading`), and in a larger unit of `d` ticks by dividing that reading, which
cuts toward zero (`units`). Two readings whose difference is positive are at
least as far apart as it says (`reading_sub_le`), and so the difference in
the larger unit is never too large (`early`). It is not too small either
between two times in the same half of a period (`late`); from one half to the
next it says nothing, as the reading jumps or the cut changes its direction.
-/
import Mathlib.Algebra.Order.Ring.Int
import Mathlib.Tactic.Linarith

namespace Ticks

/-- What a counter of period `2 * m` says at time `t`. -/
def reading (m t : ℕ) : ℤ := (t : ℤ).bmod (2 * m)

/-- The same in units of `d` ticks. -/
def units (m d t : ℕ) : ℤ := (reading m t).tdiv d

variable {m d t t' n : ℕ}

theorem reading_eq (hm : 0 < m) (t : ℕ) :
    reading m t = if t / m % 2 = 0 then ((t % m : ℕ) : ℤ) else ((t % m : ℕ) : ℤ) - m := by
  have hmod : t % (2 * m) = t % m + m * (t / m % 2) := by rw [Nat.mul_comm 2 m, Nat.mod_mul]
  have hlt : t % m < m := Nat.mod_lt t hm
  have hcast : ((t : ℤ) % ((2 * m : ℕ) : ℤ)) = ((t % (2 * m) : ℕ) : ℤ) := (Int.natCast_emod t (2 * m)).symm
  rw [reading, Int.bmod_def, hcast, hmod]
  rcases Nat.mod_two_eq_zero_or_one (t / m) with h | h
  · rw [h, if_pos rfl, if_pos]
    · simp
    · push_cast
      omega
  · rw [h, if_neg Nat.one_ne_zero, if_neg]
    · push_cast
      omega
    · push_cast
      omega

theorem reading_bounds (hm : 0 < m) (t : ℕ) : -(m : ℤ) ≤ reading m t ∧ reading m t < m := by
  have hlt : t % m < m := Nat.mod_lt t hm
  rw [reading_eq hm]
  split_ifs <;> omega

/-- In one half of a period the reading counts, and does not change its sign. -/
theorem reading_sub (hm : 0 < m) (hhalf : t / m = t' / m) :
    reading m t' - reading m t = (t' : ℤ) - t ∧ (0 ≤ reading m t ∨ reading m t' < 0) := by
  have ht := Nat.div_add_mod t m
  have ht' := Nat.div_add_mod t' m
  have hlt : t' % m < m := Nat.mod_lt t' hm
  rw [hhalf] at ht
  rw [reading_eq hm, reading_eq hm, hhalf]
  split_ifs <;> omega

/-- A reading that is larger later is not larger by more than the time. -/
theorem reading_sub_le (hm : 0 < m) (hle : t ≤ t') : reading m t' - reading m t ≤ (t' : ℤ) - t := by
  have h1 := reading_bounds hm t
  have h2 := reading_bounds hm t'
  have hd1 : ((2 * m : ℕ) : ℤ) ∣ reading m t - t := Int.dvd_bmod_sub_self
  have hd2 : ((2 * m : ℕ) : ℤ) ∣ reading m t' - t' := Int.dvd_bmod_sub_self
  obtain ⟨k, hk⟩ := Int.dvd_sub hd1 hd2
  -- the time is the difference and `k` whole periods, and `k` is not negative
  have hk0 : 0 ≤ k := by
    by_contra hneg
    have : ((2 * m : ℕ) : ℤ) * k ≤ ((2 * m : ℕ) : ℤ) * (-1) :=
      Int.mul_le_mul_of_nonneg_left (by omega) (Int.natCast_nonneg _)
    push_cast at this hk
    omega
  have : 0 ≤ ((2 * m : ℕ) : ℤ) * k := Int.mul_nonneg (Int.natCast_nonneg _) hk0
  omega

theorem tdiv_bounds (hd : 0 < d) (a : ℤ) :
    (0 ≤ a → a.tdiv d * d ≤ a ∧ a < a.tdiv d * d + d) ∧
      (a < 0 → a ≤ a.tdiv d * d ∧ a.tdiv d * d - d < a) := by
  have hsum := Int.tdiv_mul_add_tmod a d
  refine ⟨fun h => ?_, fun h => ?_⟩
  · have h1 := Int.tmod_nonneg (d : ℤ) h
    have h2 := Int.tmod_lt_of_pos a (by omega : (0 : ℤ) < d)
    omega
  · have hneg : a.tmod d = -((-a).tmod d) := by rw [Int.neg_tmod, Int.neg_neg]
    have h1 := Int.tmod_nonneg (d : ℤ) (by omega : 0 ≤ -a)
    have h2 := Int.tmod_lt_of_pos (-a) (by omega : (0 : ℤ) < d)
    omega

/-- From a positive reading to a negative one no units are gained. -/
theorem units_sub_nonpos (h0 : 0 ≤ reading m t) (h0' : reading m t' < 0) : units m d t' - units m d t ≤ 0 := by
  have hpos : 0 ≤ (reading m t).tdiv d := Int.tdiv_nonneg h0 (Int.natCast_nonneg d)
  have hneg : 0 ≤ (-reading m t').tdiv d := Int.tdiv_nonneg (by omega) (Int.natCast_nonneg d)
  rw [Int.neg_tdiv] at hneg
  unfold units
  omega

/-- What is more than `n` units later is more than `n` units of time later. -/
theorem early (hm : 0 < m) (hd : 0 < d) (hle : t ≤ t') (h : (n : ℤ) < units m d t' - units m d t) :
    t + n * d < t' := by
  have hsub := reading_sub_le hm hle
  have hb := tdiv_bounds hd (reading m t)
  have hb' := tdiv_bounds hd (reading m t')
  have hmul : ((n : ℤ) + 1) * d ≤ (units m d t' - units m d t) * d :=
    Int.mul_le_mul_of_nonneg_right (by omega) (Int.natCast_nonneg d)
  rw [Int.sub_mul, Int.add_mul, Int.one_mul] at hmul
  unfold units at hmul
  zify
  rcases Int.lt_or_le (reading m t) 0 with h0 | h0
  · rcases Int.lt_or_le (reading m t') 0 with h0' | h0'
    · linarith [hb.2 h0, hb'.2 h0']
    · linarith [hb.2 h0, hb'.1 h0']
  · rcases Int.lt_or_le (reading m t') 0 with h0' | h0'
    · have hnone : units m d t' - units m d t ≤ 0 := units_sub_nonpos h0 h0'
      omega
    · linarith [hb.1 h0, hb'.1 h0']

/-- In one half of a period, what is `n + 1` units of time later is more than
`n` units later. -/
theorem late (hm : 0 < m) (hd : 0 < d) (hhalf : t / m = t' / m) (h : t + (n + 1) * d ≤ t') :
    (n : ℤ) < units m d t' - units m d t := by
  obtain ⟨hsub, hsign⟩ := reading_sub hm hhalf
  have hb := tdiv_bounds hd (reading m t)
  have hb' := tdiv_bounds hd (reading m t')
  zify at h
  by_contra hle
  have hmul : (units m d t' - units m d t) * d ≤ (n : ℤ) * d :=
    Int.mul_le_mul_of_nonneg_right (by omega) (Int.natCast_nonneg d)
  rw [Int.sub_mul] at hmul
  unfold units at hmul
  rcases hsign with h0 | h0'
  · linarith [hb.1 h0, hb'.1 (by linarith [Int.mul_nonneg (by omega : (0 : ℤ) ≤ n + 1) (Int.natCast_nonneg d)])]
  · linarith [hb'.2 h0', hb.2 (by linarith [Int.mul_nonneg (by omega : (0 : ℤ) ≤ n + 1) (Int.natCast_nonneg d)])]

/-- From the half with the positive readings to the next one, no units are
gained. -/
theorem units_overflow (hm : 0 < m) (heven : t / m % 2 = 0) (hnext : t' / m = t / m + 1) :
    units m d t' - units m d t ≤ 0 := by
  have hlt : t' % m < m := Nat.mod_lt t' hm
  have h0 : 0 ≤ reading m t := by
    rw [reading_eq hm, if_pos heven]
    exact Int.natCast_nonneg _
  have h0' : reading m t' < 0 := by
    rw [reading_eq hm, if_neg (by omega)]
    omega
  exact units_sub_nonpos h0 h0'

end Ticks
