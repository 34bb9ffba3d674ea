/-
# Messages that spread

A machine that holds copies on their way. Taking in a copy with `b` hops left
can put one message out, and up to `g` new copies on their way, each with fewer
hops left: so it causes at most `1 + g + ... + g ^ (b - 1)` messages (`spread`),
and a run puts out no more than its copies, and those its inputs bring, are
worth (`outs_le_worth`).

And a machine in which a sender that has sent once is done sends once
(`nodup_senders`), where done may also speak of the inputs that are still to
come.
-/
import Mathlib.Algebra.Order.BigOperators.Group.Finset
import Mathlib.Algebra.Order.BigOperators.Group.List
import Mathlib.Algebra.Order.Ring.Nat
import Mathlib.Algebra.Ring.GeomSum
import TinyAprs.Lib.Mealy

namespace Mealy

open Finset

variable {σ ι ω τ κ : Type*} {step : σ → ι → σ × List ω}

/-! ### What a copy is worth -/

/-- What a copy with `b` hops left can cause, if a message makes `g` copies. -/
def spread (g b : ℕ) : ℕ := ∑ k ∈ range b, g ^ k

theorem spread_succ (g b : ℕ) : spread g (b + 1) = g * spread g b + 1 := geom_sum_succ

theorem spread_mono (g : ℕ) {a b : ℕ} (h : a ≤ b) : spread g a ≤ spread g b :=
  sum_le_sum_of_subset (range_subset_range.mpr h)

/-- What the copies are worth. -/
def worth (g : ℕ) (rank : τ → ℕ) (ts : List τ) : ℕ := (ts.map fun t => spread g (rank t)).sum

@[simp] theorem worth_nil (g : ℕ) (rank : τ → ℕ) : worth g rank [] = 0 := rfl

@[simp] theorem worth_append (g : ℕ) (rank : τ → ℕ) (ts us : List τ) :
    worth g rank (ts ++ us) = worth g rank ts + worth g rank us := by
  simp [worth]

theorem worth_erase [BEq τ] [LawfulBEq τ] (g : ℕ) (rank : τ → ℕ) {ts : List τ} {t : τ} (h : t ∈ ts) :
    worth g rank ts = spread g (rank t) + worth g rank (ts.erase t) := by
  rw [worth, worth, ((List.perm_cons_erase h).map fun t => spread g (rank t)).sum_eq, List.map_cons, List.sum_cons]

theorem worth_erase_le [BEq τ] [LawfulBEq τ] (g : ℕ) (rank : τ → ℕ) (ts : List τ) (t : τ) :
    worth g rank (ts.erase t) ≤ worth g rank ts := by
  by_cases h : t ∈ ts
  · rw [worth_erase g rank h]
    exact Nat.le_add_left _ _
  · rw [List.erase_of_not_mem h]

/-- Copies that are worth at most `w` each. -/
theorem worth_le {g w : ℕ} {rank : τ → ℕ} {ts : List τ} (h : ∀ t ∈ ts, spread g (rank t) ≤ w) :
    worth g rank ts ≤ ts.length * w := by
  have hsum := List.sum_le_card_nsmul (ts.map fun t => spread g (rank t)) w (by simpa using h)
  simpa [worth] using hsum

/-- A message and its copies, of a copy with more hops left. -/
theorem worth_copies {g b : ℕ} {rank : τ → ℕ} {ts : List τ} (hpos : 0 < b) (hlen : ts.length ≤ g)
    (hrank : ∀ t ∈ ts, rank t < b) : worth g rank ts + 1 ≤ spread g b := by
  obtain ⟨b, rfl⟩ : ∃ c, b = c + 1 := ⟨b - 1, by omega⟩
  rw [spread_succ]
  apply Nat.succ_le_succ
  calc worth g rank ts ≤ ts.length * spread g b :=
        worth_le fun t ht => spread_mono g (Nat.le_of_lt_succ (hrank t ht))
    _ ≤ g * spread g b := Nat.mul_le_mul_right _ hlen

/-- A copy is taken off, and `n` messages with their copies come in its place. -/
theorem worth_replace [BEq τ] [LawfulBEq τ] {g n : ℕ} {rank : τ → ℕ} {ts us : List τ} {t : τ} (h : t ∈ ts)
    (hus : worth g rank us + n ≤ spread g (rank t)) : worth g rank (ts.erase t ++ us) + n ≤ worth g rank ts := by
  rw [worth_erase g rank h, worth_append]
  omega

/-- **A run puts out no more than what it starts with and what its inputs
bring.** -/
theorem outs_le_worth {Inv : σ → Prop} {value : σ → ℕ} {gain : ι → ℕ}
    (hstep : ∀ s x, Inv s → Inv (step s x).1 ∧ value (step s x).1 + (step s x).2.length ≤ value s + gain x) :
    ∀ (xs : List ι) {s : σ}, Inv s → (outs step s xs).length ≤ value s + (xs.map gain).sum
  | [], s, _ => by simp
  | x :: xs, s, hs => by
    obtain ⟨hinv, hle⟩ := hstep s x hs
    have ih := outs_le_worth hstep xs hinv
    rw [outs_cons, List.length_append, List.map_cons, List.sum_cons]
    omega

/-! ### Sending once -/

/-- **Each sender sends once**, if one that has sent is done, and one that is
done stays so and does not send. -/
theorem nodup_senders {who : ω → κ} (Inv : σ → List ι → Prop) (Done : κ → σ → List ι → Prop)
    (hinv : ∀ s x xs, Inv s (x :: xs) → Inv (step s x).1 xs)
    (hsent : ∀ s x xs, Inv s (x :: xs) → ((step s x).2.map who).Nodup ∧
      ∀ o ∈ (step s x).2, Done (who o) (step s x).1 xs)
    (hdone : ∀ k s x xs, Inv s (x :: xs) → Done k s (x :: xs) →
      Done k (step s x).1 xs ∧ ∀ o ∈ (step s x).2, who o ≠ k) :
    ∀ (xs : List ι) {s : σ}, Inv s xs → ((outs step s xs).map who).Nodup
  | [], _, _ => by simp
  | x :: xs, s, hs => by
    have hsilent : ∀ (ys : List ι) {s : σ} {k : κ}, Inv s ys → Done k s ys →
        ∀ o ∈ outs step s ys, who o ≠ k := by
      intro ys
      induction ys with
      | nil => simp
      | cons y ys ih =>
        intro s k hs hk o ho
        obtain ⟨hk', hne⟩ := hdone k s y ys hs hk
        rcases List.mem_append.mp ho with ho | ho
        · exact hne o ho
        · exact ih (hinv s y ys hs) hk' o ho
    obtain ⟨hnodup, hsend⟩ := hsent s x xs hs
    rw [outs_cons, List.map_append, List.nodup_append]
    refine ⟨hnodup, nodup_senders Inv Done hinv hsent hdone xs (hinv s x xs hs), fun k hk k' hk' => ?_⟩
    obtain ⟨o, ho, rfl⟩ := List.mem_map.mp hk
    obtain ⟨o', ho', rfl⟩ := List.mem_map.mp hk'
    exact (hsilent xs (hinv s x xs hs) (hsend o ho) o' ho').symm

end Mealy
