/-
# Records that are written cell by cell

A record in memory is overwritten one cell at a time, in some order, and the
writing may stop after any cell: what stands there then is a mixture of the
old record and the new one. A sum over the record tells such a mixture from
the old record, if the two records differ in two cells at most
(`torn_sum`): with one of the two written, the sum has changed; with none or
both, the mixture is one of the records.
-/
import Mathlib.Algebra.BigOperators.Group.Finset.Basic
import TinyAprs.Lib.Cells

namespace Torn

variable {α : Type*}

/-- The memory after the writes. -/
def apply (m : ℕ → α) (ws : List (ℕ × α)) : ℕ → α := ws.foldl (fun m w => Function.update m w.1 w.2) m

/-- The writes of a record's cells, in the given order. -/
def cellWrites (off : ℕ) (new : ℕ → α) (is : List ℕ) : List (ℕ × α) := is.map fun i => (off + i, new i)

@[simp] theorem apply_nil (m : ℕ → α) : apply m [] = m := rfl

theorem apply_append (m : ℕ → α) (ws ws' : List (ℕ × α)) : apply m (ws ++ ws') = apply (apply m ws) ws' :=
  List.foldl_append

theorem apply_of_notMem (ws : List (ℕ × α)) (m : ℕ → α) {p : ℕ} (h : ∀ w ∈ ws, w.1 ≠ p) :
    apply m ws p = m p := by
  induction ws generalizing m with
  | nil => rfl
  | cons w ws ih =>
    have hrest := ih (Function.update m w.1 w.2) fun x hx => h x (List.mem_cons_of_mem w hx)
    exact hrest.trans (Function.update_of_ne (h w List.mem_cons_self).symm _ _)

theorem apply_cells_outside (m : ℕ → α) {off : ℕ} (new : ℕ → α) {is : List ℕ} {p n : ℕ}
    (his : ∀ i ∈ is, i < n) (hp : p < off ∨ off + n ≤ p) : apply m (cellWrites off new is) p = m p := by
  refine apply_of_notMem _ m fun w hw => ?_
  obtain ⟨i, hi, rfl⟩ := List.mem_map.mp hw
  have := his i hi
  show off + i ≠ p
  omega

/-- The cells that are written are new, the others are old. -/
theorem apply_cells (off : ℕ) (new : ℕ → α) (i : ℕ) (is : List ℕ) (m : ℕ → α) :
    apply m (cellWrites off new is) (off + i) = if i ∈ is then new i else m (off + i) := by
  induction is generalizing m with
  | nil => rfl
  | cons j is ih =>
    show apply (Function.update m (off + j) (new j)) (cellWrites off new is) (off + i) = _
    rw [ih]
    by_cases hmem : i ∈ is
    · rw [if_pos hmem, if_pos (List.mem_cons_of_mem j hmem)]
    · rw [if_neg hmem]
      by_cases hij : i = j
      · subst hij
        rw [Function.update_self, if_pos List.mem_cons_self]
      · rw [Function.update_of_ne (by omega), if_neg]
        rw [List.mem_cons, not_or]
        exact ⟨hij, hmem⟩

/-! ### Sums -/

section Sum

variable {ι A : Type*} [DecidableEq ι] [AddCommGroup A] {s : Finset ι}

/-- Records with the same sum do not differ in one cell alone. -/
theorem eq_of_sum_eq {f g : ι → A} {a : ι} (hsame : ∀ i ∈ s, i ≠ a → f i = g i)
    (hsum : ∑ i ∈ s, f i = ∑ i ∈ s, g i) : ∀ i ∈ s, f i = g i := by
  intro i hi
  by_cases hia : i = a
  · subst hia
    have hrest : ∑ j ∈ s.erase i, f j = ∑ j ∈ s.erase i, g j :=
      Finset.sum_congr rfl fun j hj => hsame j (Finset.mem_of_mem_erase hj) (Finset.ne_of_mem_erase hj)
    rw [← Finset.add_sum_erase s f hi, ← Finset.add_sum_erase s g hi, hrest] at hsum
    exact add_right_cancel hsum
  · exact hsame i hi hia

/-- A mixture of two records that differ in two cells at most is one of them,
if it has the sum of the old one. -/
theorem torn_sum {old new mix : ι → A} {a b : ι} (hsame : ∀ i ∈ s, i ≠ a → i ≠ b → new i = old i)
    (hmix : ∀ i ∈ s, mix i = old i ∨ mix i = new i) (hsum : ∑ i ∈ s, mix i = ∑ i ∈ s, old i) :
    (∀ i ∈ s, mix i = old i) ∨ ∀ i ∈ s, mix i = new i := by
  have hother : ∀ i ∈ s, i ≠ a → i ≠ b → mix i = old i := by
    intro i hi hia hib
    rcases hmix i hi with h | h
    · exact h
    · exact h.trans (hsame i hi hia hib)
  by_cases hb : b ∈ s ∧ mix b ≠ old b
  · by_cases ha : a ∈ s ∧ mix a ≠ old a
    · -- both are written
      refine Or.inr fun i hi => ?_
      by_cases hold : mix i = old i
      · have hia : i ≠ a := by rintro rfl; exact ha.2 hold
        have hib : i ≠ b := by rintro rfl; exact hb.2 hold
        exact hold.trans (hsame i hi hia hib).symm
      · exact (hmix i hi).resolve_left hold
    · -- only `b` could have changed the sum
      have hrest : ∀ i ∈ s, i ≠ b → mix i = old i := by
        intro i hi hib
        by_cases hia : i = a
        · subst hia
          exact not_not.mp fun h => ha ⟨hi, h⟩
        · exact hother i hi hia hib
      exact Or.inl (eq_of_sum_eq hrest hsum)
  · have hrest : ∀ i ∈ s, i ≠ a → mix i = old i := by
      intro i hi hia
      by_cases hib : i = b
      · subst hib
        exact not_not.mp fun h => hb ⟨hi, h⟩
      · exact hother i hi hia hib
    exact Or.inl (eq_of_sum_eq hrest hsum)

end Sum

end Torn
