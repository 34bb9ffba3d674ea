/-
# Getting done in rounds

A machine whose every step leaves its state alone or lowers a number, the work
left. If in every state with work left each round of inputs has one that does
not leave the state alone, as many rounds as there is work finish it
(`work_zero_of_rounds`), whatever the rounds hold besides.
-/
import TinyAprs.Lib.Mealy

namespace Mealy

variable {σ ι ω : Type*} (step : σ → ι → σ × List ω) (Inv : σ → Prop) (work : σ → ℕ)

/-- Every step keeps the invariant, and leaves the state alone or lowers the
work. -/
def Lowers : Prop := ∀ s x, Inv s → Inv (step s x).1 ∧ ((step s x).1 = s ∨ work (step s x).1 < work s)

variable {step Inv work}

theorem Lowers.run (h : Lowers step Inv work) : ∀ (xs : List ι) {s : σ}, Inv s →
    Inv (final step s xs) ∧ work (final step s xs) ≤ work s
  | [], _, hs => ⟨hs, Nat.le_refl _⟩
  | x :: xs, s, hs => by
    obtain ⟨hinv, hwork⟩ := h s x hs
    obtain ⟨ih1, ih2⟩ := h.run xs hinv
    refine ⟨ih1, Nat.le_trans ih2 ?_⟩
    rcases hwork with heq | hlt
    · exact Nat.le_of_eq (congrArg work heq)
    · exact Nat.le_of_lt hlt

/-- A round with an input that does something lowers the work. -/
theorem Lowers.round (h : Lowers step Inv work) : ∀ (xs : List ι) {s : σ}, Inv s →
    (∃ x ∈ xs, (step s x).1 ≠ s) → work (final step s xs) < work s
  | [], _, _, hx => by simp at hx
  | y :: xs, s, hs, hx => by
    obtain ⟨hinv, hwork⟩ := h s y hs
    rw [final_cons]
    rcases hwork with heq | hlt
    · -- the first input did nothing, and the state is as it was
      obtain ⟨x, hmem, hne⟩ := hx
      have hrest : x ∈ xs := by
        rcases List.mem_cons.mp hmem with rfl | hmem
        · exact absurd heq hne
        · exact hmem
      rw [heq]
      exact h.round xs hs ⟨x, hrest, hne⟩
    · exact Nat.lt_of_le_of_lt (h.run xs hinv).2 hlt

/-- **Enough rounds finish the work.** -/
theorem work_zero_of_rounds (h : Lowers step Inv work) {Round : List ι → Prop}
    (hround : ∀ s xs, Inv s → work s ≠ 0 → Round xs → ∃ x ∈ xs, (step s x).1 ≠ s) :
    ∀ (rounds : List (List ι)) {s : σ}, Inv s → (∀ xs ∈ rounds, Round xs) → work s ≤ rounds.length →
      work (final step s rounds.flatten) = 0
  | [], s, _, _, hlen => Nat.le_zero.mp hlen
  | xs :: rounds, s, hs, hr, hlen => by
    have hinv := (h.run xs hs).1
    have hall : ∀ ys ∈ rounds, Round ys := fun ys hys => hr ys (List.mem_cons_of_mem xs hys)
    rw [List.flatten_cons, final_append]
    refine work_zero_of_rounds h hround rounds hinv hall ?_
    rw [List.length_cons] at hlen
    by_cases hz : work s = 0
    · have := (h.run xs hs).2
      omega
    · have := h.round xs hs (hround s xs hs hz (hr xs List.mem_cons_self))
      omega

end Mealy
