/-
# Strings with a terminator

A string in memory is the symbols before the first terminator `z`:
`Str z m off w` says that the string at `off` is `w`. Whoever reads at most
`n` cells of it and stops at the terminator reads the first `n` symbols
(`Str.read`), and a terminator stored into it makes two strings of it
(`Str.cut`).
-/
import Mathlib.Data.List.TakeWhile
import TinyAprs.Lib.Cells

namespace Terminated

variable {α : Type*} [DecidableEq α] {z : α} {m : ℕ → α} {off : ℕ} {w : List α}

/-- The string at `off` is `w`. -/
structure Str (z : α) (m : ℕ → α) (off : ℕ) (w : List α) : Prop where
  cells : Cells.At m off (w ++ [z])
  free : z ∉ w

/-- At most `n` cells, up to the terminator. -/
def upTo (z : α) (m : ℕ → α) (off n : ℕ) : List α := (Cells.slice m off n).takeWhile (· != z)

theorem takeWhile_free (h : z ∉ w) (rest : List α) : (w ++ z :: rest).takeWhile (· != z) = w := by
  have hw : ∀ c ∈ w, (c != z) = true := by
    intro c hc
    rw [bne_iff_ne]
    rintro rfl
    exact h hc
  rw [List.takeWhile_append_of_pos hw, List.takeWhile_cons_of_neg (by simp), List.append_nil]

/-- The string is read up to its terminator, or for `n` symbols. -/
theorem Str.read (h : Str z m off w) (n : ℕ) : upTo z m off n = w.take n := by
  have hcells : Cells.slice m off (w.length + 1) = w ++ [z] := by
    have := h.cells
    rwa [Cells.At, List.length_append] at this
  by_cases hn : n ≤ w.length
  · obtain ⟨k, hk⟩ := Nat.exists_eq_add_of_le hn
    rw [hk, Nat.add_assoc, Cells.slice_add] at hcells
    have htake := congrArg (List.take n) hcells
    rw [List.take_left' (Cells.length_slice ..), List.take_append_of_le_length hn] at htake
    rw [upTo, htake, List.takeWhile_eq_self_iff]
    intro c hc
    rw [bne_iff_ne]
    rintro rfl
    exact h.free (List.mem_of_mem_take hc)
  · obtain ⟨k, rfl⟩ := Nat.exists_eq_add_of_lt (Nat.lt_of_not_le hn)
    rw [upTo, show w.length + k + 1 = w.length + 1 + k by omega, Cells.slice_add, hcells, List.append_assoc,
      List.singleton_append, takeWhile_free h.free, List.take_of_length_le (by omega)]

omit [DecidableEq α] in
/-- The string's first cell: its first symbol, or the terminator. -/
theorem Str.head (h : Str z m off w) : m off = w.headD z := by
  have hc := h.cells
  cases w with
  | nil => exact ((Cells.at_cons ..).mp hc).1
  | cons c w => exact ((Cells.at_cons ..).mp hc).1

omit [DecidableEq α] in
theorem Str.suffix {a b : List α} (h : Str z m off (a ++ b)) : Str z m (off + a.length) b := by
  have hcells := h.cells
  rw [List.append_assoc, Cells.at_append] at hcells
  exact ⟨hcells.2, fun hz => h.free (List.mem_append_right a hz)⟩

omit [DecidableEq α] in
theorem Str.terminator (h : Str z m off w) : m (off + w.length) = z :=
  ((Cells.at_cons ..).mp ((Cells.at_append ..).mp h.cells).2).1

/-! ### Storing into a string -/

omit [DecidableEq α] in
theorem Str.cut {a b : List α} {c : α} (h : Str z m off (a ++ c :: b)) :
    Str z (Function.update m (off + a.length) z) off a ∧
      Str z (Function.update m (off + a.length) z) (off + a.length + 1) b := by
  have hfree := h.free
  rw [List.mem_append, List.mem_cons, not_or, not_or] at hfree
  have hcells := h.cells
  rw [List.append_assoc, List.cons_append, Cells.at_append, Cells.at_cons] at hcells
  obtain ⟨ha, -, hb⟩ := hcells
  refine ⟨⟨?_, hfree.1⟩, ⟨hb.update_of_lt (Nat.lt_succ_self _) z, hfree.2.2⟩⟩
  exact ha.snoc z

omit [DecidableEq α] in
theorem Str.cut_take (h : Str z m off w) {k : ℕ} (hk : k < w.length) :
    Str z (Function.update m (off + k) z) off (w.take k) := by
  have hsplit : Str z m off (w.take k ++ w[k] :: w.drop (k + 1)) := by
    rwa [← List.drop_eq_getElem_cons, List.take_append_drop]
  have hcut := hsplit.cut.1
  rwa [List.length_take, Nat.min_eq_left (Nat.le_of_lt hk)] at hcut

omit [DecidableEq α] in
theorem Str.overwrite (h : Str z m off w) {w' : List α} (hlen : w'.length = w.length) (hfree : z ∉ w') :
    Str z (Cells.write m off w') off w' := by
  refine ⟨(Cells.at_append ..).mpr ⟨Cells.at_write w' m off, ?_⟩, hfree⟩
  have hz := ((Cells.at_append ..).mp h.cells).2
  rw [hlen]
  refine hz.congr fun k _ => ?_
  exact Cells.write_of_outside w' m (by omega)

omit [DecidableEq α] in
theorem Str.write_beside (h : Str z m off w) {l : List α} {off' : ℕ}
    (hout : off' + l.length ≤ off ∨ off + w.length < off') : Str z (Cells.write m off' l) off w := by
  refine ⟨h.cells.congr fun k hk => ?_, h.free⟩
  rw [List.length_append, List.length_singleton] at hk
  exact Cells.write_of_outside l m (by omega)

end Terminated
