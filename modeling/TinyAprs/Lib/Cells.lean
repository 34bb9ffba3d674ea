/-
# Arrays as functions of the offset

A fixed array, or the memory behind a pointer, is read as a function
`ℕ → α`; `slice m off n` is the list of the `n` cells from `off`. Storing
past the end of a slice leaves it alone (`slice_update_of_le`), storing at
its end appends (`slice_update_snoc`). `At m off l` says that the list `l`
lies at `off`; for `a ++ b` that is `a` and then `b` (`at_append`). `write`
stores a whole list, and leaves every slice beside it alone
(`slice_write_of_disjoint`). The counters of such an array are bytes, and
count as numbers until they overflow (`toNat_succ`).
-/
import Mathlib.Data.List.Basic
import Mathlib.Logic.Function.Basic

namespace Cells

variable {α : Type*}

theorem toNat_succ {c : UInt8} (h : c.toNat < 255) : (c + 1).toNat = c.toNat + 1 := by
  rw [UInt8.toNat_add]
  exact Nat.mod_eq_of_lt (by show c.toNat + 1 < 256; omega)

/-- The `n` cells of `m` from `off`. -/
def slice (m : ℕ → α) (off n : ℕ) : List α := (List.range n).map fun k => m (off + k)

@[simp] theorem slice_zero (m : ℕ → α) (off : ℕ) : slice m off 0 = [] := rfl

@[simp] theorem length_slice (m : ℕ → α) (off n : ℕ) : (slice m off n).length = n := by
  simp [slice]

theorem slice_succ (m : ℕ → α) (off n : ℕ) :
    slice m off (n + 1) = slice m off n ++ [m (off + n)] := by
  simp [slice, List.range_succ]

theorem slice_succ_cons (m : ℕ → α) (off n : ℕ) :
    slice m off (n + 1) = m off :: slice m (off + 1) n := by
  simp only [slice, List.range_succ_eq_map, List.map_cons, List.map_map, Nat.add_zero]
  congr 1
  refine List.map_congr_left fun k _ => ?_
  simp only [Function.comp_apply]
  congr 1
  omega

theorem slice_add (m : ℕ → α) (off a b : ℕ) :
    slice m off (a + b) = slice m off a ++ slice m (off + a) b := by
  induction b with
  | zero => simp
  | succ b ih => rw [← Nat.add_assoc, slice_succ, ih, slice_succ, List.append_assoc, Nat.add_assoc]

theorem take_drop_slice (m : ℕ → α) (off a b c : ℕ) :
    ((slice m off (a + (b + c))).drop a).take b = slice m (off + a) b := by
  rw [slice_add, List.drop_left' (length_slice m off a), slice_add,
    List.take_left' (length_slice m (off + a) b)]

theorem slice_congr {m m' : ℕ → α} {off n : ℕ} (h : ∀ k < n, m (off + k) = m' (off + k)) :
    slice m off n = slice m' off n := by
  refine List.map_congr_left fun k hk => ?_
  exact h k (List.mem_range.mp hk)

theorem slice_update_of_le (m : ℕ → α) {off n i : ℕ} (x : α) (h : off + n ≤ i) :
    slice (Function.update m i x) off n = slice m off n := by
  refine slice_congr fun k hk => ?_
  rw [Function.update_of_ne (by omega)]

theorem slice_update_snoc (m : ℕ → α) (off n : ℕ) (x : α) :
    slice (Function.update m (off + n) x) off (n + 1) = slice m off n ++ [x] := by
  rw [slice_succ, slice_update_of_le m x (Nat.le_refl _), Function.update_self]

/-- The list `l` lies at `off`. -/
def At (m : ℕ → α) (off : ℕ) (l : List α) : Prop := slice m off l.length = l

@[simp] theorem at_nil (m : ℕ → α) (off : ℕ) : At m off [] := rfl

theorem at_append (m : ℕ → α) (off : ℕ) (a b : List α) :
    At m off (a ++ b) ↔ At m off a ∧ At m (off + a.length) b := by
  unfold At
  rw [List.length_append, slice_add]
  constructor
  · intro h
    exact List.append_inj h (by simp)
  · rintro ⟨ha, hb⟩
    rw [ha, hb]

theorem at_cons (m : ℕ → α) (off : ℕ) (x : α) (l : List α) :
    At m off (x :: l) ↔ m off = x ∧ At m (off + 1) l := by
  unfold At
  rw [List.length_cons, slice_succ_cons, List.cons.injEq]

/-- A list that lies in memory grows by a store behind it. -/
theorem At.snoc {m : ℕ → α} {l : List α} {off : ℕ} (h : At m off l) (x : α) :
    At (Function.update m (off + l.length) x) off (l ++ [x]) := by
  unfold At at h ⊢
  rw [List.length_append, List.length_singleton, slice_update_snoc, h]

theorem At.get {m : ℕ → α} {off k : ℕ} {l : List α} (h : At m off l) (hk : k < l.length) :
    m (off + k) = l[k] := by
  have h1 : (slice m off l.length)[k]? = some (m (off + k)) := by simp [slice, hk]
  rw [h, List.getElem?_eq_getElem hk] at h1
  exact (Option.some.inj h1).symm

theorem At.congr {m m' : ℕ → α} {l : List α} {off : ℕ} (h : At m off l)
    (hm : ∀ k < l.length, m' (off + k) = m (off + k)) : At m' off l := by
  unfold At at h ⊢
  rw [slice_congr hm, h]

theorem At.update_of_lt {m : ℕ → α} {l : List α} {off a : ℕ} (h : At m off l) (ha : a < off) (x : α) :
    At (Function.update m a x) off l :=
  h.congr fun _ _ => Function.update_of_ne (by omega) ..

/-! ### Storing a list -/

/-- `m` with the list stored from `off`. -/
def write (m : ℕ → α) : ℕ → List α → ℕ → α
  | _, [] => m
  | off, x :: l => write (Function.update m off x) (off + 1) l

theorem write_of_outside : ∀ (l : List α) (m : ℕ → α) {off a : ℕ}, a < off ∨ off + l.length ≤ a →
    write m off l a = m a
  | [], _, _, _, _ => rfl
  | x :: l, m, off, a, h => by
    rw [List.length_cons] at h
    rw [write, write_of_outside l _ (by omega), Function.update_of_ne (by omega)]

theorem at_write : ∀ (l : List α) (m : ℕ → α) (off : ℕ), At (write m off l) off l
  | [], _, _ => rfl
  | x :: l, m, off => by
    rw [at_cons]
    refine ⟨?_, at_write l _ _⟩
    rw [write, write_of_outside l _ (by omega), Function.update_self]

theorem slice_write_of_disjoint (l : List α) (m : ℕ → α) {off off' n : ℕ}
    (h : off' + n ≤ off ∨ off + l.length ≤ off') : slice (write m off l) off' n = slice m off' n := by
  refine slice_congr fun k hk => ?_
  exact write_of_outside l m (by omega)

theorem At.write_append {m : ℕ → α} {off : ℕ} {a : List α} (h : At m off a) (b c : List α) :
    At (write m (off + a.length) (b ++ c)) off (a ++ b) := by
  refine (at_append ..).mpr ⟨?_, ((at_append ..).mp (at_write (b ++ c) m (off + a.length))).1⟩
  rw [At, slice_write_of_disjoint _ _ (Or.inl (Nat.le_refl _))]
  exact h

end Cells
