/-
# The FIFO buffer

The model of `struct/fifobuf.h`: a ring of bytes between an interrupt and
the main loop. `head`, `tail` and `last` are the pointers `head`, `tail` and
`end` as offsets from `begin`; that they stay inside the buffer
(`ASSERT_VALID_FIFO`) is part of the structure. `contents` is the list of
the bytes in it, which a push appends to and a pop takes from the front of
(`contents_push`, `contents_pop`); one place always stays free
(`isfull_iff`).
-/
import Mathlib.Data.List.Basic
import Mathlib.Logic.Function.Basic

namespace TinyAprs

/-- `FIFOBuffer` -/
structure FIFOBuffer where
  mem : ℕ → UInt8
  head : ℕ
  tail : ℕ
  last : ℕ
  head_le : head ≤ last
  tail_le : tail ≤ last

namespace FIFOBuffer

/-- `fifo_init`, for a buffer of `last + 1` bytes. -/
def init (last : ℕ) : FIFOBuffer := ⟨fun _ => 0, 0, 0, last, Nat.zero_le _, Nat.zero_le _⟩

/-- `fifo_isempty` -/
def isempty (fb : FIFOBuffer) : Bool := fb.head == fb.tail

/-- `fifo_isfull` -/
def isfull (fb : FIFOBuffer) : Bool := (fb.head == 0 && fb.tail == fb.last) || fb.tail + 1 == fb.head

/-- `fifo_push` -/
def push (fb : FIFOBuffer) (c : UInt8) : FIFOBuffer :=
  { fb with
    mem := Function.update fb.mem fb.tail c
    tail := if fb.tail = fb.last then 0 else fb.tail + 1
    tail_le := by have := fb.tail_le; split <;> omega }

/-- `fifo_pop` -/
def pop (fb : FIFOBuffer) : UInt8 × FIFOBuffer :=
  (fb.mem fb.head,
    { fb with
      head := if fb.head = fb.last then 0 else fb.head + 1
      head_le := by have := fb.head_le; split <;> omega })

/-- `fifo_flush` -/
def flush (fb : FIFOBuffer) : FIFOBuffer := { fb with head := fb.tail, head_le := fb.tail_le }

/-! ### The bytes in it -/

/-- How many bytes are in the buffer. -/
def count (fb : FIFOBuffer) : ℕ := if fb.head ≤ fb.tail then fb.tail - fb.head else fb.tail + (fb.last + 1) - fb.head

/-- Where the `k`-th byte from `head` is. -/
def place (fb : FIFOBuffer) (k : ℕ) : ℕ := if fb.head + k ≤ fb.last then fb.head + k else fb.head + k - (fb.last + 1)

/-- The bytes in the buffer, the oldest first. -/
def contents (fb : FIFOBuffer) : List UInt8 := (List.range fb.count).map fun k => fb.mem (fb.place k)

@[simp] theorem length_contents (fb : FIFOBuffer) : fb.contents.length = fb.count := by simp [contents]

@[simp] theorem contents_init (last : ℕ) : (init last).contents = [] := rfl

theorem count_le (fb : FIFOBuffer) : fb.count ≤ fb.last := by
  have := fb.head_le
  have := fb.tail_le
  unfold count
  split_ifs <;> omega

theorem isempty_iff (fb : FIFOBuffer) : fb.isempty = true ↔ fb.contents = [] := by
  have := fb.head_le
  have := fb.tail_le
  rw [← List.length_eq_zero_iff, length_contents, isempty, beq_iff_eq, count]
  split_ifs <;> omega

/-- One place stays free: a buffer of `last + 1` bytes is full with `last` of
them. -/
theorem isfull_iff (fb : FIFOBuffer) : fb.isfull = true ↔ fb.contents.length = fb.last := by
  have := fb.head_le
  have := fb.tail_le
  rw [length_contents, isfull, Bool.or_eq_true, Bool.and_eq_true, beq_iff_eq, beq_iff_eq, beq_iff_eq, count]
  split_ifs <;> omega

theorem contents_flush (fb : FIFOBuffer) : fb.flush.contents = [] := by
  rw [← List.length_eq_zero_iff, length_contents, count, flush]
  simp

theorem contents_push {fb : FIFOBuffer} (h : fb.isfull = false) (c : UInt8) :
    (fb.push c).contents = fb.contents ++ [c] := by
  have h1 := fb.head_le
  have h2 := fb.tail_le
  have hlt : fb.count < fb.last := by
    have hne : ¬ fb.contents.length = fb.last := by rw [← isfull_iff, h]; decide
    have := fb.count_le
    rw [length_contents] at hne
    omega
  have hcount : (fb.push c).count = fb.count + 1 := by
    simp only [count, push] at hlt ⊢
    split_ifs at hlt ⊢ <;> omega
  have hold : ∀ k < fb.count, (fb.push c).mem ((fb.push c).place k) = fb.mem (fb.place k) := by
    intro k hk
    have hne : fb.place k ≠ fb.tail := by
      simp only [count] at hk hlt
      unfold place
      split_ifs at hk hlt ⊢ <;> omega
    exact Function.update_of_ne hne c fb.mem
  have hnew : (fb.push c).mem ((fb.push c).place fb.count) = c := by
    have hp : (fb.push c).place fb.count = fb.tail := by
      simp only [place, push, count]
      split_ifs <;> omega
    rw [hp]
    exact Function.update_self ..
  rw [contents, hcount, List.range_succ, List.map_append, List.map_singleton, hnew, contents]
  congr 1
  exact List.map_congr_left fun k hk => hold k (List.mem_range.mp hk)

theorem contents_pop {fb : FIFOBuffer} (h : fb.isempty = false) :
    fb.contents = fb.pop.1 :: fb.pop.2.contents := by
  have h1 := fb.head_le
  have h2 := fb.tail_le
  have hne : fb.head ≠ fb.tail := by simpa [isempty] using h
  have hcount : fb.count = fb.pop.2.count + 1 := by
    simp only [count, pop]
    split_ifs <;> omega
  have hplace : ∀ k < fb.pop.2.count, fb.place (k + 1) = fb.pop.2.place k := by
    intro k hk
    have hle := fb.count_le
    simp only [place, pop]
    split_ifs <;> omega
  have hfirst : fb.place 0 = fb.head := by simp [place, h1]
  rw [contents, hcount, List.range_succ_eq_map, List.map_cons, List.map_map, hfirst, contents]
  congr 1
  exact List.map_congr_left fun k hk => congrArg fb.mem (hplace k (List.mem_range.mp hk))

theorem pop_of_contents {fb : FIFOBuffer} {c : UInt8} {cs : List UInt8} (h : fb.contents = c :: cs) :
    fb.isempty = false ∧ fb.pop.1 = c ∧ fb.pop.2.contents = cs := by
  have hne : fb.isempty = false := by
    rw [← Bool.not_eq_true, isempty_iff, h]
    exact List.cons_ne_nil c cs
  have hpop := contents_pop hne
  rw [h] at hpop
  obtain ⟨h1, h2⟩ := List.cons.inj hpop
  exact ⟨hne, h1.symm, h2.symm⟩

end FIFOBuffer

end TinyAprs
