/-
# Bit stuffing

A bit-synchronous link marks its frames with a flag, a run of `n + 1` ones
between two zeros, and keeps data from looking like one: behind `n` ones in
a row the sender puts a zero in front of the next data bit (`stuff`), and
nothing in front of a flag. A receiver only counts ones (`hear`): it drops
the zero behind `n` of them, takes the zero behind `n + 1` for a flag and
`n + 2` ones for an abort. So it hears stuffed data as the data it is
(`outs_stuff`), and a flag, whatever came before, as a flag behind at most
`n + 2` bits (`outs_flagBits`).
-/
import TinyAprs.Lib.Mealy

namespace BitStuff

open Mealy

/-- What a receiver takes a bit for. -/
inductive Sym where
  | bit (b : Bool)
  | flag
  | abort
  deriving DecidableEq, Repr

variable (n : ℕ)

/-! ### The sender -/

/-- The ones in a row after the data bit `b`, with `k` of them before it. -/
def next (k : ℕ) (b : Bool) : ℕ := if b then (if n ≤ k then 1 else k + 1) else 0

/-- The bits on the line for data bits, with `k` ones in a row before them. -/
def stuff : ℕ → List Bool → List Bool
  | _, [] => []
  | k, b :: bs => (if n ≤ k then [false] else []) ++ b :: stuff (next n k b) bs

def flagBits : List Bool := false :: (List.replicate (n + 1) true ++ [false])

/-- The bits of `m` flags. -/
def flags (m : ℕ) : List Bool := (List.replicate m (flagBits n)).flatten

/-- The masks of a byte's bits, in the order they are sent. -/
def masks : List UInt8 := [0x01, 0x02, 0x04, 0x08, 0x10, 0x20, 0x40, 0x80]

/-- The bits of a byte, the least significant first. -/
def byteBits (c : UInt8) : List Bool := masks.map fun m => c &&& m != 0

theorem flags_succ (m : ℕ) : flags n (m + 1) = flagBits n ++ flags n m := by
  simp [flags, List.replicate_succ]

theorem flags_add (a b : ℕ) : flags n (a + b) = flags n a ++ flags n b := by
  rw [flags, List.replicate_add, List.flatten_append]
  rfl

@[simp] theorem stuff_nil (k : ℕ) : stuff n k [] = [] := rfl

theorem stuff_append : ∀ (k : ℕ) (as bs : List Bool),
    stuff n k (as ++ bs) = stuff n k as ++ stuff n (as.foldl (next n) k) bs
  | _, [], _ => rfl
  | k, a :: as, bs => by
    simp only [List.cons_append, stuff, List.foldl_cons, stuff_append (next n k a) as bs, List.append_assoc]

/-- The stuffed zero goes first, and the ones are counted anew. -/
theorem stuff_full {n k : ℕ} (hn : 0 < n) (hk : n ≤ k) (b : Bool) (bs : List Bool) :
    stuff n k (b :: bs) = false :: stuff n 0 (b :: bs) := by
  have h0 : ¬ n ≤ 0 := by omega
  cases b <;> simp [stuff, next, hk, h0]

theorem stuff_room {n k : ℕ} (hk : k < n) (b : Bool) (bs : List Bool) :
    stuff n k (b :: bs) = b :: stuff n (next n k b) bs := by
  simp [stuff, Nat.not_le.mpr hk]

theorem next_le {n k : ℕ} (hn : 0 < n) (b : Bool) : next n k b ≤ n := by
  unfold next
  split_ifs <;> omega

theorem foldl_next_le {n : ℕ} (hn : 0 < n) : ∀ (bs : List Bool) {k : ℕ}, k ≤ n → bs.foldl (next n) k ≤ n
  | [], _, hk => hk
  | b :: bs, _, _ => foldl_next_le hn bs (next_le hn b)

theorem length_stuff_le (k : ℕ) (bs : List Bool) : (stuff n k bs).length ≤ 2 * bs.length := by
  induction bs generalizing k with
  | nil => simp
  | cons b bs ih =>
    have hrest := ih (next n k b)
    simp only [stuff, List.length_append, List.length_cons]
    split_ifs <;> simp only [List.length_cons, List.length_nil] <;> omega

/-! ### The receiver -/

/-- The ones in a row after a bit on the line; past an abort they are not
told apart. -/
def count (k : ℕ) (b : Bool) : ℕ := if b then min (k + 1) (n + 2) else 0

/-- What a receiver hears in a bit, after `k` ones in a row. -/
def hear (k : ℕ) (b : Bool) : ℕ × List Sym :=
  (count n k b,
    if b then (if n + 1 ≤ k then [.abort] else [.bit true])
    else if k = n + 1 then [.flag]
    else if n ≤ k then [] else [.bit false])

theorem hear_bit {n k : ℕ} (hn : 0 < n) (hk : k ≤ n) (b : Bool) :
    final (hear n) k ((if n ≤ k then [false] else []) ++ [b]) = next n k b ∧
    outs (hear n) k ((if n ≤ k then [false] else []) ++ [b]) = [.bit b] := by
  by_cases hfull : n ≤ k
  · have hkn : k = n := by omega
    have h0 : ¬ n ≤ 0 := by omega
    subst hkn
    cases b <;> simp [hear, count, next, h0]
  · have h1 : ¬ n + 1 ≤ k := by omega
    have h2 : k ≠ n + 1 := by omega
    have h3 : min (k + 1) (n + 2) = k + 1 := by omega
    cases b <;> simp [hear, count, next, hfull, h1, h2, h3]

/-- **Stuffed data is heard as the data.** -/
theorem outs_stuff {n : ℕ} (hn : 0 < n) : ∀ (bs : List Bool) {k : ℕ}, k ≤ n →
    final (hear n) k (stuff n k bs) = bs.foldl (next n) k ∧
    outs (hear n) k (stuff n k bs) = bs.map .bit
  | [], _, _ => ⟨rfl, rfl⟩
  | b :: bs, k, hk => by
    have hb := hear_bit hn hk b
    have ih := outs_stuff hn bs (next_le (k := k) hn b)
    have hsplit : stuff n k (b :: bs) = ((if n ≤ k then [false] else []) ++ [b]) ++ stuff n (next n k b) bs := by
      simp [stuff]
    rw [hsplit, final_append, outs_append, hb.1, hb.2, ih.1, ih.2]
    exact ⟨rfl, rfl⟩

theorem outs_ones {n : ℕ} : ∀ (m : ℕ) {k : ℕ}, k + m ≤ n + 1 →
    final (hear n) k (List.replicate m true) = k + m ∧
    outs (hear n) k (List.replicate m true) = List.replicate m (.bit true)
  | 0, _, _ => ⟨rfl, rfl⟩
  | m + 1, k, hk => by
    have ih := outs_ones m (show (k + 1) + m ≤ n + 1 by omega)
    have h1 : (hear n k true) = (k + 1, [.bit true]) := by
      have : ¬ n + 1 ≤ k := by omega
      have : min (k + 1) (n + 2) = k + 1 := by omega
      simp [hear, count, *]
    rw [List.replicate_succ, final_cons, outs_cons, h1, ih.1, ih.2, List.replicate_succ]
    exact ⟨by omega, rfl⟩

/-- **A flag is heard as a flag**, from wherever the receiver is; what it
hears in the first zero depends on the ones before it. -/
theorem outs_flagBits (k : ℕ) :
    final (hear n) k (flagBits n) = 0 ∧
    outs (hear n) k (flagBits n) =
      (hear n k false).2 ++ (List.replicate (n + 1) (.bit true) ++ [.flag]) := by
  have h := outs_ones (n := n) (n + 1) (k := 0) (by omega)
  have h0 : (hear n k false).1 = 0 := rfl
  have hlast : hear n (n + 1) false = (0, [.flag]) := by simp [hear, count]
  rw [flagBits, final_cons, outs_cons, h0, final_append, outs_append, h.1, h.2, Nat.zero_add]
  simp only [final_cons, final_nil, outs_cons, outs_nil, hlast, List.append_nil, and_self]

end BitStuff
