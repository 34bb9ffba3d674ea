/-
# A checksum by a shift register

A register of `w` bits takes one bit at a time: it moves down by one, and where
the bit that falls out differs from the bit that comes in, a polynomial is
added. Both the step and a run are linear over exclusive or (`shift_xor`,
`run_xor`), so two messages of one length leave the same register exactly if
their difference leaves none (`run_eq_iff`). What differences are caught: every
one within `w` bits in a row, if the polynomial has its top bit (`run_burst`);
every one of an odd number of bits, if it has an odd number of bits
(`run_odd`); and two bits so close that the register does not return in between
(`run_pair`).
-/
import Mathlib.Data.List.GetD

namespace ShiftRegister

variable {w : ℕ} (poly : BitVec w)

/-- The register after one more bit of the message. -/
def shift (r : BitVec w) (b : Bool) : BitVec w := (r >>> 1) ^^^ (if r.getLsbD 0 ^^ b then poly else 0)

def run (r : BitVec w) (bits : List Bool) : BitVec w := bits.foldl (shift poly) r

@[simp] theorem run_nil (r : BitVec w) : run poly r [] = r := rfl

@[simp] theorem run_cons (r : BitVec w) (b : Bool) (bits : List Bool) :
    run poly r (b :: bits) = run poly (shift poly r b) bits := rfl

theorem run_append (r : BitVec w) (a b : List Bool) : run poly r (a ++ b) = run poly (run poly r a) b := by
  simp [run]

/-! ### Linear -/

theorem shift_xor (r s : BitVec w) (a b : Bool) :
    shift poly (r ^^^ s) (a ^^ b) = shift poly r a ^^^ shift poly s b := by
  apply BitVec.eq_of_getLsbD_eq
  intro i _
  simp only [shift, BitVec.getLsbD_xor, BitVec.getLsbD_ushiftRight]
  cases r.getLsbD 0 <;> cases s.getLsbD 0 <;> cases a <;> cases b <;> simp <;> grind

/-- The difference of two messages. -/
def diff (a b : List Bool) : List Bool := List.zipWith (· ^^ ·) a b

theorem run_xor : ∀ (a b : List Bool) (r s : BitVec w), a.length = b.length →
    run poly (r ^^^ s) (diff a b) = run poly r a ^^^ run poly s b
  | [], [], _, _, _ => rfl
  | x :: a, y :: b, r, s, h => by
    have hlen : a.length = b.length := by simpa using h
    rw [diff, List.zipWith_cons_cons, run_cons, run_cons, run_cons, shift_xor]
    exact run_xor a b _ _ hlen

/-- **Two messages of one length** leave the same register exactly if their
difference leaves none. -/
theorem run_eq_iff {a b : List Bool} (h : a.length = b.length) (r : BitVec w) :
    run poly r a = run poly r b ↔ run poly 0#w (diff a b) = 0#w := by
  have hxor := run_xor poly a b r r h
  rw [BitVec.xor_self] at hxor
  rw [hxor, BitVec.xor_eq_zero_iff]

theorem shift_zero : shift poly 0#w false = 0#w := by
  simp [shift]

theorem run_zeros (n : ℕ) : run poly 0#w (List.replicate n false) = 0#w := by
  induction n with
  | zero => rfl
  | succ n ih => rw [List.replicate_succ, run_cons, shift_zero, ih]

/-! ### Bits in a row -/

section Top

variable {poly} (htop : poly.getLsbD (w - 1) = true) (hw : 0 < w)
include htop hw

/-- A message that is not longer than the register and leaves nothing is what
the register held. -/
theorem getLsbD_of_run : ∀ {bits : List Bool} {r : BitVec w}, bits.length ≤ w → run poly r bits = 0#w →
    ∀ i, r.getLsbD i = bits.getD i false
  | [], r, _, h, i => by
    rw [run_nil] at h
    simp [h]
  | b :: bits, r, hlen, h, i => by
    rw [List.length_cons] at hlen
    have ih := @getLsbD_of_run bits (shift poly r b) (by omega) h
    -- nothing was added: the polynomial's top bit would still be there
    have hadd : (r.getLsbD 0 ^^ b) = false := by
      have hlast := ih (w - 1)
      rw [List.getD_eq_default _ _ (by omega), shift, BitVec.getLsbD_xor, BitVec.getLsbD_ushiftRight,
        BitVec.getLsbD_of_ge r (1 + (w - 1)) (by omega), Bool.false_xor] at hlast
      cases hb : (r.getLsbD 0 ^^ b) with
      | false => rfl
      | true => simp [hb, htop] at hlast
    cases i with
    | zero => simpa using hadd
    | succ i =>
      have hi := ih i
      rw [shift, hadd] at hi
      simpa [Nat.add_comm 1 i] using hi

theorem eq_zero_of_run_zeros : ∀ {n : ℕ} {r : BitVec w}, run poly r (List.replicate n false) = 0#w → r = 0#w
  | 0, _, h => h
  | n + 1, r, h => by
    rw [List.replicate_succ, run_cons] at h
    have hstep : run poly r [false] = 0#w := eq_zero_of_run_zeros h
    apply BitVec.eq_of_getLsbD_eq
    intro i _
    rw [getLsbD_of_run htop hw (show [false].length ≤ w from hw) hstep i]
    cases i <;> simp

/-- **A burst**: a difference within as many bits as the register has. -/
theorem run_burst {i j : ℕ} {e : List Bool} (hlen : e.length ≤ w) (he : true ∈ e) :
    run poly 0#w (List.replicate i false ++ (e ++ List.replicate j false)) ≠ 0#w := by
  intro h
  rw [run_append, run_zeros, run_append] at h
  have hbits := getLsbD_of_run htop hw hlen (eq_zero_of_run_zeros htop hw h)
  obtain ⟨k, hk, hget⟩ := List.getElem_of_mem he
  have hbit := hbits k
  rw [List.getD_eq_getElem _ _ hk, hget] at hbit
  simp at hbit

/-- **Two bits**: the register would have to return to a single bit. -/
theorem run_pair {i j k : ℕ} (hk : run poly poly (List.replicate k false) ≠ 1#w) :
    run poly 0#w (List.replicate i false ++ true :: (List.replicate k false ++ true :: List.replicate j false)) ≠ 0#w := by
  intro h
  have hfirst : shift poly 0#w true = poly := by simp [shift]
  rw [run_append, run_zeros, run_cons, hfirst, run_append, run_cons] at h
  have hlast : run poly (run poly poly (List.replicate k false)) [true] = 0#w := eq_zero_of_run_zeros htop hw h
  refine hk (BitVec.eq_of_getLsbD_eq fun n _ => ?_)
  rw [getLsbD_of_run htop hw (show [true].length ≤ w from hw) hlast n]
  cases n <;> simp [BitVec.getLsbD_one, hw]

end Top

/-! ### An odd number of bits -/

/-- The parity of the first bits. -/
def parity (f : ℕ → Bool) : ℕ → Bool
  | 0 => false
  | n + 1 => parity f n ^^ f n

theorem parity_xor (f g : ℕ → Bool) (n : ℕ) : parity (fun i => f i ^^ g i) n = (parity f n ^^ parity g n) := by
  induction n with
  | zero => rfl
  | succ n ih =>
    simp only [parity, ih]
    cases parity f n <;> cases parity g n <;> cases f n <;> cases g n <;> rfl

theorem parity_tail (f : ℕ → Bool) (n : ℕ) : (f 0 ^^ parity (fun i => f (i + 1)) n) = parity f (n + 1) := by
  induction n with
  | zero => simp [parity]
  | succ n ih =>
    rw [parity, ← Bool.xor_assoc, ih]
    rfl

theorem parity_false (n : ℕ) : parity (fun _ => false) n = false := by
  induction n with
  | zero => rfl
  | succ n ih => rw [parity, ih]; rfl

/-- A step adds the bit to the parity, if the polynomial is odd. -/
theorem parity_shift (hodd : parity poly.getLsbD w = true) (r : BitVec w) (b : Bool) :
    parity (shift poly r b).getLsbD w = (parity r.getLsbD w ^^ b) := by
  have hmove : parity (r >>> 1).getLsbD w = (parity r.getLsbD w ^^ r.getLsbD 0) := by
    have htail := parity_tail r.getLsbD w
    rw [parity, BitVec.getLsbD_of_ge r w (Nat.le_refl w), Bool.xor_false] at htail
    have hfun : (r >>> 1).getLsbD = fun i => r.getLsbD (i + 1) := by
      funext i
      rw [BitVec.getLsbD_ushiftRight, Nat.add_comm]
    rw [hfun, ← htail]
    cases r.getLsbD 0 <;> simp
  have hsplit : (shift poly r b).getLsbD = fun i => (r >>> 1).getLsbD i ^^
      (if r.getLsbD 0 ^^ b then poly else 0#w).getLsbD i := by
    funext i
    exact BitVec.getLsbD_xor
  have hadd : parity (if r.getLsbD 0 ^^ b then poly else 0#w).getLsbD w = (r.getLsbD 0 ^^ b) := by
    cases r.getLsbD 0 ^^ b with
    | true => exact hodd
    | false =>
      have hzero : (0#w).getLsbD = fun _ => false := funext fun i => BitVec.getLsbD_zero
      simp only [Bool.false_eq_true, if_false, hzero, parity_false]
  rw [hsplit, parity_xor, hmove, hadd]
  cases parity r.getLsbD w <;> cases r.getLsbD 0 <;> cases b <;> rfl

theorem parity_run (hodd : parity poly.getLsbD w = true) : ∀ (bits : List Bool) (r : BitVec w),
    parity (run poly r bits).getLsbD w = (parity r.getLsbD w ^^ decide (bits.count true % 2 = 1))
  | [], r => by simp
  | b :: bits, r => by
    rw [run_cons, parity_run hodd bits, parity_shift poly hodd]
    cases b with
    | false => simp
    | true =>
      have hodd : decide ((List.count true bits + 1) % 2 = 1) = !decide (List.count true bits % 2 = 1) := by
        rw [← decide_not, decide_eq_decide]
        omega
      rw [List.count_cons_self, hodd]
      cases parity r.getLsbD w <;> cases decide (List.count true bits % 2 = 1) <;> rfl

/-- **An odd number of bits.** -/
theorem run_odd (hodd : parity poly.getLsbD w = true) {bits : List Bool} (h : bits.count true % 2 = 1) :
    run poly 0#w bits ≠ 0#w := by
  intro hzero
  have hzeros : parity (0#w).getLsbD w = false := by
    rw [show (0#w).getLsbD = fun _ => false from funext fun i => BitVec.getLsbD_zero, parity_false]
  have hpar := parity_run poly hodd bits 0#w
  rw [hzero, hzeros, decide_eq_true h] at hpar
  simp at hpar

/-! ### Not returning -/

/-- The register does not hold `s` in the next `n` steps without input. -/
def away (s : BitVec w) : ℕ → BitVec w → Bool
  | 0, _ => true
  | n + 1, r => r != s && away s n (shift poly r false)

theorem run_ne_of_away {s : BitVec w} : ∀ {n : ℕ} {r : BitVec w}, away poly s n r = true →
    ∀ k, k < n → run poly r (List.replicate k false) ≠ s
  | 0, _, _, k, hk => absurd hk (Nat.not_lt_zero k)
  | n + 1, r, h, k, hk => by
    rw [away, Bool.and_eq_true] at h
    cases k with
    | zero => simpa using h.1
    | succ k => exact run_ne_of_away h.2 k (by omega)

/-! ### Messages with few bits -/

theorem eq_zeros_of_count : ∀ {bits : List Bool}, bits.count true = 0 → bits = List.replicate bits.length false
  | [], _ => rfl
  | false :: bits, h => by
    rw [List.length_cons, List.replicate_succ, ← eq_zeros_of_count (by simpa using h)]
  | true :: bits, h => by simp at h

theorem first_of_count : ∀ {bits : List Bool} {n : ℕ}, bits.count true = n + 1 →
    ∃ i rest, bits = List.replicate i false ++ true :: rest ∧ rest.count true = n
  | [], _, h => by simp at h
  | true :: bits, n, h => ⟨0, bits, rfl, by simpa using h⟩
  | false :: bits, n, h => by
    obtain ⟨i, rest, hbits, hrest⟩ := first_of_count (show bits.count true = n + 1 by simpa using h)
    refine ⟨i + 1, rest, ?_, hrest⟩
    rw [hbits]
    rfl

end ShiftRegister
