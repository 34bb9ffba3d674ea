/-
# What the CRC of a frame catches

The table of `crc_ccitt.c` holds eight shifts of a register with the polynomial
`0x8408`, so a CRC is a run of that register over the bits of the bytes, in the
order they are sent (`crcCcitt_run`). A frame that arrives as long as it was
sent, with some of its bits changed, passes the receiver's check exactly if the
changes alone leave nothing in the register (`crc_passes_iff`); up to three
bits, any odd number of bits and any change within sixteen bits in a row do not
(`caught`), and so `ax25_poll` drops the frame (`changed_frame_dropped`).
-/
import TinyAprs.Ax25Frame
import TinyAprs.Lib.BitStuff
import TinyAprs.Lib.ShiftRegister

namespace TinyAprs

open Mealy BitStuff ShiftRegister

/-! ### The table -/

/-- The polynomial, the lowest power at the top. -/
def ccittPoly : BitVec 16 := 0x8408

theorem run_byte_zero : ∀ c : UInt8,
    run ccittPoly 0#16 (byteBits c) = run ccittPoly c.toUInt16.toBitVec (List.replicate 8 false) := by
  decide +kernel

theorem run_low : ∀ c : UInt8,
    run ccittPoly c.toUInt16.toBitVec (List.replicate 8 false) = (crcCcittTab.getD c.toNat 0).toBitVec := by
  decide +kernel

theorem run_high : ∀ c : UInt8,
    run ccittPoly (c.toUInt16.toBitVec <<< 8) (List.replicate 8 false) = c.toUInt16.toBitVec := by
  decide +kernel

theorem length_byteBits (c : UInt8) : (byteBits c).length = 8 := rfl

theorem diff_zeros (bits : List Bool) : diff (List.replicate bits.length false) bits = bits := by
  induction bits with
  | nil => rfl
  | cons b bits ih =>
    rw [List.length_cons, List.replicate_succ, diff, List.zipWith_cons_cons, Bool.false_xor]
    exact congrArg _ ih

theorem high_low (crc : UInt16) :
    crc.toBitVec = (crc >>> 8).toUInt8.toUInt16.toBitVec <<< 8 ^^^ crc.toUInt8.toUInt16.toBitVec := by
  apply BitVec.eq_of_getLsbD_eq
  intro i hi
  rw [← shiftRight_eight]
  simp only [UInt8.toBitVec_toUInt16, UInt16.toBitVec_toUInt8, UInt16.toBitVec_shiftRight, BitVec.getLsbD_xor,
    BitVec.getLsbD_shiftLeft, BitVec.getLsbD_setWidth]
  by_cases h8 : i < 8
  · simp [h8, hi]
  · have hback : 8 + (i - 8) = i := by omega
    simp [h8, hi, hback]

/-- **A byte is eight shifts.** -/
theorem updcrcCcitt_run (c : UInt8) (crc : UInt16) :
    (updcrcCcitt c crc).toBitVec = run ccittPoly crc.toBitVec (byteBits c) := by
  have hlow : run ccittPoly crc.toUInt8.toUInt16.toBitVec (byteBits c) =
      (crcCcittTab.getD (crc.toUInt8 ^^^ c).toNat 0).toBitVec := by
    have hxor := run_xor ccittPoly (List.replicate 8 false) (byteBits c) crc.toUInt8.toUInt16.toBitVec 0#16 rfl
    have hsum := run_xor ccittPoly (List.replicate 8 false) (List.replicate 8 false) crc.toUInt8.toUInt16.toBitVec
      c.toUInt16.toBitVec rfl
    rw [show List.replicate 8 false = List.replicate (byteBits c).length false from rfl, diff_zeros, BitVec.xor_zero] at hxor
    rw [show diff (List.replicate 8 false) (List.replicate 8 false) = List.replicate 8 false from rfl] at hsum
    rw [hxor, run_byte_zero, ← run_low, UInt8.toUInt16_xor, UInt16.toBitVec_xor, hsum]
    rfl
  have hxor := run_xor ccittPoly (List.replicate 8 false) (byteBits c)
    ((crc >>> 8).toUInt8.toUInt16.toBitVec <<< 8) crc.toUInt8.toUInt16.toBitVec rfl
  rw [← high_low, show List.replicate 8 false = List.replicate (byteBits c).length false from rfl, diff_zeros] at hxor
  rw [hxor, hlow, length_byteBits, run_high, updcrcCcitt, tabIndex_eq, UInt16.toBitVec_xor, ← shiftRight_eight]

/-- **A CRC is a run of the register.** -/
theorem crcCcitt_run : ∀ (buf : List UInt8) (crc : UInt16),
    (crcCcitt crc buf).toBitVec = run ccittPoly crc.toBitVec (buf.flatMap byteBits)
  | [], _ => rfl
  | c :: buf, crc => by
    rw [crcCcitt_cons, crcCcitt_run buf, updcrcCcitt_run, List.flatMap_cons, run_append]

/-! ### Changed frames -/

/-- The bits in which two frames differ, in the order they are sent. -/
def changes (f f' : List UInt8) : List Bool := diff (f.flatMap byteBits) (f'.flatMap byteBits)

theorem length_bits (f : List UInt8) : (f.flatMap byteBits).length = 8 * f.length := by
  induction f with
  | nil => rfl
  | cons c f ih =>
    rw [List.flatMap_cons, List.length_append, ih, length_byteBits, List.length_cons]
    omega

/-- A frame that has been changed passes exactly if the changes leave nothing
in the register. -/
theorem crc_passes_iff {f f' : List UInt8} (hlen : f'.length = f.length)
    (hgood : crcCcitt crcCcittInitVal f = ax25CrcCorrect) :
    crcCcitt crcCcittInitVal f' = ax25CrcCorrect ↔ run ccittPoly 0#16 (changes f f') = 0#16 := by
  have hbits : (f.flatMap byteBits).length = (f'.flatMap byteBits).length := by rw [length_bits, length_bits, hlen]
  rw [changes, ← run_eq_iff ccittPoly hbits crcCcittInitVal.toBitVec, ← crcCcitt_run, ← crcCcitt_run,
    UInt16.toBitVec_inj, hgood, eq_comm]

/-- Changes that the CRC of a frame always catches: up to three bits, an odd
number of bits, or bits within sixteen in a row. -/
def Catchable (e : List Bool) : Prop :=
  true ∈ e ∧ (e.count true ≤ 3 ∨ e.count true % 2 = 1 ∨
    ∃ i j burst, e = List.replicate i false ++ (burst ++ List.replicate j false) ∧ burst.length ≤ 16)

theorem away_frame : away ccittPoly 1#16 2640 ccittPoly = true := by
  decide +kernel

/-- **What is caught**, in a frame that fits the buffer. -/
theorem caught {e : List Bool} (hlen : e.length ≤ 2640) (h : Catchable e) : run ccittPoly 0#16 e ≠ 0#16 := by
  have htop : ccittPoly.getLsbD (16 - 1) = true := by decide
  have hodd : parity ccittPoly.getLsbD 16 = true := by decide
  obtain ⟨hsome, hfew | hodd' | ⟨i, j, burst, rfl, hburst⟩⟩ := h
  · have hpos := List.count_pos_iff.mpr hsome
    by_cases htwo : e.count true = 2
    · -- two bits, less than a frame apart
      obtain ⟨i, rest, rfl, hrest⟩ := first_of_count htwo
      obtain ⟨k, rest', rfl, hrest'⟩ := first_of_count hrest
      rw [eq_zeros_of_count hrest']
      refine run_pair htop (by omega) (run_ne_of_away ccittPoly away_frame k ?_)
      simp only [List.length_append, List.length_cons, List.length_replicate] at hlen
      omega
    · exact run_odd ccittPoly hodd (by omega)
  · exact run_odd ccittPoly hodd hodd'
  · refine run_burst htop (by omega) hburst ?_
    simpa using hsome

/-- At the closing flag of a frame whose CRC is wrong, nobody is told. -/
theorem pollFlag_bad (stk : AX25Msg) {ctx : AX25Ctx} (hesc : ctx.escape = false) (hbad : ctx.crcIn ≠ ax25CrcCorrect) :
    (ax25PollChar stk ctx hdlcFlag).2 = [] := by
  have hstep : ax25PollChar stk ctx hdlcFlag = ax25PollFlag stk ctx := by simp [ax25PollChar, hesc]
  rw [hstep, ax25PollFlag]
  simp only [if_neg hbad]
  split_ifs <;> rfl

/-- **A changed frame is dropped.** A frame goes out with its CRC and comes in
as long as it was, with bits changed that the CRC catches: whatever the
receiver was doing before the opening flag, with no escape pending, it tells
nobody, up to the closing flag and with it. -/
theorem changed_frame_dropped (stk : AX25Msg) {ctx : AX25Ctx} (hesc : ctx.escape = false) (body f' : List UInt8)
    (hlen : f'.length = body.length + 2) (hmax : body.length + 2 ≤ configAx25FrameBufLen)
    (hchanged : Catchable (changes (withCrc body) f')) :
    outs (ax25PollChar stk) (ax25PollChar stk ctx hdlcFlag).1 (ax25Stuffing.encode f' ++ [hdlcFlag]) = [] := by
  obtain ⟨h0, hesc0⟩ := got_flag stk hesc
  obtain ⟨⟨h1, hesc1⟩, hout⟩ := h0.encode stk (f := f') hesc0 (by omega)
  have hbits : (changes (withCrc body) f').length ≤ 2640 := by
    have h330 : configAx25FrameBufLen = 330 := rfl
    rw [changes, diff, List.length_zipWith, length_bits, length_bits, length_withCrc]
    omega
  have hbad : (final (ax25PollChar stk) (ax25PollChar stk ctx hdlcFlag).1 (ax25Stuffing.encode f')).crcIn ≠
      ax25CrcCorrect := by
    rw [h1.crcIn]
    intro hgood
    exact caught hbits hchanged ((crc_passes_iff (by simpa using hlen) (crcCcitt_withCrc body)).mp hgood)
  rw [outs_append, hout, List.nil_append, outs_cons, outs_nil, List.append_nil, pollFlag_bad stk hesc1 hbad]

/-- Eleven bits of a frame of sixteen bytes, over two bytes of it. -/
theorem changed_frame_dropped_burst :
    outs (ax25PollChar zeroMsg) (ax25PollChar zeroMsg (ax25Init true) hdlcFlag).1
      (ax25Stuffing.encode (0x61 :: 0xBE :: (withCrc (List.replicate 16 0x41)).drop 2) ++ [hdlcFlag]) = [] := by
  have hchanges : changes (withCrc (List.replicate 16 0x41)) (0x61 :: 0xBE :: (withCrc (List.replicate 16 0x41)).drop 2) =
      List.replicate 5 false ++ ([true, false, false] ++ List.replicate 8 true ++ List.replicate 128 false) := by
    decide +kernel
  refine changed_frame_dropped zeroMsg rfl (List.replicate 16 0x41) _ (by decide) (by decide) ?_
  rw [hchanges]
  exact ⟨by decide, Or.inr (Or.inr ⟨5, 128, _, rfl, by decide⟩)⟩

end TinyAprs
