/-
# What the parser makes of the bits

`hdlc_parse` looks at the last eight bits only, and of these only at the
ones at their end, up to seven (`ones`): it hears as `BitStuff` does. Behind
that is an assembler of characters, the rest of its state (`Assembly`). With
the rx FIFO drained after every bit, the characters pushed over a whole line
are what the assembler makes of the symbols heard (`outs_hdlcBit`). The eight bits of a byte come out as the byte with its
escape (`outs_byteBits`), flags as flags (`outs_flags`), and before the first
flag comes at most one character, of bits that were there already
(`outs_noise`).
-/
import TinyAprs.Afsk
import TinyAprs.Lib.BitStuff
import Mathlib.Data.FinEnum

namespace TinyAprs

open Mealy BitStuff

/-! ### Counting ones -/

/-- The ones in a row at the end of the last bits, up to seven. -/
def ones (demodBits : UInt8) : ℕ := ((List.range 7).takeWhile fun i => demodBits.toNat.testBit i).length

theorem shiftIn_flag_iff : ∀ (d : UInt8) (b : Bool), shiftIn d b = hdlcFlag ↔ b = false ∧ ones d = 6 := by
  decide +kernel

theorem shiftIn_reset_iff : ∀ (d : UInt8) (b : Bool),
    shiftIn d b &&& hdlcReset = hdlcReset ↔ b = true ∧ 6 ≤ ones d := by
  decide +kernel

theorem shiftIn_stuffed_iff : ∀ (d : UInt8) (b : Bool),
    shiftIn d b &&& 0x3f = 0x3e ↔ b = false ∧ 5 ≤ ones d := by
  decide +kernel

theorem shiftIn_last_iff : ∀ (d : UInt8) (b : Bool), shiftIn d b &&& 0x01 ≠ 0 ↔ b = true := by
  decide +kernel

theorem ones_shiftIn : ∀ (d : UInt8) (b : Bool), ones (shiftIn d b) = count 5 (ones d) b := by
  decide +kernel

/-! ### Assembling characters -/

/-- What `Hdlc` has besides the bits. -/
structure Assembly where
  bitIdx : UInt8
  currchar : UInt8
  rxstart : Bool
  deriving DecidableEq, Repr

def Hdlc.assembly (hdlc : Hdlc) : Assembly := ⟨hdlc.bitIdx, hdlc.currchar, hdlc.rxstart⟩

/-- Just behind a flag. -/
def Assembly.begun : Assembly := ⟨0, 0, true⟩

/-- What a heard symbol does to the character, and what is pushed. -/
def take (a : Assembly) : Sym → Assembly × List UInt8
  | .flag => (.begun, [hdlcFlag])
  | .abort => ({ a with rxstart := false }, [])
  | .bit b =>
    if a.rxstart then
      let currchar := if b then a.currchar ||| 0x80 else a.currchar
      if 8 ≤ a.bitIdx + 1 then (.begun, ax25Stuffing.word currchar)
      else ({ a with bitIdx := a.bitIdx + 1, currchar := currchar >>> 1 }, [])
    else (a, [])

/-- A drained rx FIFO, of `CONFIG_AFSK_RX_BUFLEN` bytes. -/
def Drained (fifo : FIFOBuffer) : Prop := fifo.last = 63 ∧ fifo.contents = []

theorem Drained.flush {fifo : FIFOBuffer} (h : fifo.last = 63) : Drained fifo.flush :=
  ⟨h, fifo.contents_flush⟩

/-- There is room for the two characters that a bit can complete. -/
theorem isfull_short {fifo : FIFOBuffer} (hlast : fifo.last = 63) (h : fifo.contents.length ≤ 1) :
    fifo.isfull = false := by
  rw [← Bool.not_eq_true, FIFOBuffer.isfull_iff]
  omega

theorem hdlcPush_short (hdlc : Hdlc) {fifo : FIFOBuffer} (ret : Bool) (c : UInt8) (hlast : fifo.last = 63)
    (h : fifo.contents.length ≤ 1) :
    hdlcPush hdlc fifo ret c = (hdlc, fifo.push c, ret) ∧ (fifo.push c).contents = fifo.contents ++ [c] ∧
      (fifo.push c).last = 63 := by
  have hroom := isfull_short hlast h
  exact ⟨by simp [hdlcPush, hroom], FIFOBuffer.contents_push hroom c, hlast⟩

/-- A whole character is pushed with its escape, and the next one begins. -/
theorem hdlcPush_word (hdlc : Hdlc) {fifo : FIFOBuffer} (hf : Drained fifo) (c : UInt8) :
    ∃ fifo', (let r := if c = hdlcFlag ∨ c = hdlcReset ∨ c = ax25Esc then hdlcPush hdlc fifo true ax25Esc
        else (hdlc, fifo, true)
      hdlcPush r.1 r.2.1 r.2.2 c) = (hdlc, fifo', true) ∧
      fifo'.contents = ax25Stuffing.word c ∧ fifo'.last = 63 := by
  obtain ⟨hlast, hnil⟩ := hf
  have hshort : fifo.contents.length ≤ 1 := by simp [hnil]
  by_cases hs : c = hdlcFlag ∨ c = hdlcReset ∨ c = ax25Esc
  · obtain ⟨h1, h2, h3⟩ := hdlcPush_short hdlc true ax25Esc hlast hshort
    rw [hnil, List.nil_append] at h2
    obtain ⟨h4, h5, h6⟩ := hdlcPush_short hdlc true c h3 (by simp [h2])
    simp only [if_pos hs, h1, h4, Stuffing.word_of_special _ ((special_iff c).mpr hs)]
    exact ⟨_, rfl, by rw [h5, h2]; rfl, h6⟩
  · have hplain : ax25Stuffing.special c = false := Bool.eq_false_iff.mpr (mt (special_iff c).mp hs)
    obtain ⟨h1, h2, h3⟩ := hdlcPush_short hdlc true c hlast hshort
    simp only [if_neg hs, h1, Stuffing.word_of_plain _ hplain]
    exact ⟨_, rfl, by rw [h2, hnil]; rfl, h3⟩

theorem hdlcData_eq {hdlc : Hdlc} {fifo : FIFOBuffer} (hf : Drained fifo) (hrx : hdlc.rxstart = true) {b : Bool}
    (hb : hdlc.demodBits &&& 0x01 ≠ 0 ↔ b = true) :
    (hdlcData hdlc fifo).1.demodBits = hdlc.demodBits ∧
    (hdlcData hdlc fifo).1.assembly = (take hdlc.assembly (.bit b)).1 ∧
    (hdlcData hdlc fifo).2.1.contents = (take hdlc.assembly (.bit b)).2 ∧
    (hdlcData hdlc fifo).2.1.last = 63 := by
  have hcurr : (if hdlc.demodBits &&& 0x01 ≠ 0 then hdlc.currchar ||| 0x80 else hdlc.currchar) =
      if b then hdlc.currchar ||| 0x80 else hdlc.currchar := if_congr hb rfl rfl
  generalize hc : (if b then hdlc.currchar ||| 0x80 else hdlc.currchar) = c at hcurr
  have htake : take hdlc.assembly (.bit b) =
      if 8 ≤ hdlc.bitIdx + 1 then (.begun, ax25Stuffing.word c)
      else (⟨hdlc.bitIdx + 1, c >>> 1, true⟩, []) := by
    simp only [take, Hdlc.assembly, hrx, hc, if_true]
  rw [htake, hdlcData, hcurr]
  by_cases h8 : 8 ≤ hdlc.bitIdx + 1
  · obtain ⟨fifo', hpush, hcontents, hlast⟩ :=
      hdlcPush_word { hdlc with currchar := c, bitIdx := hdlc.bitIdx + 1 } hf c
    dsimp only at hpush ⊢
    rw [if_pos h8, if_pos h8, hpush]
    exact ⟨rfl, by simp [Hdlc.assembly, Assembly.begun, hrx], hcontents, hlast⟩
  · dsimp only
    rw [if_neg h8, if_neg h8]
    exact ⟨rfl, by simp [Hdlc.assembly, hrx], hf.2, hf.1⟩

/-- One bit: the parser counts ones, and its assembler takes what that
hears. -/
theorem hdlcBit_eq (hdlc : Hdlc) {fifo : FIFOBuffer} (hf : Drained fifo) (b : Bool) :
    (hdlcBit (hdlc, fifo) b).1.1.demodBits = shiftIn hdlc.demodBits b ∧
    (hdlcBit (hdlc, fifo) b).1.1.assembly = final take hdlc.assembly (hear 5 (ones hdlc.demodBits) b).2 ∧
    (hdlcBit (hdlc, fifo) b).2 = outs take hdlc.assembly (hear 5 (ones hdlc.demodBits) b).2 ∧
    Drained (hdlcBit (hdlc, fifo) b).1.2 := by
  have hflag := shiftIn_flag_iff hdlc.demodBits b
  have hreset := shiftIn_reset_iff hdlc.demodBits b
  have hstuffed := shiftIn_stuffed_iff hdlc.demodBits b
  have hshort : fifo.contents.length ≤ 1 := by simp [hf.2]
  simp only [hdlcBit, hdlcParse]
  by_cases h1 : b = false ∧ ones hdlc.demodBits = 6
  · rw [if_pos (hflag.mpr h1)]
    obtain ⟨h2, h3, h4⟩ := hdlcPush_short
      { hdlc with demodBits := shiftIn hdlc.demodBits b, rxstart := true } true hdlcFlag hf.1 hshort
    rw [h2, h1.2]
    simp [hear, h1.1, take, Hdlc.assembly, Assembly.begun, h3, hf.2, Drained.flush h4]
  rw [if_neg (mt hflag.mp h1)]
  by_cases h2 : b = true ∧ 6 ≤ ones hdlc.demodBits
  · rw [if_pos (hreset.mpr h2)]
    simp [hear, h2.1, h2.2, take, Hdlc.assembly, hf.2, Drained.flush hf.1]
  rw [if_neg (mt hreset.mp h2)]
  by_cases h3 : b = false ∧ 5 ≤ ones hdlc.demodBits
  · have h6 : ones hdlc.demodBits ≠ 6 := fun h => h1 ⟨h3.1, h⟩
    rw [if_pos (hstuffed.mpr h3)]
    simp [hear, h3.1, h3.2, h6, Hdlc.assembly, hf.2, Drained.flush hf.1]
  rw [if_neg (mt hstuffed.mp h3)]
  have hheard : (hear 5 (ones hdlc.demodBits) b).2 = [.bit b] := by
    cases b
    · have h5 : ¬ 5 ≤ ones hdlc.demodBits := fun h => h3 ⟨rfl, h⟩
      have h6 : ones hdlc.demodBits ≠ 6 := fun h => h1 ⟨rfl, h⟩
      simp [hear, h5, h6]
    · have h6 : ¬ 6 ≤ ones hdlc.demodBits := fun h => h2 ⟨rfl, h⟩
      simp [hear, h6]
  rw [hheard, final_cons, final_nil, outs_cons, outs_nil, List.append_nil]
  by_cases hrx : hdlc.rxstart = true
  · obtain ⟨h4, h5, h6, h7⟩ := @hdlcData_eq
      { hdlc with demodBits := shiftIn hdlc.demodBits b } fifo hf hrx b (shiftIn_last_iff hdlc.demodBits b)
    rw [if_neg (by simp [hrx])]
    exact ⟨h4, h5, h6, Drained.flush h7⟩
  · rw [if_pos hrx]
    simp [take, Hdlc.assembly, hrx, hf.2, Drained.flush hf.1]

/-- **The characters pushed over a line** are what the assembler makes of the
symbols heard on it. -/
theorem outs_hdlcBit : ∀ (bits : List Bool) (hdlc : Hdlc) {fifo : FIFOBuffer}, Drained fifo →
    outs hdlcBit (hdlc, fifo) bits = outs take hdlc.assembly (outs (hear 5) (ones hdlc.demodBits) bits)
  | [], _, _, _ => rfl
  | b :: bits, hdlc, fifo, hf => by
    obtain ⟨h1, h2, h3, h4⟩ := hdlcBit_eq hdlc hf b
    have ih := outs_hdlcBit bits (hdlcBit (hdlc, fifo) b).1.1 h4
    rw [h1, h2, ones_shiftIn] at ih
    rw [outs_cons, outs_cons, outs_append, h3]
    exact congrArg (outs take hdlc.assembly (hear 5 (ones hdlc.demodBits) b).2 ++ ·) ih

/-! ### Bytes, flags and noise -/

/-- Eight bits of a byte are pushed as that byte, escaped if it must be. -/
theorem outs_byteBits : ∀ c : UInt8,
    final take .begun ((byteBits c).map .bit) = .begun ∧
    outs take .begun ((byteBits c).map .bit) = ax25Stuffing.word c := by
  decide +kernel

theorem outs_bytes (data : List UInt8) :
    final take .begun ((data.flatMap byteBits).map .bit) = .begun ∧
    outs take .begun ((data.flatMap byteBits).map .bit) = ax25Stuffing.encode data := by
  induction data with
  | nil => exact ⟨rfl, rfl⟩
  | cons c data ih =>
    obtain ⟨h1, h2⟩ := outs_byteBits c
    obtain ⟨h3, h4⟩ := ih
    rw [List.flatMap_cons, List.map_append, final_append, outs_append, h1, h2, h3, h4]
    exact ⟨rfl, rfl⟩

theorem outs_quiet : ∀ (bs : List Bool) (a : Assembly), a.bitIdx.toNat + bs.length < 8 →
    outs take a (bs.map .bit) = []
  | [], _, _ => rfl
  | b :: bs, a, h => by
    rw [List.length_cons] at h
    have hidx : (a.bitIdx + 1).toNat = a.bitIdx.toNat + 1 := Cells.toNat_succ (by omega)
    rw [List.map_cons, outs_cons, take]
    by_cases hrx : a.rxstart = true
    · have h8 : ¬ 8 ≤ a.bitIdx + 1 := by
        rw [UInt8.le_iff_toNat_le, hidx]
        show ¬ 8 ≤ _
        omega
      rw [if_pos hrx, if_neg h8, List.nil_append]
      exact outs_quiet bs _ (by simp only [hidx]; omega)
    · rw [if_neg hrx, List.nil_append]
      exact outs_quiet bs a (by omega)

/-- Bits short of a whole character complete at most one, begun before. -/
theorem outs_noise : ∀ (bs : List Bool) (a : Assembly), bs.length ≤ 7 →
    outs take a (bs.map .bit) = [] ∨ ∃ c, outs take a (bs.map .bit) = ax25Stuffing.word c
  | [], _, _ => Or.inl rfl
  | b :: bs, a, h => by
    rw [List.length_cons] at h
    rw [List.map_cons, outs_cons, take]
    by_cases hrx : a.rxstart = true
    · rw [if_pos hrx]
      by_cases h8 : 8 ≤ a.bitIdx + 1
      · rw [if_pos h8, outs_quiet bs .begun (by show 0 + _ < 8; omega), List.append_nil]
        exact Or.inr ⟨_, rfl⟩
      · rw [if_neg h8]
        exact outs_noise bs _ (by omega)
    · rw [if_neg hrx]
      exact outs_noise bs a (by omega)

/-- What is heard in a flag's first zero is a flag, or bits. -/
theorem hear_zero (k : ℕ) : (k = 6 ∧ (hear 5 k false).2 = [.flag]) ∨
    ∃ bs : List Bool, bs.length ≤ 1 ∧ (hear 5 k false).2 = bs.map .bit := by
  by_cases h6 : k = 6
  · exact Or.inl ⟨h6, by simp [hear, h6]⟩
  · refine Or.inr ?_
    by_cases h5 : 5 ≤ k
    · exact ⟨[], by simp, by simp [hear, h6, h5]⟩
    · exact ⟨[false], by simp, by simp [hear, h6, h5]⟩

theorem outs_flagEnd (a : Assembly) (bs : List Bool) :
    final take a (bs.map .bit ++ (List.replicate 6 (.bit true) ++ [.flag])) = .begun ∧
    outs take a (bs.map .bit ++ (List.replicate 6 (.bit true) ++ [.flag])) =
      outs take a ((bs ++ List.replicate 6 true).map .bit) ++ [hdlcFlag] := by
  have hmap : bs.map Sym.bit ++ (List.replicate 6 (.bit true) ++ [.flag]) =
      (bs ++ List.replicate 6 true).map .bit ++ [.flag] := by simp
  rw [hmap, final_append, outs_append]
  exact ⟨rfl, rfl⟩

theorem final_flags (m : ℕ) : final (hear 5) 0 (flags 5 m) = 0 := by
  induction m with
  | zero => rfl
  | succ m ih => rw [flags_succ, final_append, (outs_flagBits 5 0).1, ih]

/-- Flags behind a flag or data are pushed as flags, and nothing else. -/
theorem outs_flags : ∀ (m : ℕ) {k : ℕ}, k ≤ 5 →
    final take .begun (outs (hear 5) k (flags 5 m)) = .begun ∧
    outs take .begun (outs (hear 5) k (flags 5 m)) = List.replicate m hdlcFlag
  | 0, _, _ => ⟨rfl, rfl⟩
  | m + 1, k, hk => by
    obtain ⟨h1, h2⟩ := outs_flagBits 5 k
    obtain ⟨h3, h4⟩ := outs_flags m (Nat.zero_le 5)
    rcases hear_zero k with ⟨h6, -⟩ | ⟨bs, hbs, h0⟩
    · omega
    · have hend := outs_flagEnd .begun bs
      have hq := outs_quiet (bs ++ List.replicate 6 true) .begun
        (by rw [List.length_append, List.length_replicate]; show 0 + _ < 8; omega)
      rw [h0] at h2
      rw [flags_succ, outs_append, h1, h2, final_append, outs_append, hend.1, hend.2, hq, h3, h4]
      exact ⟨rfl, rfl⟩

/-- The first flag, from any state: the receiver is in step behind it. -/
theorem outs_firstFlag (a : Assembly) (k : ℕ) : ∃ g e, (g = [] ∨ ∃ c, g = ax25Stuffing.word c) ∧
    final take a (outs (hear 5) k (flagBits 5)) = .begun ∧
    outs take a (outs (hear 5) k (flagBits 5)) = g ++ List.replicate (e + 1) hdlcFlag := by
  obtain ⟨-, h2⟩ := outs_flagBits 5 k
  rcases hear_zero k with ⟨-, h0⟩ | ⟨bs, hbs, h0⟩
  · obtain ⟨h3, h4⟩ := outs_flagEnd .begun []
    have hq := outs_quiet (List.replicate 6 true) .begun (by rw [List.length_replicate]; show 0 + _ < 8; omega)
    have htake : take a .flag = (.begun, [hdlcFlag]) := rfl
    rw [List.map_nil, List.nil_append] at h3 h4
    rw [List.nil_append, hq] at h4
    rw [h2, h0, List.singleton_append, final_cons, outs_cons, htake, h3, h4]
    exact ⟨[], 1, Or.inl rfl, rfl, rfl⟩
  · obtain ⟨h3, h4⟩ := outs_flagEnd a bs
    rw [h2, h0]
    refine ⟨_, 0, outs_noise (bs ++ List.replicate 6 true) a ?_, h3, h4⟩
    rw [List.length_append, List.length_replicate]
    omega

/-- **A frame on the line is pushed as a frame**, from any state of the
parser: behind at most one character, only flags and, between two of them,
the data with its escapes. -/
theorem outs_frame (hdlc : Hdlc) {fifo : FIFOBuffer} (hf : Drained fifo) (data : List UInt8) (a b : ℕ) :
    ∃ g e, (g = [] ∨ ∃ c, g = ax25Stuffing.word c) ∧
      outs hdlcBit (hdlc, fifo) (flags 5 (a + 1) ++ (stuff 5 0 (data.flatMap byteBits) ++ flags 5 b)) =
        g ++ (List.replicate (a + 1 + e) hdlcFlag ++ (ax25Stuffing.encode data ++ List.replicate b hdlcFlag)) := by
  obtain ⟨g, e, hg, h1, h2⟩ := outs_firstFlag hdlc.assembly (ones hdlc.demodBits)
  obtain ⟨h3, -⟩ := outs_flagBits 5 (ones hdlc.demodBits)
  obtain ⟨h4, h5⟩ := outs_flags a (Nat.zero_le 5)
  obtain ⟨h6, h7⟩ := outs_stuff (by decide : 0 < 5) (data.flatMap byteBits) (Nat.zero_le 5)
  obtain ⟨h8, h9⟩ := outs_bytes data
  obtain ⟨-, h10⟩ := outs_flags b (foldl_next_le (by decide : 0 < 5) (data.flatMap byteBits) (Nat.zero_le 5))
  refine ⟨g, e, hg, ?_⟩
  rw [outs_hdlcBit _ _ hf, flags_succ]
  simp only [outs_append, final_append, h1, h2, h3, h4, h5, final_flags, h6, h7, h8, h9, h10]
  have hsum : List.replicate (a + 1 + e) hdlcFlag = List.replicate (e + 1) hdlcFlag ++ List.replicate a hdlcFlag := by
    rw [List.replicate_append_replicate]
    congr 1
    omega
  rw [hsum]
  simp only [List.append_assoc]

end TinyAprs
