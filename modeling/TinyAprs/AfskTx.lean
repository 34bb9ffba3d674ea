/-
# The bits of a transmission

What `afsk_dac_isr` puts on the air while `afsk_write` queues a frame. The
invariant is a balance (`Progress`): the bits begun so far, the bits the
current character has left (`restBits`) and the bits of what is queued or
still to be queued make up the whole line, which is the preamble, the opening
flag, the stuffed data and the closing flag; after the closing flag only
flags are added. A call of the interrupt moves at most one bit over
(`isr_cases`), a new character moves what it takes from the FIFO
(`Progress.nextChar`), and the main loop moves bytes from its list to the FIFO.
So when everything is queued and the modem is silent, the line is complete
(`Progress.line`); and silent it becomes, as every call uses up some of a
finite budget (`isr_budget`).
-/
import TinyAprs.Afsk
import TinyAprs.Lib.BitStuff
import Mathlib.Data.FinEnum

namespace TinyAprs

open Mealy BitStuff

/-! ### The bits left of a character -/

/-- The bits of `c` from the one that `mask` selects on. -/
def bitsFrom (c mask : UInt8) : List Bool := (masks.dropWhile (· != mask)).map fun m => c &&& m != 0

theorem masks_from : ∀ m ∈ masks, masks.dropWhile (· != m) = m :: masks.dropWhile (· != m <<< 1) := by
  decide +kernel

theorem masks_shift : ∀ m ∈ masks, m ≠ 0 ∧ (m <<< 1 = 0 ∨ m <<< 1 ∈ masks) := by
  decide +kernel

@[simp] theorem bitsFrom_zero (c : UInt8) : bitsFrom c 0 = [] := rfl

@[simp] theorem bitsFrom_one (c : UInt8) : bitsFrom c 1 = byteBits c := rfl

theorem bitsFrom_mask {m : UInt8} (hm : m ∈ masks) (c : UInt8) :
    bitsFrom c m = (c &&& m != 0) :: bitsFrom c (m <<< 1) := by
  rw [bitsFrom, masks_from m hm, List.map_cons]
  rfl

theorem length_bitsFrom_le (c m : UInt8) : (bitsFrom c m).length ≤ 8 := by
  rw [bitsFrom, List.length_map]
  exact (List.dropWhile_sublist _).length_le

theorem byteBits_flag : byteBits hdlcFlag = flagBits 5 := by decide

namespace Afsk

/-- The bits on the line for what is left of the current character. -/
def restBits (af : Afsk) : List Bool :=
  if af.bitStuff then stuff 5 af.stuffCnt.toNat (bitsFrom af.currOut af.txBit)
  else bitsFrom af.currOut af.txBit

/-- The ones in a row that the next character is stuffed behind. -/
def onesAfter (af : Afsk) : ℕ :=
  if af.bitStuff then (bitsFrom af.currOut af.txBit).foldl (next 5) af.stuffCnt.toNat else 0

/-- The modem between two calls of the interrupt. -/
structure Ok (af : Afsk) : Prop where
  mask : af.txBit = 0 ∨ af.txBit ∈ masks
  stuffed : af.sending = true → af.bitStuff = true → af.stuffCnt.toNat ≤ 5
  gate : af.dacIsr = af.sending
  silent : af.sending = false → af.txBit = 0 ∧ af.sampleCount = 0

/-- `af'` is `af` with `bits` more of its character sent. -/
structure After (bits : List Bool) (af af' : Afsk) : Prop where
  rest : af.restBits = bits ++ af'.restBits
  ones : af'.onesAfter = af.onesAfter
  sending : af'.sending = af.sending
  preamble : af'.preambleLen = af.preambleLen

theorem restBits_done {af : Afsk} (h : af.txBit = 0) : af.restBits = [] := by
  simp [restBits, h]

theorem onesAfter_done {af : Afsk} (h : af.txBit = 0) :
    af.onesAfter = (if af.bitStuff then af.stuffCnt else 0).toNat := by
  rw [onesAfter, h, bitsFrom_zero, List.foldl_nil]
  split_ifs <;> rfl

theorem length_restBits_le (af : Afsk) : af.restBits.length ≤ 16 := by
  have h := length_bitsFrom_le af.currOut af.txBit
  have hs := length_stuff_le 5 af.stuffCnt.toNat (bitsFrom af.currOut af.txBit)
  unfold restBits
  split_ifs <;> omega

theorem switchTone_ne (inc : UInt16) : (switchTone inc == inc) = false := by
  rw [beq_eq_false_iff_ne, switchTone]
  split_ifs with h
  · rw [h]
    decide
  · exact fun h' => h h'.symm

theorem le_stuffCnt_iff (c : UInt8) : bitStuffLen ≤ c ↔ 5 ≤ c.toNat := UInt8.le_iff_toNat_le

/-- A bit of the character: the tone is kept for a one, and the ones are
counted. -/
theorem nextTone_bit {af : Afsk} (hz : ¬ (af.bitStuff = true ∧ bitStuffLen ≤ af.stuffCnt)) :
    ∃ cnt inc, af.nextTone = { af with
        stuffCnt := cnt, phaseInc := inc, txBit := af.txBit <<< 1, sampleCount := dacSamplePerBit } ∧
      (inc == af.phaseInc) = (af.currOut &&& af.txBit != 0) ∧
      (af.stuffCnt.toNat < 5 → cnt.toNat = next 5 af.stuffCnt.toNat (af.currOut &&& af.txBit != 0)) := by
  by_cases hone : af.currOut &&& af.txBit ≠ 0
  · have hbit : (af.currOut &&& af.txBit != 0) = true := by simpa using hone
    refine ⟨af.stuffCnt + 1, af.phaseInc, by rw [nextTone, if_neg hz, if_pos hone], by simp [hbit], ?_⟩
    intro hroom
    rw [hbit, next, if_pos rfl, if_neg (Nat.not_le.mpr hroom), Cells.toNat_succ (by omega)]
  · have hbit : (af.currOut &&& af.txBit != 0) = false := by simpa using hone
    refine ⟨0, switchTone af.phaseInc, by rw [nextTone, if_neg hz, if_neg hone], ?_, fun _ => by rw [hbit]; rfl⟩
    rw [hbit, switchTone_ne]

theorem nextTone_after {af : Afsk} (hok : af.Ok) (hon : af.sending = true) (hm : af.txBit ∈ masks) :
    After [af.nextTone.phaseInc == af.phaseInc] af af.nextTone ∧ af.nextTone.Ok := by
  obtain ⟨-, hstuffed, hgate, -⟩ := hok
  have hbits := bitsFrom_mask hm af.currOut
  have hsilent : ∀ {p : Prop}, af.sending = false → p := fun h => by simp [hon] at h
  by_cases hz : af.bitStuff = true ∧ bitStuffLen ≤ af.stuffCnt
  · -- a stuffed zero: the character waits
    have hfull := (le_stuffCnt_iff _).mp hz.2
    have htone : af.nextTone = { af with
        stuffCnt := 0, phaseInc := switchTone af.phaseInc, sampleCount := dacSamplePerBit } := by
      rw [nextTone, if_pos hz]
    rw [htone]
    refine ⟨⟨?_, ?_, rfl, rfl⟩, ⟨Or.inr hm, fun _ _ => by simp, hgate, hsilent⟩⟩
    · simp only [restBits, hz.1, if_true, hbits, switchTone_ne]
      exact stuff_full (by decide) hfull _ _
    · simp only [onesAfter, hz.1, if_true, hbits, List.foldl_cons]
      simp [next, hfull]
  · obtain ⟨cnt, inc, htone, hinc, hcnt⟩ := nextTone_bit hz
    rw [htone]
    by_cases hbs : af.bitStuff = true
    · have hroom : af.stuffCnt.toNat < 5 := Nat.not_le.mp fun h => hz ⟨hbs, (le_stuffCnt_iff _).mpr h⟩
      refine ⟨⟨?_, ?_, rfl, rfl⟩, ⟨(masks_shift _ hm).2, fun _ _ => ?_, hgate, hsilent⟩⟩
      · simp only [restBits, hbs, if_true, hbits, stuff_room hroom, hinc, hcnt hroom, List.singleton_append]
      · simp only [onesAfter, hbs, if_true, hbits, hcnt hroom, List.foldl_cons]
      · simp only [hcnt hroom]
        exact next_le (by decide) _
    · refine ⟨⟨?_, ?_, rfl, rfl⟩, ⟨(masks_shift _ hm).2, fun _ h => absurd h hbs, hgate, hsilent⟩⟩
      · simp [restBits, hbs, hbits, hinc]
      · simp [onesAfter, hbs]

theorem nextTone_frame (af : Afsk) : af.nextTone.txFifo = af.txFifo ∧ af.nextTone.trailerLen = af.trailerLen ∧
    af.nextTone.sampleCount = dacSamplePerBit := by
  unfold nextTone
  dsimp only
  split_ifs <;> exact ⟨rfl, rfl, rfl⟩

theorem nextSample_after {af : Afsk} (hok : af.Ok) (hon : af.sending = true) :
    After [] af af.nextSample.1 ∧ af.nextSample.1.Ok :=
  ⟨⟨rfl, rfl, rfl, rfl⟩, ⟨hok.mask, hok.stuffed, hok.gate, fun h => by simp [nextSample, hon] at h⟩⟩

theorem After.trans {a b : List Bool} {af af' af'' : Afsk} (h : After a af af') (h' : After b af' af'') :
    After (a ++ b) af af'' where
  rest := by rw [h.rest, h'.rest, List.append_assoc]
  ones := h'.ones.trans h.ones
  sending := h'.sending.trans h.sending
  preamble := h'.preamble.trans h.preamble

theorem nextBit_after {af : Afsk} (hok : af.Ok) (hon : af.sending = true) (hm : af.txBit ∈ masks) :
    After [af.nextTone.phaseInc == af.phaseInc] af af.nextTone.nextSample.1 ∧ af.nextTone.nextSample.1.Ok := by
  obtain ⟨h1, h2⟩ := nextTone_after hok hon hm
  obtain ⟨h3, h4⟩ := nextSample_after h2 (h1.sending.trans hon)
  exact ⟨h1.trans h3, h4⟩

/-! ### The next character -/

/-- What `nextChar` starts from, when there is a character. -/
def ready (af : Afsk) : Afsk :=
  { af with stuffCnt := if af.bitStuff then af.stuffCnt else 0, bitStuff := true }

theorem nextChar_eq (af : Afsk) : af.nextChar =
    if af.txFifo.isempty ∧ af.trailerLen = 0 then (af.stop, false)
    else if af.ready.fetch.currOut = ax25Esc then
      if af.ready.fetch.txFifo.isempty then (af.ready.fetch.stop, false)
      else ({ af.ready.fetch with
        currOut := af.ready.fetch.txFifo.pop.1, txFifo := af.ready.fetch.txFifo.pop.2, txBit := 0x01 }, true)
    else if af.ready.fetch.currOut = hdlcFlag ∨ af.ready.fetch.currOut = hdlcReset then
      ({ af.ready.fetch with bitStuff := false, txBit := 0x01 }, true)
    else ({ af.ready.fetch with txBit := 0x01 }, true) := rfl

theorem fetch_frame (af : Afsk) : af.fetch.phaseInc = af.phaseInc ∧ af.fetch.sampleCount = af.sampleCount ∧
    af.fetch.txBit = af.txBit ∧ af.fetch.sending = af.sending ∧ af.fetch.dacIsr = af.dacIsr ∧
    af.fetch.stuffCnt = af.stuffCnt ∧ af.fetch.bitStuff = af.bitStuff := by
  unfold fetch
  split_ifs <;> exact ⟨rfl, rfl, rfl, rfl, rfl, rfl, rfl⟩

/-- A new character begins at its first bit; without one the modem stops. -/
theorem nextChar_frame {af : Afsk} (hok : af.Ok) (hon : af.sending = true) (hdone : af.txBit = 0)
    (hstart : af.sampleCount = 0) :
    af.nextChar.1.phaseInc = af.phaseInc ∧ af.nextChar.1.sampleCount = 0 ∧ af.nextChar.1.Ok ∧
    (af.nextChar.2 = true → af.nextChar.1.txBit = 0x01 ∧ af.nextChar.1.sending = true) ∧
    (af.nextChar.2 = false → af.nextChar.1.txBit = 0 ∧ af.nextChar.1.sending = false) := by
  obtain ⟨h1, h2, h3, h4, h5, h6, h7⟩ := fetch_frame af.ready
  have hcnt : af.ready.stuffCnt.toNat ≤ 5 := by
    show (if af.bitStuff then af.stuffCnt else 0).toNat ≤ 5
    split_ifs with hbs
    · exact hok.stuffed hon hbs
    · decide
  have hone : (0x01 : UInt8) ∈ masks := by decide
  have hgate : af.ready.fetch.dacIsr = af.ready.fetch.sending := by rw [h4, h5]; exact hok.gate
  have hon' : af.ready.fetch.sending = true := by rw [h4]; exact hon
  have hsilent : ∀ {p : Prop}, af.ready.fetch.sending = false → p := fun h => by simp [hon'] at h
  rw [nextChar_eq]
  split_ifs
  · exact ⟨rfl, hstart, ⟨Or.inl hdone, fun h => (nomatch h), rfl, fun _ => ⟨hdone, hstart⟩⟩, fun h => (nomatch h),
      fun _ => ⟨hdone, rfl⟩⟩
  · have hd : af.ready.fetch.stop.txBit = 0 := h3.trans hdone
    have hs : af.ready.fetch.stop.sampleCount = 0 := h2.trans hstart
    exact ⟨h1, hs, ⟨Or.inl hd, fun h => (nomatch h), rfl, fun _ => ⟨hd, hs⟩⟩, fun h => (nomatch h), fun _ => ⟨hd, rfl⟩⟩
  · exact ⟨h1, h2.trans hstart, ⟨Or.inr hone, fun _ _ => h6 ▸ hcnt, hgate, hsilent⟩, fun _ => ⟨rfl, hon'⟩,
      fun h => (nomatch h)⟩
  · exact ⟨h1, h2.trans hstart, ⟨Or.inr hone, fun _ h => (nomatch h), hgate, hsilent⟩, fun _ => ⟨rfl, hon'⟩,
      fun h => (nomatch h)⟩
  · exact ⟨h1, h2.trans hstart, ⟨Or.inr hone, fun _ _ => h6 ▸ hcnt, hgate, hsilent⟩, fun _ => ⟨rfl, hon'⟩,
      fun h => (nomatch h)⟩

theorem nextChar_of_flag {af : Afsk} (hgo : ¬ (af.txFifo.isempty = true ∧ af.trailerLen = 0))
    (hflag : af.ready.fetch.currOut = hdlcFlag) :
    af.nextChar = ({ af.ready.fetch with bitStuff := false, txBit := 0x01 }, true) := by
  rw [nextChar_eq, if_neg hgo, hflag, if_neg (by decide), if_pos (Or.inl rfl)]

theorem restBits_of_flag {af : Afsk} (h : af.currOut = hdlcFlag) :
    restBits { af with bitStuff := false, txBit := 0x01 } = flagBits 5 := by
  show bitsFrom af.currOut 0x01 = flagBits 5
  rw [h, bitsFrom_one, byteBits_flag]

theorem nextChar_preamble {af : Afsk} (hpre : af.preambleLen ≠ 0)
    (hgo : ¬ (af.txFifo.isempty = true ∧ af.trailerLen = 0)) :
    af.nextChar.2 = true ∧ af.nextChar.1.restBits = flagBits 5 ∧ af.nextChar.1.txFifo = af.txFifo ∧
      af.nextChar.1.preambleLen = af.preambleLen - 1 ∧ af.nextChar.1.trailerLen = af.trailerLen := by
  have hf : af.ready.fetch = { af.ready with preambleLen := af.preambleLen - 1, currOut := hdlcFlag } := if_neg hpre
  rw [nextChar_of_flag hgo (by rw [hf]), restBits_of_flag (by rw [hf]), hf]
  exact ⟨rfl, rfl, rfl, rfl, rfl⟩

theorem nextChar_trailer {af : Afsk} (hpre : af.preambleLen = 0) (hempty : af.txFifo.isempty = true)
    (htr : af.trailerLen ≠ 0) :
    af.nextChar.2 = true ∧ af.nextChar.1.restBits = flagBits 5 ∧ af.nextChar.1.txFifo = af.txFifo ∧
      af.nextChar.1.preambleLen = 0 ∧ af.nextChar.1.trailerLen = af.trailerLen - 1 := by
  have hf : af.ready.fetch = { af.ready with trailerLen := af.trailerLen - 1, currOut := hdlcFlag } :=
    (if_pos hpre).trans (if_pos hempty)
  rw [nextChar_of_flag (fun h => htr h.2) (by rw [hf]), restBits_of_flag (by rw [hf]), hf]
  exact ⟨rfl, rfl, rfl, hpre, rfl⟩

theorem fetch_head {af : Afsk} (hpre : af.preambleLen = 0) {c : UInt8} {cs : List UInt8}
    (hc : af.txFifo.contents = c :: cs) :
    ¬ (af.txFifo.isempty = true ∧ af.trailerLen = 0) ∧ af.ready.fetch.currOut = c ∧
      af.ready.fetch = { af.ready with currOut := af.txFifo.pop.1, txFifo := af.txFifo.pop.2 } ∧
      af.ready.fetch.txFifo.contents = cs := by
  obtain ⟨hne, h1, h2⟩ := FIFOBuffer.pop_of_contents hc
  have hne' : ¬ af.txFifo.isempty = true := by simp [hne]
  have hf : af.ready.fetch = { af.ready with currOut := af.txFifo.pop.1, txFifo := af.txFifo.pop.2 } :=
    (if_pos hpre).trans (if_neg hne')
  exact ⟨fun h => hne' h.1, by rw [hf]; exact h1, hf, by rw [hf]; exact h2⟩

theorem nextChar_flag {af : Afsk} (hpre : af.preambleLen = 0) {cs : List UInt8}
    (hc : af.txFifo.contents = hdlcFlag :: cs) :
    af.nextChar.2 = true ∧ af.nextChar.1.restBits = flagBits 5 ∧ af.nextChar.1.onesAfter = 0 ∧
      af.nextChar.1.txFifo.contents = cs ∧ af.nextChar.1.preambleLen = 0 := by
  obtain ⟨hgo, hcurr, hf, hcs⟩ := fetch_head hpre hc
  rw [nextChar_of_flag hgo hcurr, restBits_of_flag hcurr]
  refine ⟨rfl, rfl, rfl, hcs, ?_⟩
  rw [hf]
  exact hpre

/-- A data byte from the FIFO, with the escape before it if it has one. -/
theorem nextChar_word {af : Afsk} (hdone : af.txBit = 0) (hpre : af.preambleLen = 0) {c : UInt8} {cs : List UInt8}
    (hc : af.txFifo.contents = ax25Stuffing.word c ++ cs) :
    af.nextChar.2 = true ∧ af.nextChar.1.restBits = stuff 5 af.onesAfter (byteBits c) ∧
      af.nextChar.1.onesAfter = (byteBits c).foldl (next 5) af.onesAfter ∧
      af.nextChar.1.txFifo.contents = cs ∧ af.nextChar.1.preambleLen = 0 := by
  have hones : af.onesAfter = af.ready.stuffCnt.toNat := onesAfter_done hdone
  by_cases hs : ax25Stuffing.special c = true
  · rw [Stuffing.word_of_special _ hs] at hc
    obtain ⟨hgo, hcurr, hf, hcs⟩ := fetch_head hpre hc
    obtain ⟨hne, h1, h2⟩ := FIFOBuffer.pop_of_contents hcs
    rw [nextChar_eq, if_neg hgo, if_pos (show _ = ax25Esc from hcurr), if_neg (by simp [hne]), h1, hf, hones]
    rw [hf] at h2
    exact ⟨rfl, rfl, rfl, h2, hpre⟩
  · have hs' : c ≠ hdlcFlag ∧ c ≠ hdlcReset ∧ c ≠ ax25Esc := by
      rwa [special_iff, not_or, not_or] at hs
    rw [Stuffing.word_of_plain _ (by simpa using hs)] at hc
    obtain ⟨hgo, hcurr, hf, hcs⟩ := fetch_head hpre hc
    rw [nextChar_eq, if_neg hgo, hcurr, if_neg hs'.2.2, if_neg (by simp [hs'.1, hs'.2.1]), hones]
    have h1 : af.txFifo.pop.1 = c := by rw [hf] at hcurr; exact hcurr
    rw [hf] at hcs ⊢
    rw [h1]
    exact ⟨rfl, rfl, rfl, hcs, hpre⟩

end Afsk

open Afsk

theorem toNat_pred {n : UInt16} (h : n ≠ 0) : n.toNat = (n - 1).toNat + 1 := by
  have hpos : n.toNat ≠ 0 := fun h' => h (UInt16.toNat_inj.mp h')
  rw [UInt16.toNat_sub_of_le n 1 (UInt16.le_iff_toNat_le.mpr (by show 1 ≤ _; omega))]
  show _ = _ - 1 + 1
  omega

/-! ### A call of the interrupt -/

theorem toneBit_eq {af af₁ : Afsk} (hstart : af.sampleCount = 0) (hinc : af₁.phaseInc = af.phaseInc)
    (hisr : (afskDacIsr af).1 = af₁.nextTone.nextSample.1) :
    toneBit af = [af₁.nextTone.phaseInc == af₁.phaseInc] := by
  have hseven : af₁.nextTone.nextSample.1.sampleCount = 7 := by
    show af₁.nextTone.sampleCount - 1 = 7
    rw [(nextTone_frame af₁).2.2]
    decide
  rw [toneBit, hisr, hseven, if_pos ⟨hstart, by decide⟩, hinc]
  rfl

/-- **What a call of `afsk_dac_isr` does**: a sample within a bit; a bit of
the character, which it may have to get first; or the end. -/
theorem isr_cases {af : Afsk} (hok : af.Ok) (hon : af.sending = true) :
    (afskDacIsr af).1.Ok ∧
    ((af.sampleCount ≠ 0 ∧ (afskDacIsr af).1 = af.nextSample.1 ∧ toneBit af = []) ∨
    (∃ af₁, (af₁ = af ∨ af.txBit = 0 ∧ af.nextChar = (af₁, true)) ∧ af.sampleCount = 0 ∧ af₁.sending = true ∧
      (afskDacIsr af).1 = af₁.nextTone.nextSample.1 ∧
      After (toneBit af) af₁ af₁.nextTone.nextSample.1 ∧ (toneBit af).length = 1) ∨
    (af.sampleCount = 0 ∧ af.txBit = 0 ∧ (afskDacIsr af).1 = af.nextChar.1 ∧ af.nextChar.1.sending = false ∧
      toneBit af = [])) := by
  by_cases hstart : af.sampleCount = 0
  · rcases hok.mask with hdone | hm
    · obtain ⟨h1, h2, h3, hgo, hstop⟩ := nextChar_frame hok hon hdone hstart
      by_cases hnext : af.nextChar.2 = true
      · have hisr : (afskDacIsr af).1 = af.nextChar.1.nextTone.nextSample.1 := by
          rw [afskDacIsr, if_pos hstart, if_pos hdone]
          simp only [hnext, if_true]
        obtain ⟨hbit, hon₁⟩ := hgo hnext
        obtain ⟨ha, hok'⟩ := nextBit_after h3 hon₁ (by rw [hbit]; decide)
        rw [toneBit_eq hstart h1 hisr, hisr]
        exact ⟨hok', Or.inr (Or.inl ⟨_, Or.inr ⟨hdone, Prod.ext rfl hnext⟩, hstart, hon₁, rfl, ha, rfl⟩)⟩
      · have hisr : (afskDacIsr af).1 = af.nextChar.1 := by
          rw [afskDacIsr, if_pos hstart, if_pos hdone]
          simp only [hnext, if_false, Bool.false_eq_true]
        have hbit : toneBit af = [] := by rw [toneBit, hisr, if_neg (fun h => h.2 h2)]
        rw [hisr]
        exact ⟨h3, Or.inr (Or.inr ⟨hstart, hdone, rfl, (hstop (by simpa using hnext)).2, hbit⟩)⟩
    · have hisr : (afskDacIsr af).1 = af.nextTone.nextSample.1 := by
        rw [afskDacIsr, if_pos hstart, if_neg (masks_shift _ hm).1]
      obtain ⟨ha, hok'⟩ := nextBit_after hok hon hm
      rw [toneBit_eq hstart rfl hisr, hisr]
      exact ⟨hok', Or.inr (Or.inl ⟨af, Or.inl rfl, hstart, hon, rfl, ha, rfl⟩)⟩
  · have hisr : (afskDacIsr af).1 = af.nextSample.1 := by rw [afskDacIsr, if_neg hstart]
    have hbit : toneBit af = [] := by rw [toneBit, if_neg (fun h => hstart h.1)]
    rw [hisr]
    exact ⟨(nextSample_after hok hon).2, Or.inl ⟨hstart, rfl, hbit⟩⟩

/-! ### The modem falls silent -/

namespace Afsk

/-- The characters a modem has to send. -/
def charsLeft (af : Afsk) : ℕ := af.preambleLen.toNat + af.txFifo.contents.length + af.trailerLen.toNat

/-- What is left of a transmission, in samples; a character takes at most 128
of them. -/
def budget (af : Afsk) : ℕ := 200 * af.charsLeft + 8 * af.restBits.length + af.sampleCount.toNat

theorem length_pop {fb : FIFOBuffer} (h : fb.isempty = false) :
    fb.contents.length = fb.pop.2.contents.length + 1 := by
  rw [FIFOBuffer.contents_pop h, List.length_cons]

theorem charsLeft_fetch {af : Afsk} (hgo : ¬ (af.txFifo.isempty = true ∧ af.trailerLen = 0)) :
    af.fetch.charsLeft < af.charsLeft := by
  unfold fetch
  split_ifs with hpre hempty
  · have := toNat_pred fun h => hgo ⟨hempty, h⟩
    simp only [charsLeft]
    omega
  · have := length_pop (by simpa using hempty)
    simp only [charsLeft]
    omega
  · have := toNat_pred hpre
    simp only [charsLeft]
    omega

theorem charsLeft_nextChar {af : Afsk} (h : af.nextChar.2 = true) : af.nextChar.1.charsLeft < af.charsLeft := by
  rw [nextChar_eq] at h ⊢
  by_cases hgo : af.txFifo.isempty = true ∧ af.trailerLen = 0
  · rw [if_pos hgo] at h
    exact (nomatch h)
  rw [if_neg hgo] at h ⊢
  have hfetch : af.ready.fetch.charsLeft < af.charsLeft := @charsLeft_fetch af.ready hgo
  split_ifs at h ⊢ with h1 h2 h3
  · have := length_pop (by simpa using h2)
    simp only [charsLeft] at hfetch ⊢
    omega
  · exact hfetch
  · exact hfetch

/-- **Every call uses up some of the budget**, or ends the transmission. -/
theorem isr_budget {af : Afsk} (hok : af.Ok) (hon : af.sending = true) :
    (afskDacIsr af).1.sending = false ∨ (afskDacIsr af).1.budget < af.budget := by
  obtain ⟨-, ⟨hmid, hisr, -⟩ | ⟨af₁, hchar, hstart, -, hisr, ha, hlen⟩ | ⟨-, -, hisr, hoff, -⟩⟩ := isr_cases hok hon
  · refine Or.inr ?_
    have hpos : af.sampleCount.toNat ≠ 0 := fun h => hmid (UInt8.toNat_inj.mp h)
    have hcnt : af.nextSample.1.sampleCount.toNat = af.sampleCount.toNat - 1 :=
      UInt8.toNat_sub_of_le af.sampleCount 1 (UInt8.le_iff_toNat_le.mpr (by show 1 ≤ _; omega))
    rw [hisr, budget, budget, hcnt]
    show 200 * af.charsLeft + 8 * af.restBits.length + _ < _
    omega
  · refine Or.inr ?_
    have hrest : af₁.restBits.length = 1 + af₁.nextTone.nextSample.1.restBits.length := by
      rw [ha.rest, List.length_append, hlen]
    have hchars : af₁.nextTone.nextSample.1.charsLeft = af₁.charsLeft := by
      show af₁.nextTone.preambleLen.toNat + af₁.nextTone.txFifo.contents.length +
        af₁.nextTone.trailerLen.toNat = _
      have hpre : af₁.nextTone.preambleLen = af₁.preambleLen := ha.preamble
      rw [(nextTone_frame af₁).1, (nextTone_frame af₁).2.1, hpre, charsLeft]
    have hcnt : af₁.nextTone.nextSample.1.sampleCount.toNat = 7 := by
      show (af₁.nextTone.sampleCount - 1).toNat = 7
      rw [(nextTone_frame af₁).2.2]
      decide
    have h16 := length_restBits_le af₁
    rw [hisr, budget, budget, hcnt, hchars, hstart]
    rcases hchar with rfl | ⟨-, hnext⟩
    · omega
    · have hless := @charsLeft_nextChar af (by rw [hnext])
      rw [hnext] at hless
      dsimp only at hless
      omega
  · exact Or.inl (by rw [hisr, hoff])

end Afsk

/-! ### The balance of a transmission -/

/-- What `afsk_write` is given for a frame. -/
def tokens (data : List UInt8) : List UInt8 := hdlcFlag :: (ax25Stuffing.encode data ++ [hdlcFlag])

def frameBits (data : List UInt8) : List Bool := flags 5 1 ++ (stuff 5 0 (data.flatMap byteBits) ++ flags 5 1)

namespace Transmitter

/-- What is queued or to be queued. -/
def queue (s : Transmitter) : List UInt8 := s.af.txFifo.contents ++ s.todo

/-- How far a transmission of `data` is, with the bits `sent`. -/
inductive Progress (data : List UInt8) (sent : List Bool) (s : Transmitter) : Prop where
  | waiting (hoff : s.af.sending = false) (hq : s.queue = tokens data)
      (hst : s.starting = true ∨ s.todo = tokens data) (hsent : sent = [])
  | opening (hon : s.af.sending = true) (hq : s.queue = tokens data)
      (hsent : sent ++ (s.af.restBits ++ (flags 5 s.af.preambleLen.toNat ++ frameBits data)) =
        flags 5 53 ++ frameBits data)
  | inside (ds : List UInt8) (hon : s.af.sending = true) (hpre : s.af.preambleLen = 0)
      (hq : s.queue = ax25Stuffing.encode ds ++ [hdlcFlag])
      (hsent : sent ++ (s.af.restBits ++ (stuff 5 s.af.onesAfter (ds.flatMap byteBits) ++ flags 5 1)) =
        flags 5 53 ++ frameBits data)
  | closed (c : ℕ) (hq : s.queue = [])
      (hsent : sent ++ s.af.restBits = flags 5 53 ++ (frameBits data ++ flags 5 c))

variable {data : List UInt8} {sent : List Bool} {s s' : Transmitter}

/-- Bits of the current character, and the queue as it was. -/
theorem Progress.after {bits : List Bool} (h : Progress data sent s) (hon : s.af.sending = true)
    (ha : After bits s.af s'.af) (hq' : s'.queue = s.queue) : Progress data (sent ++ bits) s' := by
  cases h with
  | waiting hoff => simp [hon] at hoff
  | opening _ hq hsent =>
    refine .opening (ha.sending.trans hon) (hq'.trans hq) ?_
    rw [ha.preamble, ← hsent, ha.rest]
    simp only [List.append_assoc]
  | inside ds _ hpre hq hsent =>
    refine .inside ds (ha.sending.trans hon) (ha.preamble.trans hpre) (hq'.trans hq) ?_
    rw [ha.ones, ← hsent, ha.rest]
    simp only [List.append_assoc]
  | closed c hq hsent =>
    refine .closed c (hq'.trans hq) ?_
    rw [← hsent, ha.rest, List.append_assoc]

/-- The interrupt is about to get a character, and is fed. -/
structure Fetching (s : Transmitter) : Prop where
  ok : s.af.Ok
  on : s.af.sending = true
  done : s.af.txBit = 0
  start : s.af.sampleCount = 0
  fed : s.starves .isr = false

theorem Fetching.contents_ne_nil (hf : Fetching s) (hq : s.queue ≠ []) : s.af.txFifo.contents ≠ [] := by
  intro hnil
  have htodo : s.todo ≠ [] := by simpa [queue, hnil] using hq
  have hempty := (FIFOBuffer.isempty_iff _).mpr hnil
  have hfed := hf.fed
  simp [starves, seesEmpty, hf.ok.gate, hf.on, htodo, hf.done, hf.start, hempty] at hfed

theorem Fetching.contents_word (hf : Fetching s) (hpre : s.af.preambleLen = 0) {c : UInt8} {cs : List UInt8}
    (hq : s.queue = ax25Stuffing.word c ++ cs) :
    ∃ r, s.af.txFifo.contents = ax25Stuffing.word c ++ r ∧ r ++ s.todo = cs := by
  have hne : s.af.txFifo.contents ≠ [] := by
    refine hf.contents_ne_nil ?_
    rw [hq, Stuffing.word]
    split_ifs <;> simp
  obtain ⟨c₀, r₀, hc₀⟩ := List.exists_cons_of_ne_nil hne
  rw [queue, hc₀, List.cons_append] at hq
  by_cases hs : ax25Stuffing.special c = true
  · rw [Stuffing.word_of_special _ hs] at hq ⊢
    obtain ⟨rfl, hq₁⟩ := List.cons.inj hq
    obtain ⟨-, h1, h2⟩ := FIFOBuffer.pop_of_contents hc₀
    -- behind the escape there is its character, or the interrupt starves
    have hne₀ : r₀ ≠ [] := by
      intro hnil
      have htodo : s.todo ≠ [] := by
        rw [hnil, List.nil_append] at hq₁
        simp [hq₁]
      have hempty := (FIFOBuffer.isempty_iff _).mpr (h2.trans hnil)
      have hfed := hf.fed
      simp [starves, seesEmpty, hf.ok.gate, hf.on, htodo, hf.done, hf.start, hpre, h1, hempty, ax25Stuffing] at hfed
    obtain ⟨c₁, r₁, hc₁⟩ := List.exists_cons_of_ne_nil hne₀
    rw [hc₁] at hq₁
    obtain ⟨rfl, hq₂⟩ := List.cons.inj hq₁
    exact ⟨r₁, by rw [hc₀, hc₁]; rfl, hq₂⟩
  · rw [Stuffing.word_of_plain _ (by simpa using hs)] at hq ⊢
    obtain ⟨rfl, hq₁⟩ := List.cons.inj hq
    exact ⟨r₀, hc₀, hq₁⟩

theorem Fetching.contents_flag (hf : Fetching s) {cs : List UInt8} (hq : s.queue = hdlcFlag :: cs) :
    ∃ r, s.af.txFifo.contents = hdlcFlag :: r ∧ r ++ s.todo = cs := by
  obtain ⟨c, r, hc⟩ := List.exists_cons_of_ne_nil (hf.contents_ne_nil (by simp [hq]))
  rw [queue, hc] at hq
  obtain ⟨rfl, hr⟩ := List.cons.inj hq
  exact ⟨r, hc, hr⟩

theorem Fetching.opening (hf : Fetching s) (hq : s.queue = tokens data)
    (hsent : sent ++ (flags 5 s.af.preambleLen.toNat ++ frameBits data) = flags 5 53 ++ frameBits data) :
    Progress data sent { s with af := s.af.nextChar.1 } := by
  obtain ⟨-, -, -, hgo, -⟩ := nextChar_frame hf.ok hf.on hf.done hf.start
  by_cases hpre : s.af.preambleLen = 0
  · obtain ⟨r, hc, hr⟩ := hf.contents_flag hq
    obtain ⟨h0, h1, h2, h3, h4⟩ := nextChar_flag hpre hc
    refine .inside data (hgo h0).2 h4 (by rw [queue, h3]; exact hr) ?_
    rw [h1, h2, ← hsent, hpre]
    rfl
  · have hne := hf.contents_ne_nil (by simp [hq, tokens])
    obtain ⟨h0, h1, h2, h3, -⟩ := nextChar_preamble hpre fun h => hne ((FIFOBuffer.isempty_iff _).mp h.1)
    refine .opening (hgo h0).2 (by rw [queue, h2]; exact hq) ?_
    rw [h1, h3, ← hsent, toNat_pred hpre, flags_succ]
    simp only [List.append_assoc]

theorem Fetching.inside (hf : Fetching s) {ds : List UInt8} (hpre : s.af.preambleLen = 0)
    (hq : s.queue = ax25Stuffing.encode ds ++ [hdlcFlag])
    (hsent : sent ++ (stuff 5 s.af.onesAfter (ds.flatMap byteBits) ++ flags 5 1) = flags 5 53 ++ frameBits data) :
    Progress data sent { s with af := s.af.nextChar.1 } := by
  obtain ⟨-, -, -, hgo, -⟩ := nextChar_frame hf.ok hf.on hf.done hf.start
  cases ds with
  | nil =>
    obtain ⟨r, hc, hr⟩ := hf.contents_flag hq
    obtain ⟨-, h1, -, h3, -⟩ := nextChar_flag hpre hc
    refine .closed 0 (by rw [queue, h3]; exact hr) ?_
    rw [h1, ← List.append_assoc (flags 5 53), ← hsent]
    exact (List.append_nil (sent ++ flagBits 5)).symm
  | cons d ds =>
    rw [Stuffing.encode_cons, List.append_assoc] at hq
    obtain ⟨r, hc, hr⟩ := hf.contents_word hpre hq
    obtain ⟨h0, h1, h2, h3, h4⟩ := nextChar_word hf.done hpre hc
    refine .inside ds (hgo h0).2 h4 (by rw [queue, h3]; exact hr) ?_
    rw [h1, h2, ← hsent, List.flatMap_cons, stuff_append]
    simp only [List.append_assoc]

theorem Fetching.closed (hf : Fetching s) (c : ℕ) (hq : s.queue = [])
    (hsent : sent = flags 5 53 ++ (frameBits data ++ flags 5 c)) :
    Progress data sent { s with af := s.af.nextChar.1 } := by
  have hempty : s.af.txFifo.isempty = true := (FIFOBuffer.isempty_iff _).mpr (List.append_eq_nil_iff.mp hq).1
  by_cases htr : s.af.trailerLen = 0
  · have hstop : s.af.nextChar.1 = s.af.stop := by rw [nextChar_eq, if_pos ⟨hempty, htr⟩]
    refine .closed c (by rw [queue, hstop]; exact hq) ?_
    rw [hstop, @restBits_done s.af.stop hf.done, List.append_nil, hsent]
  · have hflag : s.af.nextChar.1.restBits = flagBits 5 ∧ s.af.nextChar.1.txFifo = s.af.txFifo := by
      by_cases hpre : s.af.preambleLen = 0
      · obtain ⟨-, h1, h2, -, -⟩ := nextChar_trailer hpre hempty htr
        exact ⟨h1, h2⟩
      · obtain ⟨-, h1, h2, -, -⟩ := nextChar_preamble hpre fun h => htr h.2
        exact ⟨h1, h2⟩
    refine .closed (c + 1) (by rw [queue, hflag.2]; exact hq) ?_
    rw [hflag.1, hsent, flags_add]
    simp only [List.append_assoc]
    rfl

theorem Progress.nextChar (h : Progress data sent s) (hf : Fetching s) :
    Progress data sent { s with af := s.af.nextChar.1 } := by
  have hrest := restBits_done hf.done
  cases h with
  | waiting hoff => simp [hf.on] at hoff
  | opening _ hq hsent =>
    rw [hrest, List.nil_append] at hsent
    exact hf.opening hq hsent
  | inside ds _ hpre hq hsent =>
    rw [hrest, List.nil_append] at hsent
    exact hf.inside hpre hq hsent
  | closed c hq hsent =>
    rw [hrest, List.append_nil] at hsent
    exact hf.closed c hq hsent

theorem queue_nextBit (s : Transmitter) : queue { s with af := s.af.nextTone.nextSample.1 } = s.queue := by
  show s.af.nextTone.txFifo.contents ++ s.todo = s.queue
  rw [(nextTone_frame s.af).1]
  rfl

theorem Progress.isr (h : Progress data sent s) (hok : s.af.Ok) (hon : s.af.sending = true)
    (hfed : s.starves .isr = false) :
    Progress data (sent ++ toneBit s.af) { s with af := (afskDacIsr s.af).1 } := by
  obtain ⟨-, ⟨-, hisr, hbit⟩ | ⟨af₁, hchar, hstart, hon₁, hisr, ha, -⟩ | ⟨hstart, hdone, hisr, -, hbit⟩⟩ :=
    isr_cases hok hon
  · rw [hisr, hbit]
    exact h.after hon (nextSample_after hok hon).1 rfl
  · rw [hisr]
    rcases hchar with rfl | ⟨hdone, hnext⟩
    · exact h.after hon ha (queue_nextBit s)
    · have h1 := h.nextChar ⟨hok, hon, hdone, hstart, hfed⟩
      rw [hnext] at h1
      exact h1.after hon₁ ha (queue_nextBit ⟨af₁, s.todo, s.starting⟩)
  · rw [hisr, hbit, List.append_nil]
    exact h.nextChar ⟨hok, hon, hdone, hstart, hfed⟩

theorem txStart_on {af : Afsk} (hon : af.sending = true) : af.txStart = { af with trailerLen := trailerFlags } := by
  simp [txStart, hon]

theorem txStart_off {af : Afsk} (hoff : af.sending = false) :
    af.txStart = { af with
      phaseInc := markInc, phaseAcc := 0, stuffCnt := 0, sending := true, preambleLen := preambleFlags,
      dacIsr := true, trailerLen := trailerFlags } := by
  simp [txStart, hoff]

/-- `afsk_txStart` keeps the balance: it starts the preamble of a waiting
frame, and for a modem that is silent again it starts flags. -/
theorem Progress.txStart (h : Progress data sent s) (hok : s.af.Ok) :
    Progress data sent { s with af := s.af.txStart, starting := false } ∧ s.af.txStart.Ok := by
  by_cases hon : s.af.sending = true
  · have ha : After [] s.af s.af.txStart := by
      rw [txStart_on hon]
      exact ⟨rfl, rfl, rfl, rfl⟩
    refine ⟨?_, ?_⟩
    · rw [← List.append_nil sent]
      exact h.after hon ha (by rw [queue, txStart_on hon]; rfl)
    · rw [txStart_on hon]
      exact ⟨hok.mask, hok.stuffed, hok.gate, hok.silent⟩
  · have hoff : s.af.sending = false := by simpa using hon
    obtain ⟨hdone, -⟩ := hok.silent hoff
    have hrest : s.af.txStart.restBits = [] := restBits_done (by rw [txStart_off hoff]; exact hdone)
    refine ⟨?_, ?_⟩
    · cases h with
      | waiting _ hq hst hsent =>
        refine .opening (by rw [txStart_off hoff]) (by rw [queue, txStart_off hoff]; exact hq) ?_
        rw [hrest, hsent, txStart_off hoff]
        rfl
      | opening hon' => exact absurd hon' hon
      | inside _ hon' => exact absurd hon' hon
      | closed c hq hsent =>
        refine .closed c (by rw [queue, txStart_off hoff]; exact hq) ?_
        rw [← hsent, hrest, restBits_done hdone]
    · rw [txStart_off hoff]
      exact ⟨Or.inl hdone, fun _ _ => by simp, rfl, fun h => (nomatch h)⟩

theorem queue_push {c : UInt8} {cs : List UInt8} (htodo : s.todo = c :: cs) (hroom : s.af.txFifo.isfull = false) :
    queue ⟨{ s.af with txFifo := s.af.txFifo.push c }, cs, true⟩ = s.queue := by
  rw [queue, queue, htodo, FIFOBuffer.contents_push hroom, List.append_assoc]
  rfl

/-- `afsk_write` keeps the balance. -/
theorem Progress.writeStep (h : Progress data sent s) (hok : s.af.Ok) :
    Progress data sent s.writeStep ∧ s.writeStep.af.Ok := by
  unfold Transmitter.writeStep
  by_cases hst : s.starting = true
  · rw [if_pos hst]
    exact h.txStart hok
  rw [if_neg hst]
  cases htodo : s.todo with
  | nil => exact ⟨h, hok⟩
  | cons c cs =>
    by_cases hfull : s.af.txFifo.isfull = true
    · simp only [hfull, if_true]
      exact ⟨h, hok⟩
    · have hq := queue_push htodo (by simpa using hfull)
      simp only [hfull, if_false, Bool.false_eq_true]
      refine ⟨?_, ⟨hok.mask, hok.stuffed, hok.gate, hok.silent⟩⟩
      by_cases hon : s.af.sending = true
      · rw [← List.append_nil sent]
        exact h.after hon ⟨rfl, rfl, rfl, rfl⟩ hq
      · cases h with
        | waiting hoff hq₀ _ hsent => exact .waiting hoff (hq.trans hq₀) (Or.inl rfl) hsent
        | opening hon' => exact absurd hon' hon
        | inside _ hon' => exact absurd hon' hon
        | closed k hq₀ => simp [queue, htodo] at hq₀

/-- **Every event keeps the balance**, as long as the interrupt is fed. -/
theorem Progress.step (h : Progress data sent s) (hok : s.af.Ok) {e : TxEvent} (hfed : s.starves e = false) :
    Progress data (sent ++ (s.step e).2) (s.step e).1 ∧ (s.step e).1.af.Ok := by
  cases e with
  | isr =>
    unfold Transmitter.step
    by_cases hgate : s.af.dacIsr = true
    · rw [if_pos hgate]
      have hon : s.af.sending = true := hok.gate.symm.trans hgate
      exact ⟨h.isr hok hon hfed, (isr_cases hok hon).1⟩
    · rw [if_neg hgate, List.append_nil]
      exact ⟨h, hok⟩
  | write =>
    rw [Transmitter.step, List.append_nil]
    exact h.writeStep hok

/-- **Every run keeps the balance.** -/
theorem Progress.run : ∀ (es : List TxEvent) {sent : List Bool} {s : Transmitter}, Progress data sent s → s.af.Ok →
    s.fed es = true →
    Progress data (sent ++ outs Transmitter.step s es) (final Transmitter.step s es) ∧
      (final Transmitter.step s es).af.Ok
  | [], sent, s, h, hok, _ => ⟨by simpa using h, hok⟩
  | e :: es, sent, s, h, hok, hfed => by
    rw [fed, Bool.and_eq_true, Bool.not_eq_true'] at hfed
    obtain ⟨h1, hok1⟩ := h.step hok hfed.1
    have ih := Progress.run es h1 hok1 hfed.2
    rwa [List.append_assoc] at ih

/-- **A transmission that has ended is complete**: the preamble and the
opening flag, the data, and at least the closing flag. -/
theorem Progress.line (h : Progress data sent s) (hok : s.af.Ok) (hw : s.Written) (hoff : s.af.sending = false) :
    ∃ c, sent = flags 5 54 ++ (stuff 5 0 (data.flatMap byteBits) ++ flags 5 (c + 1)) := by
  cases h with
  | waiting _ _ hst =>
    rcases hst with hst | hst
    · simp [hw.2] at hst
    · simp [hw.1, tokens] at hst
  | opening hon => simp [hoff] at hon
  | inside _ hon => simp [hoff] at hon
  | closed c _ hsent =>
    rw [restBits_done (hok.silent hoff).1, List.append_nil] at hsent
    refine ⟨c, ?_⟩
    rw [hsent, frameBits, show (54 : ℕ) = 53 + 1 from rfl, flags_add 5 53 1, Nat.add_comm c 1, flags_add 5 1 c]
    simp only [List.append_assoc]

theorem silent_within : ∀ (b : ℕ) {s : Transmitter}, s.af.Ok → s.af.budget < b →
    ∃ n, (final Transmitter.step s (List.replicate n .isr)).af.sending = false
  | 0, _, _, hb => absurd hb (Nat.not_lt_zero _)
  | b + 1, s, hok, hb => by
    by_cases hon : s.af.sending = true
    · have hstep : s.step .isr = ({ s with af := (afskDacIsr s.af).1 }, toneBit s.af) :=
        if_pos (hok.gate.trans hon)
      rcases isr_budget hok hon with hoff | hless
      · exact ⟨1, by rw [List.replicate_one, final_cons, hstep]; exact hoff⟩
      · obtain ⟨n, hn⟩ := @silent_within b { s with af := (afskDacIsr s.af).1 } (isr_cases hok hon).1
          (by dsimp only; omega)
        exact ⟨n + 1, by rw [List.replicate_succ, final_cons, hstep]; exact hn⟩
    · exact ⟨0, by simpa using hon⟩

/-- Once everything is queued, it stays so and nothing can starve. -/
theorem isr_written : ∀ (n : ℕ) {s : Transmitter}, s.Written →
    s.fed (List.replicate n .isr) = true ∧ (final Transmitter.step s (List.replicate n .isr)).Written
  | 0, _, hw => ⟨rfl, hw⟩
  | n + 1, s, hw => by
    have hw' : (s.step .isr).1.Written := by
      unfold Transmitter.step
      split_ifs
      · exact hw
      · exact hw
    obtain ⟨h1, h2⟩ := isr_written n hw'
    rw [List.replicate_succ, fed, final_cons, h1]
    exact ⟨by simp [starves, hw.1], h2⟩

theorem fed_append : ∀ (es es' : List TxEvent) (s : Transmitter),
    s.fed (es ++ es') = (s.fed es && (final Transmitter.step s es).fed es')
  | [], _, _ => rfl
  | e :: es, es', s => by
    rw [List.cons_append, fed, fed, final_cons, fed_append es es', Bool.and_assoc]

end Transmitter

end TinyAprs
