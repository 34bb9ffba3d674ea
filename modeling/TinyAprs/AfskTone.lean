/-
# The tones of a transmission

What `ADC_vect` (`hw/hw_afsk.c`) puts on the port of the DAC while the modem
transmits: one value per sample, `DAC_SAMPLEPERBIT` samples of a tone per bit,
each tone beginning at the phase where the one before ended. `modulate` is that
wave for a list of bits, a machine whose state is the tone and its phase. In
every order of main loop and interrupt the values of a run are the rest level,
the wave of the bits begun so far but for the samples of the last of them that
are still to come (`Emits`), and behind a whole transmission whatever follows
it (`port_line`).
-/
import TinyAprs.AfskLine

namespace TinyAprs

open Mealy BitStuff Afsk

/-! ### The wave -/

/-- `n` samples of a tone, from a phase. -/
def toneSamples (inc : UInt16) : UInt16 → ℕ → List UInt8
  | _, 0 => []
  | acc, n + 1 => (sinSample ((acc + inc) % 512) &&& 0xF0) :: toneSamples inc ((acc + inc) % 512) n

/-- The phase after `n` samples of a tone. -/
def toneAcc (inc : UInt16) : UInt16 → ℕ → UInt16
  | acc, 0 => acc
  | acc, n + 1 => toneAcc inc ((acc + inc) % 512) n

/-- The tone of a bit, behind another tone and where its phase ended: a zero
switches. -/
def tone (s : UInt16 × UInt16) (bit : Bool) : (UInt16 × UInt16) × List UInt8 :=
  let inc := if bit then s.1 else switchTone s.1
  ((inc, toneAcc inc s.2 8), toneSamples inc s.2 8)

/-- The values on the port for some bits, behind a tone. -/
def modulate (s : UInt16 × UInt16) (bits : List Bool) : List UInt8 := outs tone s bits

/-! ### What the interrupt puts on the port -/

/-- `ADC_vect`, the half that transmits. -/
def portD (af : Afsk) : UInt8 := if af.dacIsr then (afskDacIsr af).2 &&& 0xF0 else 128

/-- One event, and the value it puts on the port. -/
def Transmitter.portStep (s : Transmitter) (e : TxEvent) : Transmitter × List UInt8 :=
  ((s.step e).1, match e with
    | .write => []
    | .isr => [portD s.af])

/-- `out` is the wave of the bits `sent`, but for what is left of the last
tone. -/
structure Emits (af : Afsk) (sent : List Bool) (out : List UInt8) : Prop where
  wave : out ++ toneSamples af.phaseInc af.phaseAcc af.sampleCount.toNat = modulate (markInc, 0) sent
  next : (af.phaseInc, toneAcc af.phaseInc af.phaseAcc af.sampleCount.toNat) = final tone (markInc, 0) sent

theorem Emits.congr {af af' : Afsk} {sent : List Bool} {out : List UInt8} (h : Emits af sent out)
    (hinc : af'.phaseInc = af.phaseInc) (hacc : af'.phaseAcc = af.phaseAcc)
    (hcnt : af'.sampleCount = af.sampleCount) : Emits af' sent out := by
  refine ⟨?_, ?_⟩
  · rw [hinc, hacc, hcnt]
    exact h.wave
  · rw [hinc, hacc, hcnt]
    exact h.next

theorem emits_start {af : Afsk} (hinc : af.phaseInc = markInc) (hacc : af.phaseAcc = 0) (hcnt : af.sampleCount = 0) :
    Emits af [] [] := by
  refine ⟨?_, ?_⟩
  · rw [hcnt]
    rfl
  · rw [hinc, hacc, hcnt]
    rfl

theorem Emits.sample {af : Afsk} {sent : List Bool} {out : List UInt8} (h : Emits af sent out)
    (hmid : af.sampleCount ≠ 0) : Emits af.nextSample.1 sent (out ++ [af.nextSample.2 &&& 0xF0]) := by
  have hpos : af.sampleCount.toNat ≠ 0 := fun h' => hmid (UInt8.toNat_inj.mp h')
  have hcnt : af.sampleCount.toNat = af.nextSample.1.sampleCount.toNat + 1 := by
    show _ = (af.sampleCount - 1).toNat + 1
    rw [UInt8.toNat_sub_of_le _ _ (UInt8.le_iff_toNat_le.mpr (by show 1 ≤ _; omega))]
    show _ = _ - 1 + 1
    omega
  obtain ⟨hwave, hnext⟩ := h
  rw [hcnt] at hwave hnext
  refine ⟨?_, hnext⟩
  rw [List.append_assoc]
  exact hwave

theorem Emits.bit {af af₁ : Afsk} {sent : List Bool} {out : List UInt8} (h : Emits af sent out)
    (hstart : af.sampleCount = 0) (hinc : af₁.phaseInc = af.phaseInc) (hacc : af₁.phaseAcc = af.phaseAcc) :
    Emits af₁.nextTone.nextSample.1 (sent ++ [af₁.nextTone.phaseInc == af₁.phaseInc])
      (out ++ [af₁.nextTone.nextSample.2 &&& 0xF0]) := by
  obtain ⟨hwave, hnext⟩ := h
  rw [hstart] at hwave hnext
  have htone : af₁.nextTone.phaseAcc = af₁.phaseAcc ∧
      af₁.nextTone.phaseInc = if af₁.nextTone.phaseInc == af₁.phaseInc then af₁.phaseInc else switchTone af₁.phaseInc := by
    unfold nextTone
    dsimp only
    split_ifs <;> simp_all [switchTone_ne]
  have hcount : af₁.nextTone.sampleCount.toNat = 8 := by
    rw [(nextTone_frame af₁).2.2]
    rfl
  have hstate : final tone (markInc, 0) sent = (af₁.phaseInc, af₁.phaseAcc) := by
    rw [hinc, hacc]
    exact hnext.symm
  have hbegun : Emits af₁.nextTone (sent ++ [af₁.nextTone.phaseInc == af₁.phaseInc]) out := by
    refine ⟨?_, ?_⟩
    · change out ++ [] = _ at hwave
      rw [modulate, outs_append, hstate, outs_cons, outs_nil, List.append_nil, hcount, htone.1, tone, ← htone.2, ← modulate,
        ← hwave, List.append_nil]
    · rw [final_append, hstate, final_cons, final_nil, tone, ← htone.2, hcount, htone.1]
  exact hbegun.sample (by rw [(nextTone_frame af₁).2.2]; decide)

theorem nextChar_acc (af : Afsk) : af.nextChar.1.phaseAcc = af.phaseAcc := by
  have hfetch : af.ready.fetch.phaseAcc = af.phaseAcc := by
    unfold fetch
    split_ifs <;> rfl
  rw [nextChar_eq]
  split_ifs
  · rfl
  all_goals exact hfetch

theorem nextTone_sending (af : Afsk) : af.nextTone.nextSample.1.sending = af.sending := by
  show af.nextTone.sending = af.sending
  unfold nextTone
  dsimp only
  split_ifs <;> rfl

/-- A call of the interrupt: the wave goes on, or there is no character
left. -/
theorem Emits.isr {af : Afsk} {sent : List Bool} {out : List UInt8} (h : Emits af sent out) (hok : af.Ok)
    (hon : af.sending = true) :
    ((afskDacIsr af).1.sending = true ∧
      Emits (afskDacIsr af).1 (sent ++ toneBit af) (out ++ [(afskDacIsr af).2 &&& 0xF0])) ∨
    (af.sampleCount = 0 ∧ af.txBit = 0 ∧ af.nextChar.2 = false) := by
  by_cases hmid : af.sampleCount ≠ 0
  · have hisr : afskDacIsr af = af.nextSample := if_neg hmid
    have hbit : toneBit af = [] := if_neg fun h' => hmid h'.1
    rw [hisr, hbit, List.append_nil]
    exact Or.inl ⟨hon, h.sample hmid⟩
  have hstart : af.sampleCount = 0 := not_not.mp hmid
  by_cases hdone : af.txBit = 0
  · obtain ⟨hinc, -, -, hbegun, -⟩ := nextChar_frame hok hon hdone hstart
    by_cases hgo : af.nextChar.2 = true
    · have hisr : afskDacIsr af = af.nextChar.1.nextTone.nextSample := by
        rw [afskDacIsr, if_pos hstart, if_pos hdone]
        exact if_pos hgo
      rw [toneBit_eq hstart hinc (by rw [hisr]), hisr]
      exact Or.inl ⟨(nextTone_sending _).trans (hbegun hgo).2, h.bit hstart hinc (nextChar_acc af)⟩
    · exact Or.inr ⟨hstart, hdone, by simpa using hgo⟩
  · have hisr : afskDacIsr af = af.nextTone.nextSample := by
      rw [afskDacIsr, if_pos hstart, if_neg hdone]
    rw [toneBit_eq hstart rfl (by rw [hisr]), hisr]
    exact Or.inl ⟨(nextTone_sending af).trans hon, h.bit hstart rfl rfl⟩

/-! ### A run -/

namespace Transmitter
variable {data : List UInt8} {sent : List Bool} {out : List UInt8} {s : Transmitter}

/-- The bits of a transmission with `c` flags behind the frame. -/
def lineBits (data : List UInt8) (c : ℕ) : List Bool := flags 5 53 ++ (frameBits data ++ flags 5 c)

/-- What is on the port so far: the rest level; and the wave of the bits sent;
and behind a transmission that has ended anything. -/
inductive Port (data : List UInt8) (sent : List Bool) (out : List UInt8) (s : Transmitter) : Prop where
  | waiting (hoff : s.af.sending = false) (i : ℕ) (hout : out = List.replicate i 128) (hsent : sent = [])
  | on (hon : s.af.sending = true) (i : ℕ) (wave : List UInt8) (hout : out = List.replicate i 128 ++ wave)
      (hwave : Emits s.af sent wave)
  | ended (i c : ℕ) (rest : List UInt8)
      (hout : out = List.replicate i 128 ++ (modulate (markInc, 0) (lineBits data c) ++ rest))

theorem Progress.stops (h : Progress data sent s) (hf : Fetching s) (hstop : s.af.nextChar.2 = false) :
    ∃ c, sent = lineBits data c := by
  have hrest := restBits_done hf.done
  have hgo : ¬ (s.af.nextChar.2 = true) := by simp [hstop]
  cases h with
  | waiting hoff => simp [hf.on] at hoff
  | opening _ hq _ =>
    obtain ⟨r, hc, -⟩ := hf.contents_flag hq
    by_cases hpre : s.af.preambleLen = 0
    · exact absurd (nextChar_flag hpre hc).1 hgo
    · refine absurd (nextChar_preamble hpre fun h' => ?_).1 hgo
      have := (FIFOBuffer.isempty_iff _).mp h'.1
      simp [hc] at this
  | inside ds _ hpre hq _ =>
    cases ds with
    | nil =>
      obtain ⟨r, hc, -⟩ := hf.contents_flag (show s.queue = hdlcFlag :: [] by simpa using hq)
      exact absurd (nextChar_flag hpre hc).1 hgo
    | cons d ds =>
      obtain ⟨r, hc, -⟩ := hf.contents_word hpre (by rw [hq, Stuffing.encode_cons, List.append_assoc])
      exact absurd (nextChar_word hf.done hpre hc).1 hgo
  | closed c _ hsent =>
    rw [hrest, List.append_nil] at hsent
    exact ⟨c, hsent⟩

/-- Nothing of the tone changes while `afsk_write` works. -/
theorem Port.write (h : Port data sent out s) (hok : s.af.Ok) : Port data sent out s.writeStep := by
  have hpush : ∀ c cs, Port data sent out ⟨{ s.af with txFifo := s.af.txFifo.push c }, cs, true⟩ := by
    intro c cs
    cases h with
    | waiting hoff i hout hsent => exact .waiting hoff i hout hsent
    | on hon i wave hout hwave => exact .on hon i wave hout (hwave.congr rfl rfl rfl)
    | ended i c rest hout => exact .ended i c rest hout
  have hstart : Port data sent out ⟨s.af.txStart, s.todo, false⟩ := by
    cases h with
    | waiting hoff i hout hsent =>
      subst hsent
      have hon := txStart_off hoff
      refine .on (by rw [hon]) i [] (by rw [hout, List.append_nil]) (emits_start (by rw [hon]) (by rw [hon]) ?_)
      rw [hon]
      exact (hok.silent hoff).2
    | on hon i wave hout hwave =>
      refine .on ?_ i wave hout (hwave.congr ?_ ?_ ?_)
      all_goals rw [txStart_on hon]
      exact hon
    | ended i c rest hout => exact .ended i c rest hout
  unfold Transmitter.writeStep
  by_cases hst : s.starting = true
  · rw [if_pos hst]
    exact hstart
  · rw [if_neg hst]
    cases htodo : s.todo with
    | nil => exact h
    | cons c cs =>
      by_cases hfull : s.af.txFifo.isfull = true
      · simpa [hfull] using h
      · simpa [hfull] using hpush c cs

theorem Port.isr (h : Port data sent out s) (hprog : Progress data sent s) (hok : s.af.Ok)
    (hfed : s.starves .isr = false) :
    Port data (sent ++ (s.step .isr).2) (out ++ [portD s.af]) (s.step .isr).1 := by
  cases h with
  | waiting hoff i hout hsent =>
    have hgate : ¬ (s.af.dacIsr = true) := by simp [hok.gate, hoff]
    rw [Transmitter.step, if_neg hgate, portD, if_neg hgate, List.append_nil]
    exact .waiting hoff (i + 1) (by rw [hout, List.replicate_succ']) hsent
  | on hon i wave hout hwave =>
    have hgate : s.af.dacIsr = true := hok.gate.trans hon
    rw [Transmitter.step, if_pos hgate, portD, if_pos hgate, hout, List.append_assoc]
    rcases hwave.isr hok hon with ⟨hon', hwave'⟩ | ⟨hstart, hdone, hstop⟩
    · exact .on hon' i _ rfl hwave'
    · obtain ⟨c, hc⟩ := hprog.stops ⟨hok, hon, hdone, hstart, hfed⟩ hstop
      refine .ended i c [(afskDacIsr s.af).2 &&& 0xF0] ?_
      have hall := hwave.wave
      rw [hstart] at hall
      change wave ++ [] = _ at hall
      rw [← hc, ← hall, List.append_nil]
  | ended i c rest hout =>
    refine .ended i c (rest ++ [portD s.af]) ?_
    rw [hout, List.append_assoc, List.append_assoc]

/-- **The port over a run**, as long as the interrupt is fed. -/
theorem Port.run : ∀ (es : List TxEvent) {sent : List Bool} {out : List UInt8} {s : Transmitter},
    Port data sent out s → Progress data sent s → s.af.Ok → s.fed es = true →
    Port data (sent ++ outs Transmitter.step s es) (out ++ outs portStep s es) (final Transmitter.step s es)
  | [], sent, out, s, h, _, _, _ => by simpa using h
  | e :: es, sent, out, s, h, hprog, hok, hfed => by
    rw [fed, Bool.and_eq_true, Bool.not_eq_true'] at hfed
    obtain ⟨hprog', hok'⟩ := hprog.step hok hfed.1
    have hstep : Port data (sent ++ (s.step e).2) (out ++ (s.portStep e).2) (s.step e).1 := by
      cases e with
      | write => simpa [Transmitter.step, portStep] using h.write hok
      | isr => exact h.isr hprog hok hfed.1
    rw [outs_cons, outs_cons, final_cons, ← List.append_assoc, ← List.append_assoc]
    exact run es hstep hprog' hok' hfed.2

/-- **What a whole transmission puts on the port**: the rest level, the wave of
its bits, and what comes behind. -/
theorem port_line (data : List UInt8) {af : Afsk} (hidle : Idle af) (es : List TxEvent)
    (hfed : fed ⟨af, tokens data, false⟩ es = true)
    (hwritten : (final Transmitter.step ⟨af, tokens data, false⟩ es).Written)
    (hoff : (final Transmitter.step ⟨af, tokens data, false⟩ es).af.sending = false) :
    ∃ i c rest, outs portStep ⟨af, tokens data, false⟩ es =
      List.replicate i 128 ++ (modulate (markInc, 0) (lineBits data c) ++ rest) := by
  have hok : af.Ok := ⟨Or.inl hidle.done, fun h => by simp [hidle.off] at h, hidle.gate.trans hidle.off.symm,
    fun _ => ⟨hidle.done, hidle.start⟩⟩
  have hprog : Progress data [] ⟨af, tokens data, false⟩ :=
    .waiting hidle.off (by rw [queue, hidle.empty]; rfl) (Or.inr rfl) rfl
  have hport : Port data [] [] ⟨af, tokens data, false⟩ := .waiting hidle.off 0 rfl rfl
  obtain ⟨hprog', hok'⟩ := hprog.run es hok hfed
  have hend := hport.run es hprog hok hfed
  rw [List.nil_append, List.nil_append] at hend
  rw [List.nil_append] at hprog'
  cases hend with
  | waiting _ i _ hsent =>
    obtain ⟨c, hline⟩ := hprog'.line hok' hwritten hoff
    rw [hsent, show flags 5 54 = flagBits 5 ++ flags 5 53 from flags_succ 5 53] at hline
    exact absurd hline.symm (List.cons_ne_nil _ _)
  | on hon => simp [hoff] at hon
  | ended i c rest hout => exact ⟨i, c, rest, hout⟩

end Transmitter

end TinyAprs
