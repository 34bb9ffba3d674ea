/-
# The demodulator

The model of `afsk_adc_isr` (`net/afsk.c`) in front of `hdlc_parse`, with the
filter that is configured (`AFSK_CHEBYSHEV`, `CUTOFF_800`): each sample is
multiplied with the one four samples before, the product goes through a
recursive filter, its sign is the sampled bit, and a phase that edges pull
forth and back says when a bit of the line is complete. The integers have the
widths of the source, `int` has 16 bits, and all operations wrap.

They never do (`Exact`). The delay FIFO keeps its four samples, the filter's
values stay in an interval that it maps into itself (`Kept.filter`), and the
phase stays below `PHASE_MAX`. How far the phase can be `k` samples after a
bit is `phaseLow k` to `phaseHigh k`, whatever the edges are (`pull_bounds`),
and so two bits are 7, 8 or 9 samples apart (`demodulator_sound`). What is
behind the bits, the parser and the rx FIFO, takes the steps of `rxStep`
(`demodulator_feeds_rx`).
-/
import Mathlib.Tactic.Linarith
import TinyAprs.AfskOverrun
import TinyAprs.Lib.Mealy

namespace TinyAprs

open Mealy

/-! ### A sample -/

/-- `SAMPLEPERBIT / 2` -/
abbrev delaySamples : ℕ := 4
/-- `PHASE_BIT` -/
def phaseBit : Int8 := 8
/-- `PHASE_INC` -/
def phaseInc : Int8 := 1
/-- `PHASE_MAX`: `SAMPLEPERBIT * PHASE_BIT` -/
def phaseMax : Int8 := 64
/-- `PHASE_THRES` -/
def phaseThres : Int8 := 32
/-- `AFSK_RXFIFO_OVERRUN` -/
def afskRxfifoOverrun : UInt16 := 1

/-- The part of `Afsk` that receiving uses; `iirX` and `iirY` are the arrays
`iir_x` and `iir_y`. -/
structure Demod where
  delayFifo : FIFOBuffer
  iirX : Int16 × Int16
  iirY : Int16 × Int16
  sampledBits : UInt8
  currPhase : Int8
  foundBits : UInt8
  hdlc : Hdlc
  rxFifo : FIFOBuffer
  status : UInt16

/-- `afsk_init`: the delay FIFO has `SAMPLEPERBIT / 2 + 1` bytes, and is filled
with zeros. -/
def demodInit : Demod where
  delayFifo := (List.replicate delaySamples 0).foldl FIFOBuffer.push (.init delaySamples)
  iirX := (0, 0)
  iirY := (0, 0)
  sampledBits := 0
  currPhase := 0
  foundBits := 0
  hdlc := ⟨0, 0, 0, false⟩
  rxFifo := .init 63
  status := 0

/-- `EDGE_FOUND`: the last two bits differ. -/
def edgeFound (bits : UInt8) : Bool := (bits ^^^ (bits >>> 1)) &&& 0x01 != 0

namespace Demod

/-- The sample that comes out of the delay line. -/
def delayed (d : Demod) : Int8 := d.delayFifo.pop.1.toInt8

/-- The product, in an `int`. -/
def product (d : Demod) (sample : Int8) : Int16 := d.delayed.toInt16 * sample.toInt16

/-- The new `iir_x[1]`. -/
def nextX (d : Demod) (sample : Int8) : Int16 := d.product sample >>> 2

/-- The new `iir_y[1]`. -/
def nextY (d : Demod) (sample : Int8) : Int16 := d.iirX.2 + d.nextX sample + (d.iirY.2 >>> 2)

/-- The discriminator and the filter. -/
def filter (d : Demod) (sample : Int8) : Demod := { d with
  iirX := (d.iirX.2, d.nextX sample)
  iirY := (d.iirY.2, d.nextY sample)
  sampledBits := (d.sampledBits <<< 1) ||| if d.nextY sample > 0 then 0 else 1
  delayFifo := d.delayFifo.pop.2.push sample.toUInt8 }

/-- The phase, pulled by an edge. -/
def pulled (d : Demod) : Int8 :=
  if edgeFound d.sampledBits then
    if d.currPhase < phaseThres then d.currPhase + phaseInc else d.currPhase - phaseInc
  else d.currPhase

/-- Two of the last three sampled bits are ones. -/
def majority (bits : UInt8) : Bool :=
  let bits := bits &&& 0x07
  bits == 0x07 || bits == 0x06 || bits == 0x05 || bits == 0x03

/-- A bit of the line is complete: it goes to `hdlc_parse`. -/
def parseBit (d : Demod) : Demod × Bool :=
  let found := (d.foundBits <<< 1) ||| if majority d.sampledBits then 1 else 0
  let bit := !edgeFound found
  let r := hdlcParse d.hdlc bit d.rxFifo
  ({ d with
      foundBits := found
      hdlc := r.1
      rxFifo := r.2.1
      status := if r.2.2 then d.status else d.status ||| afskRxfifoOverrun }, bit)

end Demod

/-- `afsk_adc_isr`: the state after it, and the bit it passes to `hdlc_parse`,
if it does. -/
def afskAdcIsr (d : Demod) (sample : Int8) : Demod × Option Bool :=
  let d := d.filter sample
  let phase := d.pulled + phaseBit
  if phase ≥ phaseMax then
    let r := { d with currPhase := phase % phaseMax }.parseBit
    (r.1, some r.2)
  else ({ d with currPhase := phase }, none)

/-- A sample in the interrupt; and what the main loop does meanwhile: a
character is read from the rx FIFO, or the status is cleared. -/
inductive AdcEvent
  | sample (s : Int8)
  | pop
  | clearerr

/-- For each sample, the bit that is passed to `hdlc_parse`, if one is. -/
def adcStep (d : Demod) : AdcEvent → Demod × List (Option Bool)
  | .sample s => ((afskAdcIsr d s).1, [(afskAdcIsr d s).2])
  | .pop => (if d.rxFifo.isempty then d else { d with rxFifo := d.rxFifo.pop.2 }, [])
  | .clearerr => ({ d with status := 0 }, [])

/-! ### The integers -/

theorem toInt_shiftRight_two (a : Int16) : (a >>> 2).toInt = a.toInt / 4 := by
  have h : (a >>> 2).toBitVec = a.toBitVec.sshiftRight 2 := rfl
  rw [← Int16.toInt_toBitVec, h, BitVec.toInt_sshiftRight, Int.shiftRight_eq_div_pow, Int16.toInt_toBitVec]
  rfl

theorem toInt_add_of_fits {a b : Int16} (hlow : -32768 ≤ a.toInt + b.toInt) (hhigh : a.toInt + b.toInt ≤ 32767) :
    (a + b).toInt = a.toInt + b.toInt := by
  rw [Int16.toInt_add]
  exact Int.bmod_eq_of_le (by omega) (by omega)

theorem mul_bounds {a b : ℤ} (ha : -128 ≤ a ∧ a ≤ 127) (hb : -128 ≤ b ∧ b ≤ 127) :
    -16256 ≤ a * b ∧ a * b ≤ 16384 := by
  obtain ⟨ha1, ha2⟩ := ha
  obtain ⟨hb1, hb2⟩ := hb
  rcases le_total 0 a with h | h <;> rcases le_total 0 b with h' | h' <;> constructor <;> nlinarith

/-! ### What every sample keeps -/

/-- The range of `iir_x`. -/
def InX (x : Int16) : Prop := -4064 ≤ x.toInt ∧ x.toInt ≤ 4096

instance (x : Int16) : Decidable (InX x) := inferInstanceAs (Decidable (_ ∧ _))

/-- The range of `iir_y`: the filter maps it into itself. -/
def InY (y : Int16) : Prop := -10838 ≤ y.toInt ∧ y.toInt ≤ 10922

instance (y : Int16) : Decidable (InY y) := inferInstanceAs (Decidable (_ ∧ _))

/-- The phase after an edge, or without one. -/
def pull (edge : Bool) (p : ℤ) : ℤ := if edge then if p < 32 then p + 1 else p - 1 else p

theorem pull_range (edge : Bool) {p : ℤ} (h : 0 ≤ p ∧ p ≤ 63) : 0 ≤ pull edge p ∧ pull edge p ≤ 63 := by
  unfold pull
  split_ifs <;> omega

/-- The invariant of the demodulator. -/
structure Demod.Kept (d : Demod) : Prop where
  last : d.delayFifo.last = delaySamples
  delay : d.delayFifo.contents.length = delaySamples
  x : InX d.iirX.1 ∧ InX d.iirX.2
  y : InY d.iirY.1 ∧ InY d.iirY.2
  phase : 0 ≤ d.currPhase.toInt ∧ d.currPhase.toInt ≤ 63

/-- Every intermediate result of a sample is what it is without overflow. -/
structure Demod.Exact (d : Demod) (sample : Int8) : Prop where
  product : (d.product sample).toInt = d.delayed.toInt * sample.toInt
  nextX : (d.nextX sample).toInt = d.delayed.toInt * sample.toInt / 4
  sum : (d.iirX.2 + d.nextX sample).toInt = d.iirX.2.toInt + (d.nextX sample).toInt
  nextY : (d.nextY sample).toInt = d.iirX.2.toInt + (d.nextX sample).toInt + d.iirY.2.toInt / 4
  pulled : (d.filter sample).pulled.toInt = pull (edgeFound (d.filter sample).sampledBits) d.currPhase.toInt
  phase : ((d.filter sample).pulled + phaseBit).toInt = (d.filter sample).pulled.toInt + 8

namespace Demod
variable {d : Demod}

theorem product_eq (d : Demod) (sample : Int8) : (d.product sample).toInt = d.delayed.toInt * sample.toInt ∧
    -16256 ≤ d.delayed.toInt * sample.toInt ∧ d.delayed.toInt * sample.toInt ≤ 16384 := by
  have h1 := d.delayed.toInt_lt
  have h2 := d.delayed.le_toInt
  have h3 := sample.toInt_lt
  have h4 := sample.le_toInt
  have hmul := mul_bounds (a := d.delayed.toInt) (b := sample.toInt) ⟨by omega, by omega⟩ ⟨by omega, by omega⟩
  refine ⟨?_, hmul⟩
  rw [product, Int16.toInt_mul, Int8.toInt_toInt16, Int8.toInt_toInt16]
  exact Int.bmod_eq_of_le (by omega) (by omega)

theorem nextX_eq (d : Demod) (sample : Int8) :
    (d.nextX sample).toInt = d.delayed.toInt * sample.toInt / 4 ∧ InX (d.nextX sample) := by
  obtain ⟨hprod, hlow, hhigh⟩ := d.product_eq sample
  have hx : (d.nextX sample).toInt = d.delayed.toInt * sample.toInt / 4 := by
    rw [nextX, toInt_shiftRight_two, hprod]
  refine ⟨hx, ?_⟩
  rw [InX, hx]
  omega

theorem Kept.filter (h : d.Kept) (sample : Int8) :
    (d.iirX.2 + d.nextX sample).toInt = d.iirX.2.toInt + (d.nextX sample).toInt ∧
    (d.nextY sample).toInt = d.iirX.2.toInt + (d.nextX sample).toInt + d.iirY.2.toInt / 4 ∧
    InY (d.nextY sample) := by
  obtain ⟨hx1, hx2⟩ := h.x.2
  obtain ⟨hy1, hy2⟩ := h.y.2
  obtain ⟨-, hn1, hn2⟩ := d.nextX_eq sample
  have hsum := toInt_add_of_fits (a := d.iirX.2) (b := d.nextX sample) (by omega) (by omega)
  have hshift := toInt_shiftRight_two d.iirY.2
  have hy : (d.nextY sample).toInt = d.iirX.2.toInt + (d.nextX sample).toInt + d.iirY.2.toInt / 4 := by
    rw [nextY, toInt_add_of_fits (by omega) (by omega), hsum, hshift]
  refine ⟨hsum, hy, ?_⟩
  rw [InY, hy]
  omega

/-- The delay line has a sample to give, and room for one. -/
theorem Kept.delayLine (h : d.Kept) (c : UInt8) : d.delayFifo.isempty = false ∧ d.delayFifo.pop.2.isfull = false ∧
    (d.delayFifo.pop.2.push c).contents.length = delaySamples := by
  obtain ⟨c₀, cs, hcs⟩ := List.exists_cons_of_length_eq_add_one h.delay
  obtain ⟨hne, -, hpop⟩ := FIFOBuffer.pop_of_contents hcs
  have hlen : cs.length = 3 := by
    have := h.delay
    rw [hcs, List.length_cons] at this
    exact Nat.succ.inj this
  have hroom : d.delayFifo.pop.2.isfull = false := by
    rw [← Bool.not_eq_true, FIFOBuffer.isfull_iff, hpop, hlen]
    show ¬3 = d.delayFifo.last
    rw [h.last]
    decide
  refine ⟨hne, hroom, ?_⟩
  rw [FIFOBuffer.contents_push hroom, List.length_append, hpop, hlen]
  rfl

/-- The phase does not leave the range of an `int8_t`. -/
theorem Kept.pulled (h : d.Kept) :
    d.pulled.toInt = pull (edgeFound d.sampledBits) d.currPhase.toInt ∧
    (d.pulled + phaseBit).toInt = pull (edgeFound d.sampledBits) d.currPhase.toInt + 8 := by
  obtain ⟨h0, h63⟩ := h.phase
  have hlt : d.currPhase < phaseThres ↔ d.currPhase.toInt < 32 := Int8.lt_iff_toInt_lt
  have hpull : d.pulled.toInt = pull (edgeFound d.sampledBits) d.currPhase.toInt := by
    unfold Demod.pulled pull
    split_ifs with hedge h1 h2 h2
    · rw [Int8.toInt_add]
      exact Int.bmod_eq_of_le (by change _ ≤ _ + 1; omega) (by change _ + 1 < _; omega)
    · exact absurd (hlt.mp h1) h2
    · exact absurd (hlt.mpr h2) h1
    · rw [Int8.toInt_sub]
      exact Int.bmod_eq_of_le (by change _ ≤ _ - 1; omega) (by change _ - 1 < _; omega)
    · rfl
  have hrange := pull_range (edgeFound d.sampledBits) h.phase
  refine ⟨hpull, ?_⟩
  rw [Int8.toInt_add, hpull]
  exact Int.bmod_eq_of_le (by change _ ≤ _ + 8; omega) (by change _ + 8 < _; omega)

theorem Kept.filtered (h : d.Kept) (sample : Int8) : (d.filter sample).Kept where
  last := h.last
  delay := (h.delayLine sample.toUInt8).2.2
  x := ⟨h.x.2, (d.nextX_eq sample).2⟩
  y := ⟨h.y.2, (h.filter sample).2.2⟩
  phase := h.phase

theorem Kept.exact (h : d.Kept) (sample : Int8) : d.Exact sample where
  product := (d.product_eq sample).1
  nextX := (d.nextX_eq sample).1
  sum := (h.filter sample).1
  nextY := (h.filter sample).2.1
  pulled := (h.filtered sample).pulled.1
  phase := by
    obtain ⟨hpull, hphase⟩ := (h.filtered sample).pulled
    rw [hphase, hpull]

theorem Kept.withPhase (h : d.Kept) {d' : Demod} (hdelay : d'.delayFifo = d.delayFifo) (hx : d'.iirX = d.iirX)
    (hy : d'.iirY = d.iirY) (hphase : 0 ≤ d'.currPhase.toInt ∧ d'.currPhase.toInt ≤ 63) : d'.Kept :=
  ⟨by rw [hdelay, h.last], by rw [hdelay, h.delay], by rw [hx]; exact h.x, by rw [hy]; exact h.y, hphase⟩

end Demod

/-! ### The bit clock -/

/-- The least phase that can be reached `k` samples after a bit: each sample
adds 8, and from the threshold on an edge takes 1 away. -/
def phaseLow (k : ℕ) : ℤ := if k ≤ 4 then 8 * k else 32 + 7 * (k - 4)

/-- And the greatest: below the threshold an edge adds 1. -/
def phaseHigh (k : ℕ) : ℤ := if k ≤ 3 then 7 + 9 * k else 34 + 8 * (k - 3)

theorem pull_bounds (edge : Bool) {k : ℕ} {p : ℤ} (hlow : phaseLow k ≤ p) (hhigh : p ≤ phaseHigh k) :
    phaseLow (k + 1) ≤ pull edge p + 8 ∧ pull edge p + 8 ≤ phaseHigh (k + 1) := by
  unfold phaseLow phaseHigh pull at *
  constructor
  · split_ifs at * <;> omega
  · split_ifs at * <;> omega

/-- The phase passes `PHASE_MAX` in the seventh sample after a bit, or in one of
the two behind it. -/
theorem full_after {edge : Bool} {k : ℕ} {p : ℤ} (hlow : phaseLow k ≤ p) (hhigh : p ≤ phaseHigh k) (h63 : p ≤ 63)
    (hfull : 64 ≤ pull edge p + 8) : k + 1 = 7 ∨ k + 1 = 8 ∨ k + 1 = 9 := by
  have hbound := (pull_bounds edge hlow hhigh).2
  rw [phaseLow] at hlow
  rw [phaseHigh] at hbound
  split_ifs at hlow hbound <;> omega

theorem toInt_wrapped {p : Int8} (h : 64 ≤ p.toInt) : (p % phaseMax).toInt = p.toInt - 64 := by
  have hlt := p.toInt_lt
  rw [Int8.toInt_mod]
  change Int.tmod _ 64 = _
  rw [Int.tmod_eq_emod_of_nonneg (by omega)]
  omega

/-- The demodulator, `k` samples after a bit. -/
structure Demod.Since (k : ℕ) (d : Demod) : Prop where
  kept : d.Kept
  low : phaseLow k ≤ d.currPhase.toInt
  high : d.currPhase.toInt ≤ phaseHigh k

/-- A sample: no bit yet, or the next one after 7, 8 or 9 samples. -/
theorem Demod.Since.isr {k : ℕ} {d : Demod} (h : d.Since k) (sample : Int8) :
    ((afskAdcIsr d sample).2 = none ∧ (afskAdcIsr d sample).1.Since (k + 1)) ∨
    ((∃ b, (afskAdcIsr d sample).2 = some b) ∧ (afskAdcIsr d sample).1.Since 0 ∧
      (k + 1 = 7 ∨ k + 1 = 8 ∨ k + 1 = 9)) := by
  have hkept := h.kept.filtered sample
  have hphase := hkept.pulled.2
  have hbounds := pull_bounds (edgeFound (d.filter sample).sampledBits) h.low h.high
  have hrange := pull_range (edgeFound (d.filter sample).sampledBits) h.kept.phase
  change (_ : ℤ) = pull (edgeFound (d.filter sample).sampledBits) d.currPhase.toInt + 8 at hphase
  have hmax : (d.filter sample).pulled + phaseBit ≥ phaseMax ↔ 64 ≤ ((d.filter sample).pulled + phaseBit).toInt :=
    Int8.le_iff_toInt_le
  by_cases hfull : (d.filter sample).pulled + phaseBit ≥ phaseMax
  · right
    rw [afskAdcIsr, if_pos hfull]
    rw [hmax] at hfull
    have hmod := toInt_wrapped hfull
    rw [hphase] at hfull
    refine ⟨⟨_, rfl⟩, ⟨hkept.withPhase rfl rfl rfl ?_, ?_, ?_⟩, full_after h.low h.high h.kept.phase.2 hfull⟩
    · change 0 ≤ Int8.toInt (_ % _) ∧ Int8.toInt (_ % _) ≤ 63
      omega
    · change phaseLow 0 ≤ Int8.toInt (_ % _)
      rw [hmod, phaseLow, if_pos (by omega)]
      omega
    · change Int8.toInt (_ % _) ≤ phaseHigh 0
      rw [hmod, phaseHigh, if_pos (by omega)]
      omega
  · left
    rw [afskAdcIsr, if_neg hfull]
    rw [hmax, Int.not_le] at hfull
    refine ⟨rfl, hkept.withPhase rfl rfl rfl ?_, ?_, ?_⟩
    · change 0 ≤ Int8.toInt (_ + _) ∧ Int8.toInt (_ + _) ≤ 63
      omega
    · change _ ≤ Int8.toInt (_ + _)
      rw [hphase]
      exact hbounds.1
    · change Int8.toInt (_ + _) ≤ _
      rw [hphase]
      exact hbounds.2

/-! ### Any samples -/

/-- Bits are 7, 8 or 9 samples apart, where the first is counted from `k`
samples before. -/
def Spaced : ℕ → List (Option Bool) → Prop
  | _, [] => True
  | k, none :: os => Spaced (k + 1) os
  | k, some _ :: os => (k + 1 = 7 ∨ k + 1 = 8 ∨ k + 1 = 9) ∧ Spaced 0 os

theorem Demod.Since.run : ∀ {k : ℕ} {d : Demod} (es : List AdcEvent), d.Since k →
    (final adcStep d es).Kept ∧ Spaced k (outs adcStep d es)
  | _, _, [], h => ⟨h.kept, trivial⟩
  | k, d, .sample s :: es, h => by
    rw [final_cons, outs_cons]
    rcases h.isr s with ⟨hnone, hnext⟩ | ⟨⟨b, hsome⟩, hnext, hspace⟩
    · have ih := hnext.run es
      simp only [adcStep, hnone, List.singleton_append, Spaced]
      exact ih
    · have ih := hnext.run es
      simp only [adcStep, hsome, List.singleton_append, Spaced]
      exact ⟨ih.1, hspace, ih.2⟩
  | k, d, .pop :: es, h => by
    have hnext : (adcStep d .pop).1.Since k := by
      rw [adcStep]
      split_ifs with hempty
      · exact h
      · exact ⟨h.kept.withPhase rfl rfl rfl h.kept.phase, h.low, h.high⟩
    exact hnext.run es
  | k, d, .clearerr :: es, h => by
    have hnext : (adcStep d .clearerr).1.Since k :=
      ⟨h.kept.withPhase rfl rfl rfl h.kept.phase, h.low, h.high⟩
    exact hnext.run es

theorem Spaced.after_bit {b : Bool} {after : List (Option Bool)} : ∀ {k : ℕ} (before : List (Option Bool)),
    Spaced k (before ++ some b :: after) → Spaced 0 after
  | _, [], h => h.2
  | _, none :: before, h => after_bit before h
  | _, some _ :: before, h => after_bit before h.2

theorem Spaced.before_bit {b : Bool} {after : List (Option Bool)} : ∀ {k : ℕ} (gap : List (Option Bool)),
    Spaced k (gap ++ some b :: after) → (∀ o ∈ gap, o = none) →
    k + gap.length + 1 = 7 ∨ k + gap.length + 1 = 8 ∨ k + gap.length + 1 = 9
  | _, [], h, _ => h.1
  | k, none :: gap, h, hgap => by
    have ih := before_bit gap h fun o ho => hgap o (List.mem_cons_of_mem _ ho)
    rw [List.length_cons]
    omega
  | _, some c :: _, _, hgap => absurd (hgap (some c) List.mem_cons_self) (by simp)

theorem since_init : demodInit.Since 0 where
  kept := ⟨by decide, by decide, ⟨by decide, by decide⟩, ⟨by decide, by decide⟩, by decide⟩
  low := by decide
  high := by decide

/-- **The demodulator's arithmetic and its bit clock.** From `afsk_init`, for
any samples and whatever the main loop does between them: the delay line holds
four samples between two calls, so it has one to give and then room for one;
`iir_y` stays in its range; the phase stays below `PHASE_MAX`; whatever the
next sample is, no intermediate result overflows; and two bits that follow
each other are passed to `hdlc_parse` 7, 8 or 9 samples apart. -/
theorem demodulator_sound (es : List AdcEvent) :
    let d := final adcStep demodInit es
    (d.delayFifo.contents.length = delaySamples ∧ d.delayFifo.isempty = false ∧
      d.delayFifo.pop.2.isfull = false) ∧
    (InY d.iirY.1 ∧ InY d.iirY.2) ∧
    (0 ≤ d.currPhase.toInt ∧ d.currPhase.toInt ≤ phaseMax.toInt - 1) ∧
    (∀ sample, d.Exact sample) ∧
    ∀ before gap after b b', outs adcStep demodInit es = before ++ some b :: (gap ++ some b' :: after) →
      (∀ o ∈ gap, o = none) → gap.length + 1 = 7 ∨ gap.length + 1 = 8 ∨ gap.length + 1 = 9 := by
  intro d
  obtain ⟨hkept, hspaced⟩ := since_init.run es
  obtain ⟨hne, hroom, -⟩ := hkept.delayLine 0
  refine ⟨⟨hkept.delay, hne, hroom⟩, hkept.y, hkept.phase, hkept.exact, ?_⟩
  intro before gap after b b' houts hgap
  rw [houts] at hspaced
  have hbetween := (hspaced.after_bit before).before_bit gap hgap
  rwa [Nat.zero_add] at hbetween

/-- Sixteen samples of silence: two bits, eight samples apart. -/
theorem demodulator_sound_silence :
    outs adcStep demodInit (List.replicate 16 (.sample 0)) =
      List.replicate 7 none ++ some false :: (List.replicate 7 none ++ [some true]) ∧
    ((List.replicate 7 (none : Option Bool)).length + 1 = 7 ∨ (List.replicate 7 (none : Option Bool)).length + 1 = 8 ∨
      (List.replicate 7 (none : Option Bool)).length + 1 = 9) := by
  have houts : outs adcStep demodInit (List.replicate 16 (.sample 0)) =
      List.replicate 7 none ++ some false :: (List.replicate 7 none ++ [some true]) := by
    decide +kernel
  refine ⟨houts, (demodulator_sound (List.replicate 16 (.sample 0))).2.2.2.2 _ _ [] _ _ houts ?_⟩
  intro o ho
  exact (List.mem_replicate.mp ho).2

/-! ### The parser behind it -/

/-- The parser and the rx FIFO of the demodulator. -/
def Demod.rx (d : Demod) : RxLine := ⟨d.hdlc, d.rxFifo⟩

/-- What happens at the parser and at the rx FIFO. -/
def rxEvents : Demod → List AdcEvent → List RxEvent
  | _, [] => []
  | d, .sample s :: es => (afskAdcIsr d s).2.toList.map .bit ++ rxEvents (afskAdcIsr d s).1 es
  | d, .pop :: es => .pop :: rxEvents (adcStep d .pop).1 es
  | d, .clearerr :: es => rxEvents (adcStep d .clearerr).1 es

theorem isr_rx (d : Demod) (sample : Int8) :
    final rxStep d.rx ((afskAdcIsr d sample).2.toList.map .bit) = (afskAdcIsr d sample).1.rx := by
  unfold afskAdcIsr
  dsimp only
  split_ifs with hfull
  · rfl
  · rfl

/-- The parser and the rx FIFO are driven by the bits and the reads alone. -/
theorem demodulator_feeds_rx : ∀ (es : List AdcEvent) (d : Demod),
    (final adcStep d es).rx = final rxStep d.rx (rxEvents d es)
  | [], _ => rfl
  | .sample s :: es, d => by
    rw [final_cons, rxEvents, final_append, isr_rx]
    exact demodulator_feeds_rx es (afskAdcIsr d s).1
  | .pop :: es, d => by
    have hpop : (rxStep d.rx .pop).1 = (adcStep d .pop).1.rx := by
      rw [rxStep, adcStep, Demod.rx]
      dsimp only
      split_ifs <;> rfl
    rw [final_cons, rxEvents, final_cons, hpop]
    exact demodulator_feeds_rx es (adcStep d .pop).1
  | .clearerr :: es, d => demodulator_feeds_rx es (adcStep d .clearerr).1

end TinyAprs
