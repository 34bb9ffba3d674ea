/-
# The demodulator locks

Samples in, bits out, over the integers: `slice` is the discriminator, the
filter and its sign; `recover` is the bit clock, with the majority of the last
three sampled bits and the comparison with the bit before. The demodulator is
these two, one behind the other (`Sees.run`).

A tone of eight samples leaves the filter in a state that depends on nothing
before it but for a bounded rest (`ToneSettled`), and so little of that rest is left
in the next tone that it cannot change a sampled bit: what is sampled during a
tone is a function of the two tones and the phase (`sliced`), the old tone
first and the new one from the fourth sample on (`sliced_shape`). The clock
therefore samples the new tone in its second half and passes one bit a tone, if
its phase at the beginning of a tone is below `PHASE_THRES` (`recover_tone`);
this range is not left, and from any phase fourteen flags lead into it
(`preamble_locks`).
-/
import TinyAprs.AfskDemod
import TinyAprs.AfskTone

namespace TinyAprs

open Mealy BitStuff

/-! ### Over the integers -/

/-- The state of discriminator and filter: the last four samples, the oldest
first, and `iir_x[1]` and `iir_y[1]`. -/
structure Slicer where
  d₀ : ℤ
  d₁ : ℤ
  d₂ : ℤ
  d₃ : ℤ
  x : ℤ
  y : ℤ
  deriving DecidableEq

/-- The sampled bit of a sample. -/
def slice (l : Slicer) (s : ℤ) : Slicer × List Bool :=
  let x := l.d₀ * s / 4
  let y := l.x + x + l.y / 4
  (⟨l.d₁, l.d₂, l.d₃, s, x, y⟩, [decide (y ≤ 0)])

/-- The state of the bit clock: the last two sampled bits, the phase and the
last bit of the line. -/
structure BitClock where
  last : Bool
  before : Bool
  phase : ℤ
  found : Bool
  deriving DecidableEq

/-- The bit of the line that a sampled bit completes, if it does: is it the
one before? -/
def recover (c : BitClock) (b : Bool) : BitClock × List Bool :=
  let p := pull (b != c.last) c.phase + 8
  if 64 ≤ p then
    let found := b && c.last || b && c.before || c.last && c.before
    (⟨b, c.last, p - 64, found⟩, [found == c.found])
  else (⟨b, c.last, p, c.found⟩, [])

/-! ### The demodulator is one behind the other -/

/-- A sample, and the bit that goes to `hdlc_parse` if one does. -/
def bitStep (d : Demod) (sample : Int8) : Demod × List Bool :=
  ((afskAdcIsr d sample).1, (afskAdcIsr d sample).2.toList)

/-- The samples in the delay line. -/
def Demod.delayLine (d : Demod) : List ℤ := d.delayFifo.contents.map fun c => c.toInt8.toInt

/-- Discriminator, filter and clock of the demodulator. -/
structure Sees (d : Demod) (l : Slicer) (c : BitClock) : Prop where
  kept : d.Kept
  delay : d.delayLine = [l.d₀, l.d₁, l.d₂, l.d₃]
  x : d.iirX.2.toInt = l.x
  y : d.iirY.2.toInt = l.y
  last : d.sampledBits.toNat.testBit 0 = c.last
  before : d.sampledBits.toNat.testBit 1 = c.before
  phase : d.currPhase.toInt = c.phase
  found : d.foundBits.toNat.testBit 0 = c.found

theorem edgeFound_shiftIn : ∀ (bits : UInt8) (b : Bool), edgeFound (shiftIn bits b) = (b != bits.toNat.testBit 0) := by
  decide +kernel

theorem majority_shiftIn : ∀ (bits : UInt8) (b : Bool), Demod.majority (shiftIn bits b) =
    (b && bits.toNat.testBit 0 || b && bits.toNat.testBit 1 || bits.toNat.testBit 0 && bits.toNat.testBit 1) := by
  decide +kernel

theorem testBit_shiftIn : ∀ (bits : UInt8) (b : Bool),
    (shiftIn bits b).toNat.testBit 0 = b ∧ (shiftIn bits b).toNat.testBit 1 = bits.toNat.testBit 0 := by
  decide +kernel

theorem Demod.Kept.sees {d : Demod} (h : d.Kept) : ∃ l c, Sees d l c := by
  have hlen : d.delayLine.length = 4 := by rw [Demod.delayLine, List.length_map, h.delay]
  match hd : d.delayLine, hlen with
  | [a, b, c, e], _ => exact ⟨⟨a, b, c, e, _, _⟩, ⟨_, _, _, _⟩, h, hd, rfl, rfl, rfl, rfl, rfl, rfl⟩

theorem Sees.filter {d : Demod} {l : Slicer} {c : BitClock} (h : Sees d l c) (sample : Int8) :
    (d.filter sample).delayLine = [l.d₁, l.d₂, l.d₃, sample.toInt] ∧
    (d.nextX sample).toInt = l.d₀ * sample.toInt / 4 ∧
    (d.nextY sample).toInt = l.x + l.d₀ * sample.toInt / 4 + l.y / 4 ∧
    (d.filter sample).sampledBits = shiftIn d.sampledBits (decide (l.x + l.d₀ * sample.toInt / 4 + l.y / 4 ≤ 0)) := by
  obtain ⟨-, hroom, -⟩ := h.kept.delayLine sample.toUInt8
  obtain ⟨c₀, cs, hcs⟩ := List.exists_cons_of_length_eq_add_one h.kept.delay
  obtain ⟨-, hhead, htail⟩ := FIFOBuffer.pop_of_contents hcs
  have hline := h.delay
  rw [Demod.delayLine, hcs, List.map_cons] at hline
  obtain ⟨hd₀, hrest⟩ := List.cons.inj hline
  have hx : (d.nextX sample).toInt = l.d₀ * sample.toInt / 4 := by
    rw [(h.kept.exact sample).nextX, Demod.delayed, hhead, hd₀]
  have hy : (d.nextY sample).toInt = l.x + l.d₀ * sample.toInt / 4 + l.y / 4 := by
    rw [(h.kept.exact sample).nextY, hx, h.x, h.y]
  refine ⟨?_, hx, hy, ?_⟩
  · show ((d.delayFifo.pop.2.push sample.toUInt8).contents.map fun c => c.toInt8.toInt) = _
    rw [FIFOBuffer.contents_push hroom, htail, List.map_append, hrest]
    simp
  · have hpos : d.nextY sample > 0 ↔ ¬ (l.x + l.d₀ * sample.toInt / 4 + l.y / 4 ≤ 0) := by
      rw [← hy, Int.not_le]
      exact Int16.lt_iff_toInt_lt
    show (d.sampledBits <<< 1) ||| (if d.nextY sample > 0 then 0 else 1) = _
    rw [shiftIn]
    by_cases hle : l.x + l.d₀ * sample.toInt / 4 + l.y / 4 ≤ 0
    · rw [if_neg (by rw [hpos]; exact not_not.mpr hle), if_pos (decide_eq_true hle)]
    · rw [if_pos (hpos.mpr hle), if_neg (by simpa using hle)]

/-- **A sample.** -/
theorem Sees.step {d : Demod} {l : Slicer} {c : BitClock} (h : Sees d l c) (sample : Int8) :
    ∃ b, (slice l sample.toInt).2 = [b] ∧
      Sees (bitStep d sample).1 (slice l sample.toInt).1 (recover c b).1 ∧
      (bitStep d sample).2 = (recover c b).2 := by
  obtain ⟨hdelay, hx, hy, hbits⟩ := h.filter sample
  refine ⟨_, rfl, ?_⟩
  set b := decide (l.x + l.d₀ * sample.toInt / 4 + l.y / 4 ≤ 0) with hb
  have hkept := h.kept.filtered sample
  have hphase : ((d.filter sample).pulled + phaseBit).toInt = pull (b != c.last) c.phase + 8 := by
    rw [hkept.pulled.2, hbits, edgeFound_shiftIn, h.last]
    exact congrArg (pull _ · + 8) h.phase
  have hrange := pull_range (b != c.last) (h.phase ▸ h.kept.phase)
  have hmax : (d.filter sample).pulled + phaseBit ≥ phaseMax ↔ 64 ≤ pull (b != c.last) c.phase + 8 := by
    rw [← hphase]
    exact Int8.le_iff_toInt_le
  have hlast : (d.filter sample).sampledBits.toNat.testBit 0 = b := by rw [hbits, (testBit_shiftIn _ _).1]
  have hbefore : (d.filter sample).sampledBits.toNat.testBit 1 = c.last := by
    rw [hbits, (testBit_shiftIn _ _).2, h.last]
  by_cases hfull : 64 ≤ pull (b != c.last) c.phase + 8
  · have hwrap := toInt_wrapped (hphase ▸ hfull)
    rw [hphase] at hwrap
    have hfound : Demod.majority (d.filter sample).sampledBits = (b && c.last || b && c.before || c.last && c.before) := by
      rw [hbits, majority_shiftIn, h.last, h.before]
    set f := b && c.last || b && c.before || c.last && c.before with hf
    rw [bitStep, afskAdcIsr, if_pos (hmax.mpr hfull), recover, if_pos hfull]
    have hshift : d.foundBits <<< 1 ||| (if Demod.majority (d.filter sample).sampledBits then 1 else 0) =
        shiftIn d.foundBits f := by
      rw [hfound]
      rfl
    refine ⟨⟨hkept.withPhase rfl rfl rfl ?_, hdelay, hx, hy, hlast, hbefore, hwrap, ?_⟩, ?_⟩
    · show 0 ≤ (((d.filter sample).pulled + phaseBit) % phaseMax).toInt ∧
        (((d.filter sample).pulled + phaseBit) % phaseMax).toInt ≤ 63
      omega
    · show (d.foundBits <<< 1 ||| (if Demod.majority (d.filter sample).sampledBits then 1 else 0)).toNat.testBit 0 = f
      rw [hshift, (testBit_shiftIn _ _).1]
    · show [!edgeFound (d.foundBits <<< 1 ||| (if Demod.majority (d.filter sample).sampledBits then 1 else 0))] =
        [f == c.found]
      rw [hshift, edgeFound_shiftIn, h.found]
      cases f <;> cases c.found <;> rfl
  · rw [bitStep, afskAdcIsr, if_neg (fun h' => hfull (hmax.mp h')), recover, if_neg hfull]
    refine ⟨⟨hkept.withPhase rfl rfl rfl ?_, hdelay, hx, hy, hlast, hbefore, hphase, h.found⟩, rfl⟩
    show 0 ≤ ((d.filter sample).pulled + phaseBit).toInt ∧ ((d.filter sample).pulled + phaseBit).toInt ≤ 63
    omega

/-- **Samples.** -/
theorem Sees.run : ∀ (samples : List Int8) {d : Demod} {l : Slicer} {c : BitClock}, Sees d l c →
    Sees (final bitStep d samples) (final slice l (samples.map Int8.toInt))
      (final recover c (outs slice l (samples.map Int8.toInt))) ∧
    outs bitStep d samples = outs recover c (outs slice l (samples.map Int8.toInt))
  | [], _, _, _, h => ⟨h, rfl⟩
  | s :: samples, d, l, c, h => by
    obtain ⟨b, hb, hnext, hout⟩ := h.step s
    obtain ⟨ih1, ih2⟩ := run samples hnext
    rw [List.map_cons, outs_cons slice, hb, final_cons, final_cons, List.singleton_append, final_cons, outs_cons, outs_cons,
      hout, ih2]
    exact ⟨ih1, rfl⟩

/-! ### The filter during a tone -/

/-- The four high bits of `sin_table`, in steps of 16 over its first entry. -/
def height (q : ℕ) : ℕ :=
  if q < 43 then if q < 21 then if q < 11 then 0 else 1 else if q < 32 then 2 else 3
  else if q < 70 then if q < 56 then 4 else 5 else if q < 88 then 6 else 7

/-- The sample at a phase. -/
def waveLevel (p : ℕ) : ℤ :=
  let q := p % 256
  let h := height (if 128 ≤ q then 255 - q else q)
  if 256 ≤ p then -16 * (h + 1) else 16 * h

/-- The sample of a value on the port, `(ADC >> 2) - 128`. -/
def level (port : UInt8) : ℤ := port.toNat - 128

theorem level_sinSample : ∀ p : Fin 512, level (sinSample (UInt16.ofNat p.val) &&& 0xF0) = waveLevel p.val := by
  decide +kernel

def toneInc (mark : Bool) : ℕ := if mark then 64 else 117

/-- The samples of a tone that begins behind the phase `p`. -/
def toneLevels (mark : Bool) (p : ℕ) : List ℤ :=
  (List.range 8).map fun j => waveLevel ((p + (j + 1) * toneInc mark) % 512)

def toneEnd (mark : Bool) (p : ℕ) : ℕ := (p + 8 * toneInc mark) % 512

/-- The filter after five samples of a tone. -/
def midTone (mark : Bool) (p : ℕ) (y : ℤ) : Slicer :=
  let s := toneLevels mark p
  ⟨s.getD 1 0, s.getD 2 0, s.getD 3 0, s.getD 4 0, s.getD 0 0 * s.getD 4 0 / 4, y⟩

/-- The filter at the end of the tone. -/
def endTone (mark : Bool) (p : ℕ) (y : ℤ) : Slicer :=
  final slice (midTone mark p y) ((toneLevels mark p).drop 5)

/-- The filter after a tone: nothing is left from before it but the bounded
value in its middle. -/
def ToneSettled (mark : Bool) (p : ℕ) (l : Slicer) : Prop :=
  ∃ y, -10838 ≤ y ∧ y ≤ 10922 ∧ l = endTone mark p y

/-- The sampled bits of a tone behind another one, for a value in the middle of
that. -/
def slicedFrom (mark : Bool) (p : ℕ) (mark' : Bool) (y : ℤ) : List Bool :=
  outs slice (endTone mark p y) (toneLevels mark' (toneEnd mark p))

/-- The second and the third sampled bit of a tone. -/
def crossing (mark : Bool) (p : ℕ) (mark' : Bool) : Bool × Bool :=
  let bits := slicedFrom mark p mark' 0
  (bits.getD 1 false, bits.getD 2 false)

/-- The sampled bits of a tone: the old one first, the new one from the fourth
on. -/
def sliced (mark : Bool) (p : ℕ) (mark' : Bool) : List Bool :=
  mark :: (crossing mark p mark').1 :: (crossing mark p mark').2 :: List.replicate 5 mark'

/-- The two values in the middle that bound all others give the same bits. -/
theorem slicedFrom_bounds : ∀ (mark mark' : Bool) (k : Fin 64),
    slicedFrom mark (8 * k.val) mark' (-10838) = sliced mark (8 * k.val) mark' ∧
    slicedFrom mark (8 * k.val) mark' 10922 = sliced mark (8 * k.val) mark' := by
  decide +kernel

/-- Equal but for `iir_y`, which is not greater. -/
structure Slicer.Le (l l' : Slicer) : Prop where
  d₀ : l.d₀ = l'.d₀
  d₁ : l.d₁ = l'.d₁
  d₂ : l.d₂ = l'.d₂
  d₃ : l.d₃ = l'.d₃
  x : l.x = l'.x
  y : l.y ≤ l'.y

theorem Slicer.Le.step {l l' : Slicer} (h : l.Le l') (s : ℤ) : (slice l s).1.Le (slice l' s).1 where
  d₀ := h.d₁
  d₁ := h.d₂
  d₂ := h.d₃
  d₃ := rfl
  x := by
    show l.d₀ * s / 4 = l'.d₀ * s / 4
    rw [h.d₀]
  y := by
    show l.x + l.d₀ * s / 4 + l.y / 4 ≤ l'.x + l'.d₀ * s / 4 + l'.y / 4
    have hy := Int.ediv_le_ediv (c := 4) (by omega) h.y
    rw [h.d₀, h.x]
    omega

theorem Slicer.Le.run : ∀ (ss : List ℤ) {l l' : Slicer}, l.Le l' → (final slice l ss).Le (final slice l' ss)
  | [], _, _, h => h
  | s :: ss, _, _, h => run ss (h.step s)

/-- What is sampled between two filters that sample the same, is the same. -/
theorem Slicer.Le.outs_eq : ∀ (ss : List ℤ) {l₀ l l₁ : Slicer}, l₀.Le l → l.Le l₁ →
    outs slice l₀ ss = outs slice l₁ ss → outs slice l ss = outs slice l₀ ss
  | [], _, _, _, _, _, _ => rfl
  | s :: ss, l₀, l, l₁, h₀, h₁, heq => by
    have hy₀ := (h₀.step s).y
    have hy₁ := (h₁.step s).y
    rw [outs_cons, outs_cons] at heq
    obtain ⟨hbit, hrest⟩ := List.cons.inj heq
    rw [outs_cons, outs_cons, outs_eq ss (h₀.step s) (h₁.step s) hrest]
    change decide ((slice l₀ s).1.y ≤ 0) = decide ((slice l₁ s).1.y ≤ 0) at hbit
    show decide ((slice l s).1.y ≤ 0) :: _ = decide ((slice l₀ s).1.y ≤ 0) :: _
    have hiff : (slice l s).1.y ≤ 0 ↔ (slice l₀ s).1.y ≤ 0 := by
      have hb := decide_eq_decide.mp hbit
      constructor
      · intro h
        omega
      · intro h
        have := hb.mp h
        omega
    rw [decide_eq_decide.mpr hiff]

/-- **What is sampled during a tone** depends on it and on the tone before
alone. -/
theorem ToneSettled.outs_eq {mark : Bool} {p : ℕ} {l : Slicer} (h : ToneSettled mark p l) (hp : p < 512) (h8 : p % 8 = 0)
    (mark' : Bool) : outs slice l (toneLevels mark' (toneEnd mark p)) = sliced mark p mark' := by
  obtain ⟨y, hlow, hhigh, rfl⟩ := h
  obtain ⟨h₀, h₁⟩ := slicedFrom_bounds mark mark' ⟨p / 8, by omega⟩
  have hpk : 8 * (p / 8) = p := by omega
  simp only [hpk] at h₀ h₁
  have hle : ∀ {y₀ y₁ : ℤ}, y₀ ≤ y₁ → (endTone mark p y₀).Le (endTone mark p y₁) := fun hy =>
    Slicer.Le.run _ ⟨rfl, rfl, rfl, rfl, rfl, hy⟩
  rw [Slicer.Le.outs_eq _ (hle hlow) (hle hhigh) (h₀.trans h₁.symm)]
  exact h₀

/-! ### The clock during a tone -/

theorem recover_quiet {c : BitClock} {b : Bool} {q : ℤ} (hq : pull (b != c.last) c.phase + 8 = q) (h : q < 64) :
    recover c b = (⟨b, c.last, q, c.found⟩, []) := by
  subst hq
  rw [recover, if_neg (by omega)]

theorem recover_last (c : BitClock) (b : Bool) : (recover c b).1.last = b := by
  unfold recover
  dsimp only
  split_ifs <;> rfl

/-- The second half of a tone: one bit of the line, and it is the tone's. -/
theorem recover_rest : ∀ (k : Fin 32) (m u f : Bool),
    final recover ⟨m, u, 32 + k.val, f⟩ (List.replicate 4 m) = ⟨m, m, k.val, m⟩ ∧
    outs recover ⟨m, u, 32 + k.val, f⟩ (List.replicate 4 m) = [m == f] := by
  decide +kernel

/-- **A tone, in lock**: the clock passes one bit, whether the tone is the bit
of the line before, and stays in lock. -/
theorem recover_tone (m b₁ b₂ m' u f : Bool) {p : ℤ} (hp : 0 ≤ p ∧ p ≤ 31) :
    ∃ p', (0 ≤ p' ∧ p' ≤ 31) ∧
      final recover ⟨m, u, p, f⟩ (m :: b₁ :: b₂ :: List.replicate 5 m') = ⟨m', m', p', m'⟩ ∧
      outs recover ⟨m, u, p, f⟩ (m :: b₁ :: b₂ :: List.replicate 5 m') = [m' == f] := by
  obtain ⟨q₁, hq₁⟩ : ∃ q, pull (m != m) p + 8 = q := ⟨_, rfl⟩
  obtain ⟨q₂, hq₂⟩ : ∃ q, pull (b₁ != m) q₁ + 8 = q := ⟨_, rfl⟩
  obtain ⟨q₃, hq₃⟩ : ∃ q, pull (b₂ != b₁) q₂ + 8 = q := ⟨_, rfl⟩
  obtain ⟨q₄, hq₄⟩ : ∃ q, pull (m' != b₂) q₃ + 8 = q := ⟨_, rfl⟩
  have h₁ : 8 ≤ q₁ ∧ q₁ ≤ 39 := by
    rw [← hq₁, bne_self_eq_false, pull, if_neg (by simp)]
    omega
  have h₂ : 16 ≤ q₂ ∧ q₂ ≤ 47 := by
    rw [← hq₂, pull]
    split_ifs <;> omega
  have h₃ : 24 ≤ q₃ ∧ q₃ ≤ 55 := by
    rw [← hq₃, pull]
    split_ifs <;> omega
  have h₄ : 32 ≤ q₄ ∧ q₄ ≤ 63 := by
    rw [← hq₄, pull]
    split_ifs <;> omega
  obtain ⟨hfinal, houts⟩ := recover_rest ⟨(q₄ - 32).toNat, by omega⟩ m' b₂ f
  have hk : ((q₄ - 32).toNat : ℤ) = q₄ - 32 := by omega
  simp only [hk, add_sub_cancel] at hfinal houts
  refine ⟨q₄ - 32, by omega, ?_, ?_⟩
  · rw [List.replicate_succ, final_cons, recover_quiet hq₁ (by omega), final_cons, recover_quiet hq₂ (by omega), final_cons,
      recover_quiet hq₃ (by omega), final_cons, recover_quiet hq₄ (by omega)]
    exact hfinal
  · rw [List.replicate_succ, outs_cons, recover_quiet hq₁ (by omega), outs_cons, recover_quiet hq₂ (by omega), outs_cons,
      recover_quiet hq₃ (by omega), outs_cons, recover_quiet hq₄ (by omega)]
    exact houts

/-- The last sampled bit and the phase, in lock or not. -/
structure BitClock.At (last : Bool) (p : ℤ) (c : BitClock) : Prop where
  last : c.last = last
  phase : c.phase = p
  range : 0 ≤ p ∧ p ≤ 63

theorem BitClock.At.step {last : Bool} {p : ℤ} {c : BitClock} (h : c.At last p) (b : Bool) :
    (recover c b).1.At b ((pull (b != last) p + 8) % 64) := by
  obtain ⟨rfl, rfl, hrange⟩ := h
  have hr := pull_range (b != c.last) hrange
  unfold recover
  dsimp only
  split_ifs with hfull
  · refine ⟨rfl, ?_, by omega⟩
    show pull _ _ + 8 - 64 = _
    omega
  · refine ⟨rfl, ?_, by omega⟩
    show pull _ _ + 8 = _
    omega

theorem BitClock.At.same {m : Bool} {p : ℤ} {c : BitClock} (h : c.At m p) : (recover c m).1.At m ((p + 8) % 64) := by
  have hstep := h.step m
  rwa [bne_self_eq_false, pull, if_neg (by simp)] at hstep

/-- The phase after a tone, from its sampled bits. -/
def turn (p : ℤ) (bits : Bool × Bool × Bool × Bool) : ℤ :=
  let (m, b₁, b₂, m') := bits
  let q := (p + 8) % 64
  let q := (pull (b₁ != m) q + 8) % 64
  let q := (pull (b₂ != b₁) q + 8) % 64
  (pull (m' != b₂) q + 40) % 64

theorem recover_turn {m : Bool} {p : ℤ} {c : BitClock} (h : c.At m p) (b₁ b₂ m' : Bool) :
    (final recover c (m :: b₁ :: b₂ :: List.replicate 5 m')).At m' (turn p (m, b₁, b₂, m')) := by
  have hlast := ((((h.same.step b₁).step b₂).step m').same.same.same).same
  have hphase : (((((pull (m' != b₂) ((pull (b₂ != b₁) ((pull (b₁ != m) ((p + 8) % 64) + 8) % 64) + 8) % 64) + 8) % 64 +
      8) % 64 + 8) % 64 + 8) % 64 + 8) % 64 = turn p (m, b₁, b₂, m') := by
    unfold turn
    dsimp only
    omega
  rw [hphase] at hlast
  exact hlast

/-! ### Tones -/

/-- The tone that the last of some bits leaves, and the phase behind which it
began. -/
def lineEnd (m : Bool) (p : ℕ) : List Bool → Bool × ℕ
  | [] => (m, p)
  | b :: bs => lineEnd (m == b) (toneEnd m p) bs

/-- The samples of some bits, behind a tone. -/
def lineLevels (m : Bool) (p : ℕ) : List Bool → List ℤ
  | [] => []
  | b :: bs => toneLevels (m == b) (toneEnd m p) ++ lineLevels (m == b) (toneEnd m p) bs

/-- The sampled bits of some bits, behind a tone: of each tone its first three
and its last one. -/
def crossings (m : Bool) (p : ℕ) : List Bool → List (Bool × Bool × Bool × Bool)
  | [] => []
  | b :: bs =>
    (m, (crossing m p (m == b)).1, (crossing m p (m == b)).2, m == b) :: crossings (m == b) (toneEnd m p) bs

/-- All eight of them. -/
def sampledTone : Bool × Bool × Bool × Bool → List Bool
  | (m, b₁, b₂, m') => m :: b₁ :: b₂ :: List.replicate 5 m'

theorem lineLevels_append : ∀ (bs cs : List Bool) (m : Bool) (p : ℕ),
    lineLevels m p (bs ++ cs) = lineLevels m p bs ++ lineLevels (lineEnd m p bs).1 (lineEnd m p bs).2 cs
  | [], _, _, _ => rfl
  | b :: bs, cs, m, p => by
    rw [List.cons_append, lineLevels, lineLevels, lineEnd, lineLevels_append bs cs, List.append_assoc]

theorem toneEnd_grid {m : Bool} {p : ℕ} (h8 : p % 8 = 0) : toneEnd m p < 512 ∧ toneEnd m p % 8 = 0 := by
  unfold toneEnd
  omega

theorem lineEnd_grid : ∀ (bs : List Bool) {m : Bool} {p : ℕ}, p < 512 → p % 8 = 0 →
    (lineEnd m p bs).2 < 512 ∧ (lineEnd m p bs).2 % 8 = 0
  | [], _, _, hp, h8 => ⟨hp, h8⟩
  | _ :: bs, _, _, _, h8 => lineEnd_grid bs (toneEnd_grid h8).1 (toneEnd_grid h8).2

/-- **Fourteen flags, but for the first two tones, lock the clock**, whatever
its phase is. -/
theorem preamble_locks : ∀ k : Fin 64,
    let p := (crossings false 424 ((flags 5 14).drop 2)).foldl turn k.val
    0 ≤ p ∧ p ≤ 31 := by
  decide +kernel

theorem BitClock.At.line : ∀ (bs : List Bool) {m : Bool} {p : ℕ} {q : ℤ} {c : BitClock}, c.At m q →
    (final recover c ((crossings m p bs).flatMap sampledTone)).At (lineEnd m p bs).1 ((crossings m p bs).foldl turn q)
  | [], _, _, _, _, h => h
  | b :: bs, m, p, q, c, h => by
    rw [crossings, List.flatMap_cons, final_append, List.foldl_cons]
    exact line bs (recover_turn h _ _ _)

/-- A clock in lock, with the bit of the line known. -/
structure BitClock.Locked (m : Bool) (c : BitClock) : Prop where
  last : c.last = m
  found : c.found = m
  phase : 0 ≤ c.phase ∧ c.phase ≤ 31

theorem BitClock.At.lock {m : Bool} {q : ℤ} {c : BitClock} (h : c.At m q) (hq : 0 ≤ q ∧ q ≤ 31) (b₁ b₂ m' : Bool) :
    (final recover c (sampledTone (m, b₁, b₂, m'))).Locked m' ∧
    outs recover c (sampledTone (m, b₁, b₂, m')) = [m' == c.found] := by
  obtain ⟨rfl, rfl, -⟩ := h
  obtain ⟨p', hp', hfinal, houts⟩ := recover_tone c.last b₁ b₂ m' c.before c.found hq
  refine ⟨?_, houts⟩
  rw [show final recover c (sampledTone (c.last, b₁, b₂, m')) = ⟨m', m', p', m'⟩ from hfinal]
  exact ⟨rfl, rfl, hp'⟩

/-- **In lock, the bits come out as they are.** -/
theorem BitClock.Locked.line : ∀ (bs : List Bool) {m : Bool} {p : ℕ} {c : BitClock}, c.Locked m →
    (final recover c ((crossings m p bs).flatMap sampledTone)).Locked (lineEnd m p bs).1 ∧
    outs recover c ((crossings m p bs).flatMap sampledTone) = bs
  | [], _, _, _, h => ⟨h, rfl⟩
  | b :: bs, m, p, c, h => by
    have hat : c.At m c.phase := ⟨h.last, rfl, h.phase.1, by have := h.phase.2; omega⟩
    obtain ⟨hlock, hout⟩ := hat.lock h.phase (crossing m p (m == b)).1 (crossing m p (m == b)).2 (m == b)
    obtain ⟨ih1, ih2⟩ := line bs hlock (p := toneEnd m p)
    have hb : ((m == b) == m) = b := by cases m <;> cases b <;> rfl
    rw [crossings, List.flatMap_cons, final_append, outs_append, hout, h.found, hb, ih2]
    exact ⟨ih1, rfl⟩

/-! ### The demodulator during tones -/

/-- The demodulator after a tone. -/
def Tuned (m : Bool) (p : ℕ) (d : Demod) (c : BitClock) : Prop := ∃ l, Sees d l c ∧ ToneSettled m p l

theorem Sees.settles {d : Demod} {l : Slicer} {c : BitClock} (h : Sees d l c) {m : Bool} {p : ℕ} {samples : List Int8}
    (hs : samples.map Int8.toInt = toneLevels m p) : ToneSettled m p (final slice l (toneLevels m p)) := by
  have hmid : final slice l ((toneLevels m p).take 5) = midTone m p (final slice l ((toneLevels m p).take 5)).y := rfl
  obtain ⟨hrun, -⟩ := h.run (samples.take 5)
  rw [List.map_take, hs] at hrun
  have hy := hrun.kept.y.2
  rw [InY, hrun.y] at hy
  refine ⟨(final slice l ((toneLevels m p).take 5)).y, hy.1, hy.2, ?_⟩
  rw [endTone, ← hmid, ← final_append, List.take_append_drop]

theorem Tuned.tone {m : Bool} {p : ℕ} {d : Demod} {c : BitClock} (h : Tuned m p d c) (hp : p < 512) (h8 : p % 8 = 0)
    (m' : Bool) {samples : List Int8} (hs : samples.map Int8.toInt = toneLevels m' (toneEnd m p)) :
    Tuned m' (toneEnd m p) (final bitStep d samples) (final recover c (sliced m p m')) ∧
    outs bitStep d samples = outs recover c (sliced m p m') := by
  obtain ⟨l, hsees, hsettled⟩ := h
  obtain ⟨hrun, houts⟩ := hsees.run samples
  rw [hs, hsettled.outs_eq hp h8 m'] at hrun houts
  exact ⟨⟨_, hrun, hsees.settles hs⟩, houts⟩

/-- **Tones behind a tone.** -/
theorem Tuned.line : ∀ (bs : List Bool) {m : Bool} {p : ℕ} {d : Demod} {c : BitClock}, Tuned m p d c → p < 512 →
    p % 8 = 0 → ∀ {samples : List Int8}, samples.map Int8.toInt = lineLevels m p bs →
    Tuned (lineEnd m p bs).1 (lineEnd m p bs).2 (final bitStep d samples)
      (final recover c ((crossings m p bs).flatMap sampledTone)) ∧
    outs bitStep d samples = outs recover c ((crossings m p bs).flatMap sampledTone)
  | [], _, _, _, _, h, _, _, samples, hs => by
    rw [lineLevels, List.map_eq_nil_iff] at hs
    subst hs
    exact ⟨h, rfl⟩
  | b :: bs, m, p, d, c, h, hp, h8, samples, hs => by
    rw [lineLevels, List.map_eq_append_iff] at hs
    obtain ⟨s₁, s₂, rfl, hs₁, hs₂⟩ := hs
    obtain ⟨htone, hout⟩ := h.tone hp h8 (m == b) hs₁
    obtain ⟨ih1, ih2⟩ := line bs htone (toneEnd_grid h8).1 (toneEnd_grid h8).2 hs₂
    rw [crossings, List.flatMap_cons, final_append, outs_append, final_append, outs_append, hout, ih2]
    exact ⟨ih1, rfl⟩

/-! ### A whole line -/

theorem Sees.at {d : Demod} {l : Slicer} {c : BitClock} (h : Sees d l c) : c.At c.last c.phase :=
  ⟨rfl, rfl, h.phase ▸ h.kept.phase⟩

/-- Two tones of space, behind a mark that ended at phase 0: the first one
settles the filter, the second one leaves its own sampled bit. -/
theorem Demod.Kept.tunes {d : Demod} (h : d.Kept) {s₁ s₂ : List Int8} (hs₁ : s₁.map Int8.toInt = toneLevels false 0)
    (hs₂ : s₂.map Int8.toInt = toneLevels false 424) :
    ∃ c q, Tuned false 424 (final bitStep d (s₁ ++ s₂)) c ∧ c.At false q := by
  obtain ⟨l, c, hsees⟩ := h.sees
  have hrun := (hsees.run s₁).1
  rw [hs₁] at hrun
  have htuned : Tuned false 0 (final bitStep d s₁) _ := ⟨_, hrun, hsees.settles hs₁⟩
  have htone := (htuned.tone (by omega) (by omega) false hs₂).1
  obtain ⟨l₂, hsees₂, -⟩ := id htone
  have hat := hsees₂.at
  rw [show (final recover _ (sliced false 0 false)).last = false from recover_last _ false] at hat
  rw [final_append]
  exact ⟨_, _, htone, hat⟩

/-- In lock, all bits but the first are passed as they are. -/
theorem Tuned.reads {m : Bool} {p : ℕ} {d : Demod} {c : BitClock} {q : ℤ} (h : Tuned m p d c) (hp : p < 512)
    (h8 : p % 8 = 0) (hat : c.At m q) (hq : 0 ≤ q ∧ q ≤ 31) (b : Bool) (bs : List Bool) {samples : List Int8}
    (hs : samples.map Int8.toInt = lineLevels m p (b :: bs)) : ∃ b', outs bitStep d samples = b' :: bs := by
  obtain ⟨hlock, hout⟩ := hat.lock hq (crossing m p (m == b)).1 (crossing m p (m == b)).2 (m == b)
  obtain ⟨-, hbits⟩ := hlock.line bs (p := toneEnd m p)
  rw [(h.line (b :: bs) hp h8 hs).2, crossings, List.flatMap_cons, outs_append, hout, hbits]
  exact ⟨_, rfl⟩

/-- **Fifteen flags, and the demodulator passes every bit.** Whatever it has
heard before, of a line that begins with fifteen flags it passes the bits
behind them as they are. -/
theorem Demod.Kept.line {d : Demod} (h : d.Kept) (bs : List Bool) {samples : List Int8}
    (hs : samples.map Int8.toInt = lineLevels true 0 (flags 5 15 ++ bs)) : ∃ g, outs bitStep d samples = g ++ bs := by
  have hflags : flags 5 15 = false :: true :: ((flags 5 14).drop 2 ++ flagBits 5) := by
    decide +kernel
  have hline : lineLevels true 0 (flags 5 15 ++ bs) = toneLevels false 0 ++ (toneLevels false 424 ++
      lineLevels false 424 ((flags 5 14).drop 2 ++ (flagBits 5 ++ bs))) := by
    rw [hflags, List.cons_append, List.cons_append, List.append_assoc]
    rfl
  rw [hline, ← List.append_assoc, List.map_eq_append_iff] at hs
  obtain ⟨s', s'', rfl, hs', hs''⟩ := hs
  rw [List.map_eq_append_iff] at hs'
  obtain ⟨s₁, s₂, rfl, hs₁, hs₂⟩ := hs'
  rw [lineLevels_append, List.map_eq_append_iff] at hs''
  obtain ⟨s₃, s₄, rfl, hs₃, hs₄⟩ := hs''
  obtain ⟨c, q, htuned, hat⟩ := h.tunes hs₁ hs₂
  -- the preamble locks the clock
  have hlock := preamble_locks ⟨q.toNat, by have := hat.range; omega⟩
  simp only [Int.toNat_of_nonneg hat.range.1] at hlock
  obtain ⟨hgrid, hgrid8⟩ := lineEnd_grid ((flags 5 14).drop 2) (m := false) (p := 424) (by omega) (by omega)
  have htuned' := (htuned.line ((flags 5 14).drop 2) (by omega) (by omega) hs₃).1
  -- in lock: a flag, of which the first bit may be wrong, and the bits behind it
  obtain ⟨b', hbits⟩ := htuned'.reads hgrid hgrid8 (hat.line ((flags 5 14).drop 2)) hlock false
    ((flagBits 5).tail ++ bs) hs₄
  refine ⟨outs bitStep d (s₁ ++ s₂) ++ (outs bitStep (final bitStep d (s₁ ++ s₂)) s₃ ++ b' :: (flagBits 5).tail), ?_⟩
  rw [outs_append bitStep d (s₁ ++ s₂), outs_append _ _ s₃, hbits]
  simp only [List.append_assoc, List.cons_append]

end TinyAprs
