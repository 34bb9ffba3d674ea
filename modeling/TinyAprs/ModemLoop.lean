/-
# From one station to another, sample by sample

Station A transmits and station B receives. The link between them is ideal: at
every sample B's converter reads the value on A's port. Whatever B has heard
before, its demodulator is in lock long before the preamble ends
(`Demod.Kept.line`), the bits of the frame go to its parser as A has sent them,
and in every order of samples and reads in which there is room in the rx FIFO
when a bit comes (`Prompt`), the characters that B's main loop reads are those
of the parser (`reads_eq`). So a frame that A queues is told to B's hook
(`modem_delivers`), for every order of main loop and interrupt at A in which
the interrupt is not out of bytes inside the frame.
-/
import Mathlib.Data.List.ReduceOption
import TinyAprs.AfskLock
import TinyAprs.Ax25Frame

namespace TinyAprs

open Mealy BitStuff Transmitter

/-! ### The link -/

/-- `ADC_vect`, the half that receives: the sample of a reading of ten
bits. -/
def adcSample (adc : UInt16) : Int8 := ((adc >>> 2).toInt16 - 128).toInt8

theorem adcSample_port : ∀ v : UInt8, (v.toUInt16.toInt16 - 128).toInt8.toInt = level v := by
  decide +kernel

/-- B's converter reads, in its upper eight bits, what is on A's port. -/
def Sampled (ports : List UInt8) (adc : List UInt16) : Prop :=
  (adc.map fun r : UInt16 => r >>> 2) = ports.map UInt8.toUInt16

theorem Sampled.levels {ports : List UInt8} {adc : List UInt16} (h : Sampled ports adc) :
    (adc.map adcSample).map Int8.toInt = ports.map level := by
  have hadc : (adc.map adcSample).map Int8.toInt =
      (adc.map fun r : UInt16 => r >>> 2).map fun r => (r.toInt16 - 128).toInt8.toInt := by
    rw [List.map_map, List.map_map]
    rfl
  rw [hadc, h, List.map_map]
  exact List.map_congr_left fun v _ => adcSample_port v

/-! ### The wave, over the integers -/

theorem toNat_phase (acc inc : UInt16) : ((acc + inc) % 512).toNat = (acc.toNat + inc.toNat) % 512 := by
  rw [UInt16.toNat_mod, UInt16.toNat_add]
  show (acc.toNat + inc.toNat) % 65536 % 512 = _
  omega

theorem level_phase {acc : UInt16} (h : acc.toNat < 512) : level (sinSample acc &&& 0xF0) = waveLevel acc.toNat := by
  have hlevel := level_sinSample ⟨acc.toNat, h⟩
  rwa [UInt16.ofNat_toNat] at hlevel

theorem levels_toneSamples (inc : UInt16) : ∀ (n : ℕ) (acc : UInt16), (toneSamples inc acc n).map level =
    (List.range n).map fun j => waveLevel ((acc.toNat + (j + 1) * inc.toNat) % 512)
  | 0, _ => rfl
  | n + 1, acc => by
    have hnext := toNat_phase acc inc
    rw [toneSamples, List.map_cons, level_phase (by omega), levels_toneSamples inc n, List.range_succ_eq_map,
      List.map_cons, List.map_map, hnext, Nat.zero_add, Nat.one_mul]
    congr 1
    refine List.map_congr_left fun j _ => congrArg waveLevel ?_
    rw [Nat.mod_add_mod, Nat.add_assoc, Nat.add_comm inc.toNat, ← Nat.succ_mul]

theorem toNat_toneAcc (inc : UInt16) : ∀ (n : ℕ) {acc : UInt16}, acc.toNat < 512 →
    (toneAcc inc acc n).toNat = (acc.toNat + n * inc.toNat) % 512
  | 0, acc, hacc => by rw [toneAcc, Nat.zero_mul, Nat.add_zero, Nat.mod_eq_of_lt hacc]
  | n + 1, acc, _ => by
    have hnext := toNat_phase acc inc
    rw [toneAcc, toNat_toneAcc inc n (by omega), hnext, Nat.mod_add_mod, Nat.succ_mul, Nat.add_assoc,
      Nat.add_comm inc.toNat]

/-- `MARK_INC` or `SPACE_INC` -/
def incOf (m : Bool) : UInt16 := if m then markInc else spaceInc

theorem toNat_incOf : ∀ m, (incOf m).toNat = toneInc m := by decide

theorem incOf_next : ∀ m b : Bool, (if b then incOf m else switchTone (incOf m)) = incOf (m == b) := by decide

/-- **The wave of some bits**, over the integers. -/
theorem levels_modulate : ∀ (bs : List Bool) {m : Bool} {p : ℕ} {acc : UInt16}, acc.toNat = toneEnd m p →
    (modulate (incOf m, acc) bs).map level = lineLevels m p bs
  | [], _, _, _, _ => rfl
  | b :: bs, m, p, acc, h => by
    have hlt : acc.toNat < 512 := by
      rw [h, toneEnd]
      omega
    have hend : (toneAcc (incOf (m == b)) acc 8).toNat = toneEnd (m == b) (toneEnd m p) := by
      rw [toNat_toneAcc _ 8 hlt, h, toNat_incOf]
      rfl
    rw [modulate, outs_cons, tone, incOf_next, List.map_append, levels_toneSamples, h, toNat_incOf, lineLevels]
    exact congrArg _ (levels_modulate bs hend)

/-! ### The reads -/

def samplesOf (es : List AdcEvent) : List Int8 :=
  es.filterMap fun e => match e with
    | .sample s => some s
    | _ => none

/-- The bits that go to the parser. -/
def bitsOver (d : Demod) (es : List AdcEvent) : List Bool := (outs adcStep d es).reduceOption

/-- The characters the main loop reads. -/
def readOver : Demod → List AdcEvent → List UInt8
  | _, [] => []
  | d, .pop :: es =>
    (if d.rxFifo.isempty then [] else [d.rxFifo.pop.1]) ++ readOver (adcStep d .pop).1 es
  | d, e :: es => readOver (adcStep d e).1 es

/-- Whenever a sample comes, the rx FIFO has room for what a bit can
complete. -/
def Prompt : Demod → List AdcEvent → Prop
  | _, [] => True
  | d, .sample s :: es => d.rxFifo.contents.length + 2 ≤ d.rxFifo.last ∧ Prompt (adcStep d (.sample s)).1 es
  | d, e :: es => Prompt (adcStep d e).1 es

theorem Sees.idle {d : Demod} {l : Slicer} {c : BitClock} (h : Sees d l c) (d' : Demod) (hd : d' = { d with
    hdlc := d'.hdlc, rxFifo := d'.rxFifo, status := d'.status }) : Sees d' l c := by
  rw [hd]
  exact ⟨h.kept.withPhase rfl rfl rfl h.kept.phase, h.delay, h.x, h.y, h.last, h.before, h.phase, h.found⟩

/-- **The bits depend on the samples alone.** -/
theorem Sees.bitsOver : ∀ (es : List AdcEvent) {d : Demod} {l : Slicer} {c : BitClock}, Sees d l c →
    bitsOver d es = outs recover c (outs slice l ((samplesOf es).map Int8.toInt))
  | [], _, _, _, _ => rfl
  | .sample s :: es, d, l, c, h => by
    obtain ⟨b, hb, hnext, hout⟩ := h.step s
    have ih := bitsOver es hnext
    have hopt : ([(afskAdcIsr d s).2]).reduceOption = (recover c b).2 := by
      rw [← hout, bitStep]
      cases (afskAdcIsr d s).2 <;> rfl
    show (outs adcStep d (.sample s :: es)).reduceOption = outs recover c (outs slice l (s.toInt :: _))
    rw [outs_cons adcStep, outs_cons slice, hb, List.singleton_append, outs_cons recover, adcStep,
      List.reduceOption_append, hopt]
    exact congrArg _ ih
  | .pop :: es, d, l, c, h => by
    refine bitsOver es (h.idle (adcStep d .pop).1 ?_)
    rw [adcStep]
    split_ifs <;> rfl
  | .clearerr :: es, d, l, c, h => bitsOver es (h.idle (adcStep d .clearerr).1 rfl)

theorem hdlcPush_room (hdlc : Hdlc) {fifo : FIFOBuffer} (ret : Bool) (c : UInt8)
    (h : fifo.contents.length + 1 ≤ fifo.last) : hdlcPush hdlc fifo ret c = (hdlc, fifo.push c, ret) := by
  have hroom : fifo.isfull = false := by
    rw [← Bool.not_eq_true, FIFOBuffer.isfull_iff]
    omega
  simp [hdlcPush, hroom]

theorem length_push {fifo : FIFOBuffer} (c : UInt8) (h : fifo.contents.length + 1 ≤ fifo.last) :
    (fifo.push c).contents.length = fifo.contents.length + 1 := by
  have hroom : fifo.isfull = false := by
    rw [← Bool.not_eq_true, FIFOBuffer.isfull_iff]
    omega
  rw [FIFOBuffer.contents_push hroom, List.length_append, List.length_singleton]

theorem hdlcPush_two (hdlc : Hdlc) {fifo : FIFOBuffer} (c : UInt8) (h : fifo.contents.length + 2 ≤ fifo.last) :
    (let r := if c = hdlcFlag ∨ c = hdlcReset ∨ c = ax25Esc then hdlcPush hdlc fifo true ax25Esc
      else (hdlc, fifo, true)
    hdlcPush r.1 r.2.1 r.2.2 c).1 = hdlc := by
  by_cases hc : c = hdlcFlag ∨ c = hdlcReset ∨ c = ax25Esc
  · have hesc := length_push ax25Esc (show fifo.contents.length + 1 ≤ fifo.last by omega)
    simp only [if_pos hc, hdlcPush_room hdlc true ax25Esc (show fifo.contents.length + 1 ≤ fifo.last by omega)]
    rw [hdlcPush_room]
    rw [last_push]
    omega
  · simp only [if_neg hc, hdlcPush_room hdlc true c (show fifo.contents.length + 1 ≤ fifo.last by omega)]

theorem hdlcData_state (hdlc : Hdlc) {fifo : FIFOBuffer} (h : fifo.contents.length + 2 ≤ fifo.last) :
    (hdlcData hdlc fifo).1 = if 8 ≤ hdlc.bitIdx + 1 then { hdlc with currchar := 0, bitIdx := 0 }
      else { hdlc with currchar := hdlc.char >>> 1, bitIdx := hdlc.bitIdx + 1 } := by
  have htwo := hdlcPush_two { hdlc with currchar := hdlc.char, bitIdx := hdlc.bitIdx + 1 } hdlc.char h
  by_cases h8 : 8 ≤ hdlc.bitIdx + 1
  · rw [hdlcData, if_pos h8, if_pos h8]
    exact congrArg (fun a : Hdlc => { a with currchar := 0, bitIdx := 0 }) htwo
  · rw [hdlcData, if_neg h8, if_neg h8]
    rfl

/-- With room for two, the state of the parser does not depend on the FIFO. -/
theorem hdlcParse_state (hdlc : Hdlc) (b : Bool) {fifo fifo' : FIFOBuffer} (h : fifo.contents.length + 2 ≤ fifo.last)
    (h' : fifo'.contents.length + 2 ≤ fifo'.last) : (hdlcParse hdlc b fifo).1 = (hdlcParse hdlc b fifo').1 := by
  unfold hdlcParse
  dsimp only
  split_ifs
  · rw [hdlcPush_room _ _ _ (by omega), hdlcPush_room _ _ _ (by omega)]
  · rfl
  · rfl
  · rw [hdlcData_state _ h, hdlcData_state _ h']
  · rfl

/-- What a bit pushes where there is room. -/
def completed (hdlc : Hdlc) (b : Bool) : List UInt8 := (hdlcCompletes hdlc b).elim [] ax25Marks.spell

theorem length_completed (hdlc : Hdlc) (b : Bool) : (completed hdlc b).length ≤ 2 := by
  rw [completed]
  cases hdlcCompletes hdlc b with
  | none => exact Nat.zero_le 2
  | some t =>
    cases t with
    | data c =>
      rw [Option.elim_some, Framing.Marks.spell]
      split_ifs <;> simp
    | flag => exact Nat.le_succ 1
    | reset => exact Nat.le_succ 1

theorem hdlcParse_contents (hdlc : Hdlc) (b : Bool) {fifo : FIFOBuffer} (h : fifo.contents.length + 2 ≤ fifo.last) :
    (hdlcParse hdlc b fifo).2.1.contents = fifo.contents ++ completed hdlc b := by
  have hlen := length_completed hdlc b
  rw [completed] at hlen ⊢
  rw [hdlcParse_fifo]
  cases hc : hdlcCompletes hdlc b with
  | none => simp
  | some t =>
    rw [hc, Option.elim_some] at hlen
    rw [Option.elim_some, Option.elim_some, contents_pushRoom, List.take_of_length_le (by omega)]

theorem last_parse (hdlc : Hdlc) (b : Bool) (fifo : FIFOBuffer) : (hdlcParse hdlc b fifo).2.1.last = fifo.last := by
  have hroom : ∀ (cs : List UInt8) (fb : FIFOBuffer), (pushRoom fb cs).last = fb.last := by
    intro cs
    induction cs with
    | nil => exact fun _ => rfl
    | cons c cs ih =>
      intro fb
      refine (ih _).trans ?_
      dsimp only
      split_ifs <;> rfl
  rw [hdlcParse_fifo]
  cases hdlcCompletes hdlc b with
  | none => rfl
  | some t => exact hroom _ _

/-- One bit, where there is room and where the FIFO is drained after every
bit. -/
theorem hdlcParse_bit (hdlc : Hdlc) (b : Bool) {fifo fifo₀ : FIFOBuffer} (h : fifo.contents.length + 2 ≤ fifo.last)
    (h₀ : Drained fifo₀) :
    (hdlcBit (hdlc, fifo₀) b).1.1 = (hdlcParse hdlc b fifo).1 ∧
    (hdlcParse hdlc b fifo).2.1.contents = fifo.contents ++ (hdlcBit (hdlc, fifo₀) b).2 ∧
    Drained (hdlcBit (hdlc, fifo₀) b).1.2 := by
  have hroom : fifo₀.contents.length + 2 ≤ fifo₀.last := by
    rw [h₀.1, h₀.2]
    decide
  refine ⟨hdlcParse_state hdlc b hroom h, ?_, Drained.flush ((last_parse hdlc b fifo₀).trans h₀.1)⟩
  show _ = _ ++ (hdlcParse hdlc b fifo₀).2.1.contents
  rw [hdlcParse_contents hdlc b h, hdlcParse_contents hdlc b hroom, h₀.2, List.nil_append]

/-- **What is read is what the parser makes of the bits**, where it always
finds room. -/
theorem reads_eq : ∀ (es : List AdcEvent) {d : Demod} {fifo : FIFOBuffer}, Prompt d es → Drained fifo →
    d.rxFifo.contents ++ outs hdlcBit (d.hdlc, fifo) (bitsOver d es) =
      readOver d es ++ (final adcStep d es).rxFifo.contents
  | [], _, _, _, _ => by simp [bitsOver, readOver]
  | .sample s :: es, d, fifo, hprompt, hf => by
    have hrx := isr_rx d s
    have ih := fun {fifo'} => @reads_eq es (afskAdcIsr d s).1 fifo' hprompt.2
    have hread : readOver d (.sample s :: es) = readOver (afskAdcIsr d s).1 es := rfl
    rw [hread, final_cons]
    cases hbit : (afskAdcIsr d s).2 with
    | none =>
      have hbits : bitsOver d (.sample s :: es) = bitsOver (afskAdcIsr d s).1 es := by
        simp [bitsOver, adcStep, hbit, List.reduceOption_cons_of_none]
      rw [hbit] at hrx
      obtain ⟨hhdlc, hfifo⟩ : d.hdlc = (afskAdcIsr d s).1.hdlc ∧ d.rxFifo = (afskAdcIsr d s).1.rxFifo :=
        ⟨congrArg RxLine.hdlc hrx, congrArg RxLine.fifo hrx⟩
      rw [hbits, hhdlc, hfifo]
      exact ih hf
    | some b =>
      have hbits : bitsOver d (.sample s :: es) = b :: bitsOver (afskAdcIsr d s).1 es := by
        simp [bitsOver, adcStep, hbit, List.reduceOption_cons_of_some]
      rw [hbit] at hrx
      obtain ⟨hhdlc, hfifo⟩ : (hdlcParse d.hdlc b d.rxFifo).1 = (afskAdcIsr d s).1.hdlc ∧
          (hdlcParse d.hdlc b d.rxFifo).2.1 = (afskAdcIsr d s).1.rxFifo :=
        ⟨congrArg RxLine.hdlc hrx, congrArg RxLine.fifo hrx⟩
      obtain ⟨hstate, hpushed, hdrained⟩ := hdlcParse_bit d.hdlc b hprompt.1 hf
      rw [hhdlc] at hstate
      rw [hfifo] at hpushed
      have hih := ih hdrained
      rw [hpushed, ← hstate] at hih
      rw [hbits, outs_cons, ← List.append_assoc]
      exact hih
  | .pop :: es, d, fifo, hprompt, hf => by
    have ih := @reads_eq es (adcStep d .pop).1 fifo hprompt hf
    have hbits : bitsOver d (.pop :: es) = bitsOver (adcStep d .pop).1 es := rfl
    rw [hbits, readOver, final_cons, List.append_assoc, ← ih]
    cases hempty : d.rxFifo.isempty with
    | true => simp [adcStep, hempty]
    | false =>
      have hpop := FIFOBuffer.contents_pop hempty
      simp only [adcStep, hempty, Bool.false_eq_true, if_false]
      rw [hpop]
      rfl
  | .clearerr :: es, d, fifo, hprompt, hf => reads_eq es (d := (adcStep d .clearerr).1) hprompt hf

/-! ### The frame -/

variable (stk : AX25Msg)

theorem pollChar_told (ctx : AX25Ctx) (c : UInt8) : (ax25PollChar stk ctx c).1.hook = ctx.hook ∧
    (ax25PollChar stk ctx c).1.passThrough = ctx.passThrough := by
  have hdata : (ax25PollData ctx c).hook = ctx.hook ∧ (ax25PollData ctx c).passThrough = ctx.passThrough := by
    unfold ax25PollData
    split_ifs <;> simp
  have hflag : (ax25PollFlag stk ctx).1.hook = ctx.hook ∧ (ax25PollFlag stk ctx).1.passThrough = ctx.passThrough := by
    unfold ax25PollFlag
    dsimp only
    split_ifs <;> exact ⟨rfl, rfl⟩
  unfold ax25PollChar
  split_ifs
  · exact hflag
  · exact ⟨rfl, rfl⟩
  · exact ⟨rfl, rfl⟩
  · exact hdata

/-- What the hook is told of a frame: the buffer as it is, or the message in it
if there is one. -/
def toldOf (ctx ctx' : AX25Ctx) : List HookCall :=
  if ctx.passThrough then [⟨ctx', none⟩] else (ax25Decode stk ctx').toList.map fun msg => ⟨ctx', some msg⟩

/-- Behind any characters and a flag, a frame is told, once. -/
theorem heard_behind {ctx : AX25Ctx} (hhook : ctx.hook = true) (pre body : List UInt8)
    (hmin : ax25MinFrameLen ≤ body.length + 2) (hmax : body.length + 2 ≤ configAx25FrameBufLen) :
    ∃ ctx', Got ctx (withCrc body) ctx' ∧
      heardAfterFlag stk (final (ax25PollChar stk) ctx (pre ++ [hdlcFlag])) (airFrame body) = toldOf stk ctx ctx' := by
  set ctx₁ := final (ax25PollChar stk) ctx pre with hctx₁
  have hctx₂ : final (ax25PollChar stk) ctx (pre ++ [hdlcFlag]) = (ax25PollChar stk ctx₁ hdlcFlag).1 := by
    rw [final_append, final_cons, final_nil]
  set ctx₂ := (ax25PollChar stk ctx₁ hdlcFlag).1
  have htold : ctx₂.hook = ctx.hook ∧ ctx₂.passThrough = ctx.passThrough := by
    have h₁ : ctx₁.hook = ctx.hook ∧ ctx₁.passThrough = ctx.passThrough :=
      final_inv _ (fun s => s.hook = ctx.hook ∧ s.passThrough = ctx.passThrough) (fun s c hs =>
        ⟨(pollChar_told stk s c).1.trans hs.1, (pollChar_told stk s c).2.trans hs.2⟩) ctx pre ⟨rfl, rfl⟩
    exact ⟨(pollChar_told stk ctx₁ hdlcFlag).1.trans h₁.1, (pollChar_told stk ctx₁ hdlcFlag).2.trans h₁.2⟩
  -- a pending escape is gone after one flag
  have hesc : ctx₂.escape = false := by
    by_cases he : ctx₁.escape = true
    · exact congrArg (fun r => r.1.escape) (pollChar_data stk ctx₁ (Or.inl he))
    · exact (got_flag stk (by simpa using he)).2
  obtain ⟨ctx', hgot, hout⟩ := outs_airFrame stk hesc body hmin hmax
  have hgot' : Got ctx (withCrc body) ctx' :=
    ⟨hgot.sync, hgot.frmLen, hgot.buf, hgot.crcIn, hgot.hook.trans htold.1, hgot.passThrough.trans htold.2⟩
  refine ⟨ctx', hgot', ?_⟩
  rw [hctx₂]
  refine Eq.trans hout ?_
  rw [ax25Deliver, if_pos (hgot'.hook.trans hhook), hgot'.passThrough, toldOf]
  cases ax25Decode stk ctx' <;> rfl

theorem Demod.Kept.run {d : Demod} (h : d.Kept) (samples : List Int8) : (final bitStep d samples).Kept := by
  obtain ⟨l, c, hsees⟩ := h.sees
  exact (hsees.run samples).1.kept

theorem Demod.Kept.bitsOver_eq {d : Demod} (h : d.Kept) (es : List AdcEvent) :
    bitsOver d es = outs bitStep d (samplesOf es) := by
  obtain ⟨l, c, hsees⟩ := h.sees
  rw [hsees.bitsOver es, (hsees.run (samplesOf es)).2]

/-- **The bits of a transmission**, between others. -/
theorem Demod.Kept.hears {d : Demod} (h : d.Kept) (data : List UInt8) (i c : ℕ) (rest : List UInt8) {samples : List Int8}
    (hs : samples.map Int8.toInt =
      (List.replicate i 128 ++ (modulate (markInc, 0) (lineBits data c) ++ rest)).map level) :
    ∃ g r, outs bitStep d samples = g ++ (flags 5 38 ++ (frameBits data ++ flags 5 c) ++ r) := by
  have hwave : (modulate (markInc, 0) (lineBits data c)).map level =
      lineLevels true 0 (flags 5 15 ++ (flags 5 38 ++ (frameBits data ++ flags 5 c))) := by
    rw [← List.append_assoc, ← flags_add]
    exact levels_modulate (lineBits data c) (m := true) rfl
  rw [List.map_append, List.map_append, hwave, List.map_eq_append_iff] at hs
  obtain ⟨s₁, s', rfl, -, hs'⟩ := hs
  rw [List.map_eq_append_iff] at hs'
  obtain ⟨s₂, s₃, rfl, hs₂, -⟩ := hs'
  obtain ⟨g, hg⟩ := (h.run s₁).line _ hs₂
  refine ⟨outs bitStep d s₁ ++ g, outs bitStep (final bitStep (final bitStep d s₁) s₂) s₃, ?_⟩
  rw [outs_append, outs_append, hg]
  simp only [List.append_assoc]

/-- **The characters of a transmission**, between others. -/
theorem outs_transmission (hdlc : Hdlc) {fifo : FIFOBuffer} (hf : Drained fifo) (data : List UInt8) (g r : List Bool)
    (c : ℕ) : ∃ pre post, outs hdlcBit (hdlc, fifo) (g ++ (flags 5 38 ++ (frameBits data ++ flags 5 c) ++ r)) =
      pre ++ (hdlcFlag :: (tokens data ++ post)) := by
  have hdrained : Drained (final hdlcBit (hdlc, fifo) g).2 :=
    final_inv hdlcBit (fun s => Drained s.2) (fun s b hs => (hdlcBit_eq s.1 hs b).2.2.2) (hdlc, fifo) g hf
  obtain ⟨n, e, -, hframe⟩ := outs_frame (final hdlcBit (hdlc, fifo) g).1 hdrained data 38 (c + 1)
  have hbits : flags 5 38 ++ (frameBits data ++ flags 5 c) =
      flags 5 (38 + 1) ++ (stuff 5 0 (data.flatMap byteBits) ++ flags 5 (c + 1)) := by
    rw [frameBits, flags_add, Nat.add_comm c 1, flags_add]
    simp only [List.append_assoc]
  have hflags : List.replicate (38 + 1 + e) hdlcFlag = List.replicate (37 + e) hdlcFlag ++ [hdlcFlag, hdlcFlag] := by
    rw [show 38 + 1 + e = (37 + e) + 2 by omega, List.replicate_add]
    rfl
  refine ⟨outs hdlcBit (hdlc, fifo) g ++ (n ++ List.replicate (37 + e) hdlcFlag), List.replicate c hdlcFlag ++
    outs hdlcBit (final hdlcBit (final hdlcBit (hdlc, fifo) g) (flags 5 38 ++ (frameBits data ++ flags 5 c))) r, ?_⟩
  rw [outs_append, outs_append, hbits, hframe, hflags, List.replicate_succ, tokens]
  simp only [List.append_assoc, List.cons_append, List.nil_append]

/-- Two reads after every sample. -/
def polled (ss : List Int8) : List AdcEvent := ss.flatMap fun s => [.sample s, .pop, .pop]

theorem samplesOf_polled (ss : List Int8) : samplesOf (polled ss) = ss := by
  induction ss with
  | nil => rfl
  | cons s ss ih => exact congrArg (s :: ·) ih

theorem pop_rx (d : Demod) : (adcStep d .pop).1.rxFifo.last = d.rxFifo.last ∧
    (adcStep d .pop).1.rxFifo.contents = d.rxFifo.contents.tail := by
  cases hempty : d.rxFifo.isempty with
  | true =>
    have hnil := (FIFOBuffer.isempty_iff _).mp hempty
    simp [adcStep, hempty, hnil]
  | false =>
    have hpop := FIFOBuffer.contents_pop hempty
    simp only [adcStep, hempty, Bool.false_eq_true, if_false]
    rw [hpop]
    exact ⟨rfl, rfl⟩

/-- A sample leaves at most two characters in a drained FIFO. -/
theorem sample_rx {d : Demod} (h : Drained d.rxFifo) (s : Int8) : (adcStep d (.sample s)).1.rxFifo.last = 63 ∧
    (adcStep d (.sample s)).1.rxFifo.contents.length ≤ 2 := by
  have hrx : (final rxStep d.rx ((afskAdcIsr d s).2.toList.map .bit)).fifo = (adcStep d (.sample s)).1.rxFifo :=
    congrArg RxLine.fifo (isr_rx d s)
  rw [← hrx]
  cases (afskAdcIsr d s).2 with
  | none =>
    show d.rxFifo.last = 63 ∧ d.rxFifo.contents.length ≤ 2
    rw [h.2]
    exact ⟨h.1, Nat.zero_le 2⟩
  | some b =>
    have hroom : d.rxFifo.contents.length + 2 ≤ d.rxFifo.last := by
      rw [h.1, h.2]
      decide
    show (hdlcParse d.hdlc b d.rxFifo).2.1.last = 63 ∧ (hdlcParse d.hdlc b d.rxFifo).2.1.contents.length ≤ 2
    rw [last_parse, hdlcParse_contents _ _ hroom, h.2]
    exact ⟨h.1, length_completed _ _⟩

theorem polled_prompt : ∀ (ss : List Int8) {d : Demod}, Drained d.rxFifo →
    Prompt d (polled ss) ∧ Drained (final adcStep d (polled ss)).rxFifo
  | [], _, h => ⟨trivial, h⟩
  | s :: ss, d, h => by
    obtain ⟨hlast, hlen⟩ := sample_rx h s
    have h₁ := pop_rx (adcStep d (.sample s)).1
    have h₂ := pop_rx (adcStep (adcStep d (.sample s)).1 .pop).1
    have hdrained : Drained (adcStep (adcStep (adcStep d (.sample s)).1 .pop).1 .pop).1.rxFifo := by
      refine ⟨h₂.1.trans (h₁.1.trans hlast), List.eq_nil_of_length_eq_zero ?_⟩
      rw [h₂.2, h₁.2, List.length_tail, List.length_tail]
      omega
    obtain ⟨ih1, ih2⟩ := polled_prompt ss hdrained
    have hcons : polled (s :: ss) = .sample s :: .pop :: .pop :: polled ss := rfl
    rw [hcons, Prompt, Prompt, Prompt, final_cons, final_cons, final_cons]
    refine ⟨⟨?_, ih1⟩, ih2⟩
    · rw [h.1, h.2]
      decide
    · intro s' h'
      cases h'
    · intro s' h'
      cases h'

/-- **A frame goes from station to station.** A transmits a frame of 18 to 330
bytes with its CRC, in any order of its main loop and its interrupt in which the
interrupt is not out of bytes inside the frame, until the transmission is over.
B, whatever it has heard and read before, samples A's port, and reads its rx
FIFO in any order that leaves room when a bit comes, until all is read. Then B's
main loop reads the frame's characters in a row, and its receiver, in whatever
state it is, tells its hook of this frame alone from the opening flag to the
closing one. -/
theorem modem_delivers (body : List UInt8) (hmin : ax25MinFrameLen ≤ body.length + 2)
    (hmax : body.length + 2 ≤ configAx25FrameBufLen) {af : Afsk} (hidle : Idle af) (es : List TxEvent)
    (hfed : fed ⟨af, airFrame body, false⟩ es = true)
    (hwritten : (final Transmitter.step ⟨af, airFrame body, false⟩ es).Written)
    (hoff : (final Transmitter.step ⟨af, airFrame body, false⟩ es).af.sending = false)
    (before rx : List AdcEvent) (adc : List UInt16) (hheard : Sampled (outs portStep ⟨af, airFrame body, false⟩ es) adc)
    (hrx : samplesOf rx = adc.map adcSample) (hprompt : Prompt (final adcStep demodInit before) rx)
    (hread : (final adcStep (final adcStep demodInit before) rx).rxFifo.contents = []) (ctx : AX25Ctx)
    (hhook : ctx.hook = true) :
    ∃ pre post ctx', readOver (final adcStep demodInit before) rx = pre ++ (airFrame body ++ post) ∧
      Got ctx (withCrc body) ctx' ∧
      heardAfterFlag stk (final (ax25PollChar stk) ctx pre) (airFrame body) = toldOf stk ctx ctx' := by
  set d := final adcStep demodInit before
  have hkept : d.Kept := (since_init.run before).1
  obtain ⟨i, c, rest, hport⟩ := port_line (withCrc body) hidle es hfed hwritten hoff
  have hsamples : (samplesOf rx).map Int8.toInt =
      (List.replicate i 128 ++ (modulate (markInc, 0) (lineBits (withCrc body) c) ++ rest)).map level := by
    rw [hrx, hheard.levels, ← hport]
    rfl
  obtain ⟨g, r, hbits⟩ := hkept.hears (withCrc body) i c rest hsamples
  have hempty : Drained (.init 63) := ⟨rfl, rfl⟩
  obtain ⟨pre, post, hchars⟩ := outs_transmission d.hdlc hempty (withCrc body) g r c
  have hreads := reads_eq rx hprompt hempty
  rw [hread, List.append_nil, hkept.bitsOver_eq, hbits, hchars] at hreads
  obtain ⟨ctx', hgot, hout⟩ := heard_behind stk hhook (d.rxFifo.contents ++ pre) body hmin hmax
  refine ⟨d.rxFifo.contents ++ pre ++ [hdlcFlag], post, ctx', ?_, hgot, hout⟩
  rw [← hreads]
  simp only [List.append_assoc, List.singleton_append]
  rfl

theorem sampled_exact (ports : List UInt8) : Sampled ports (ports.map fun v => v.toUInt16 <<< (2 : UInt16)) := by
  have hback : ∀ v : UInt8, (v.toUInt16 <<< (2 : UInt16)) >>> 2 = v.toUInt16 := by decide +kernel
  rw [Sampled, List.map_map]
  exact List.map_congr_left fun v _ => hback v

/-- A frame of sixteen bytes, queued at once after power-up; B, just powered up
as well, reads twice after every sample. -/
theorem modem_delivers_short : ∃ es adc pre post ctx',
    Sampled (outs portStep ⟨afskInit, airFrame (List.replicate 16 0x41), false⟩ es) adc ∧
    readOver demodInit (polled (adc.map adcSample)) = pre ++ (airFrame (List.replicate 16 0x41) ++ post) ∧
    Got { ax25Init true with passThrough := true } (withCrc (List.replicate 16 0x41)) ctx' ∧
    heardAfterFlag zeroMsg (final (ax25PollChar zeroMsg) { ax25Init true with passThrough := true } pre)
      (airFrame (List.replicate 16 0x41)) = [⟨ctx', none⟩] := by
  set s : Transmitter := ⟨afskInit, airFrame (List.replicate 16 0x41), false⟩ with hs
  have hwritten : (final Transmitter.step s (List.replicate 44 .write)).Written := ⟨by decide +kernel, by decide +kernel⟩
  have hok : (final Transmitter.step s (List.replicate 44 .write)).af.Ok :=
    ⟨by decide +kernel, by decide +kernel, by decide +kernel, by decide +kernel⟩
  obtain ⟨n, hn⟩ := silent_within _ hok (Nat.lt_succ_self _)
  obtain ⟨hfed, hwritten'⟩ := isr_written n hwritten
  have hall : fed s (List.replicate 44 .write ++ List.replicate n .isr) = true := by
    rw [fed_append, hfed]
    decide +kernel
  rw [← final_append] at hn hwritten'
  have hheard := sampled_exact (outs portStep s (List.replicate 44 .write ++ List.replicate n .isr))
  set adc := (outs portStep s (List.replicate 44 .write ++ List.replicate n .isr)).map fun v => v.toUInt16 <<< (2 : UInt16)
  obtain ⟨hprompt, hdrained⟩ := polled_prompt (adc.map adcSample) (d := demodInit) ⟨rfl, rfl⟩
  obtain ⟨pre, post, ctx', hchars, hgot, hout⟩ := modem_delivers zeroMsg (List.replicate 16 0x41) (by decide) (by decide)
    idle_afskInit _ hall hwritten' hn [] (polled (adc.map adcSample)) adc hheard (samplesOf_polled _) hprompt hdrained.2
    { ax25Init true with passThrough := true } rfl
  exact ⟨_, adc, pre, post, ctx', hheard, hchars, hgot, hout⟩

end TinyAprs
