/-
# The modem

The model of `net/afsk.c` between its FIFOs and the tones. Receiving,
`hdlc_parse` takes one demodulated bit at a time and pushes characters into
the rx FIFO. Transmitting, `afsk_dac_isr` is called once per output sample
while the interrupt is on (`hw_afsk_dac_isr`), and every `DAC_SAMPLEPERBIT`
samples chooses the tone of the next bit: the same tone for a one, the other
tone for a zero. Meanwhile `afsk_write` fills the tx FIFO and starts the
transmission (`afsk_txStart`); a `Transmitter` is the modem with what
`afsk_write` has still to queue, and its events are the main loop's steps and
the interrupts, in any order. The LEDs and the PTT line are left out.
-/
import TinyAprs.Ax25
import TinyAprs.Fifo

namespace TinyAprs

/-! ### Receiving -/

/-- `Hdlc` -/
structure Hdlc where
  demodBits : UInt8
  bitIdx : UInt8
  currchar : UInt8
  rxstart : Bool
  deriving DecidableEq, Repr

/-- A character that is pushed if there is room; the reception ends if not. -/
def hdlcPush (hdlc : Hdlc) (fifo : FIFOBuffer) (ret : Bool) (c : UInt8) : Hdlc × FIFOBuffer × Bool :=
  if ¬ fifo.isfull then (hdlc, fifo.push c, ret)
  else ({ hdlc with rxstart := false }, fifo, false)

/-- The bits seen by the parser after one more. -/
def shiftIn (demodBits : UInt8) (bit : Bool) : UInt8 := (demodBits <<< 1) ||| (if bit then 1 else 0)

/-- The end of `hdlc_parse`: the last bit is a bit of the character. -/
def hdlcData (hdlc₀ : Hdlc) (fifo : FIFOBuffer) : Hdlc × FIFOBuffer × Bool :=
  let currchar := if hdlc₀.demodBits &&& 0x01 ≠ 0 then hdlc₀.currchar ||| 0x80 else hdlc₀.currchar
  let hdlc := { hdlc₀ with currchar := currchar, bitIdx := hdlc₀.bitIdx + 1 }
  if 8 ≤ hdlc.bitIdx then
    let r :=
      if currchar = hdlcFlag ∨ currchar = hdlcReset ∨ currchar = ax25Esc then
        hdlcPush hdlc fifo true ax25Esc
      else (hdlc, fifo, true)
    let r := hdlcPush r.1 r.2.1 r.2.2 currchar
    ({ r.1 with currchar := 0, bitIdx := 0 }, r.2)
  else ({ hdlc with currchar := currchar >>> 1 }, fifo, true)

/-- `hdlc_parse` -/
def hdlcParse (hdlc₀ : Hdlc) (bit : Bool) (fifo : FIFOBuffer) : Hdlc × FIFOBuffer × Bool :=
  let hdlc := { hdlc₀ with demodBits := shiftIn hdlc₀.demodBits bit }
  if hdlc.demodBits = hdlcFlag then
    let r := hdlcPush { hdlc with rxstart := true } fifo true hdlcFlag
    ({ r.1 with currchar := 0, bitIdx := 0 }, r.2)
  else if hdlc.demodBits &&& hdlcReset = hdlcReset then ({ hdlc with rxstart := false }, fifo, true)
  else if ¬ hdlc.rxstart then (hdlc, fifo, true)
  -- a stuffed bit
  else if hdlc.demodBits &&& 0x3f = 0x3e then (hdlc, fifo, true)
  else hdlcData hdlc fifo

/-- A bit goes to the parser and the rx FIFO is drained: the state after it
and the characters read. Popping until the FIFO is empty leaves `head` at
`tail`, as `fifo_flush` does. -/
def hdlcBit (s : Hdlc × FIFOBuffer) (bit : Bool) : (Hdlc × FIFOBuffer) × List UInt8 :=
  let r := hdlcParse s.1 bit s.2
  ((r.1, r.2.1.flush), r.2.1.contents)

/-! ### Transmitting -/

/-- The part of `Afsk` that transmitting uses, and the flag
`hw_afsk_dac_isr` that gates the interrupt. -/
structure Afsk where
  sampleCount : UInt8
  currOut : UInt8
  txBit : UInt8
  bitStuff : Bool
  stuffCnt : UInt8
  phaseAcc : UInt16
  phaseInc : UInt16
  txFifo : FIFOBuffer
  sending : Bool
  preambleLen : UInt16
  trailerLen : UInt16
  dacIsr : Bool

/-- `MARK_INC`: `DIV_ROUND(512 * 1200, 9600)` -/
def markInc : UInt16 := 64
/-- `SPACE_INC`: `DIV_ROUND(512 * 2200, 9600)` -/
def spaceInc : UInt16 := 117
/-- `DAC_SAMPLEPERBIT`: `9600 / 1200` -/
def dacSamplePerBit : UInt8 := 8
/-- `BIT_STUFF_LEN` -/
def bitStuffLen : UInt8 := 5
/-- `DIV_ROUND(CONFIG_AFSK_PREAMBLE_LEN * BITRATE, 8000)`, of 350 ms -/
def preambleFlags : UInt16 := 53
/-- `DIV_ROUND(CONFIG_AFSK_TRAILER_LEN * BITRATE, 8000)`, of 75 ms -/
def trailerFlags : UInt16 := 11

/-- `sin_table`, the first quarter of the wave -/
def sinTable : Array UInt8 := #[
  128, 129, 131, 132, 134, 135, 137, 138, 140, 142, 143, 145, 146, 148, 149, 151,
  152, 154, 155, 157, 158, 160, 162, 163, 165, 166, 167, 169, 170, 172, 173, 175,
  176, 178, 179, 181, 182, 183, 185, 186, 188, 189, 190, 192, 193, 194, 196, 197,
  198, 200, 201, 202, 203, 205, 206, 207, 208, 210, 211, 212, 213, 214, 215, 217,
  218, 219, 220, 221, 222, 223, 224, 225, 226, 227, 228, 229, 230, 231, 232, 233,
  234, 234, 235, 236, 237, 238, 238, 239, 240, 241, 241, 242, 243, 243, 244, 245,
  245, 246, 246, 247, 248, 248, 249, 249, 250, 250, 250, 251, 251, 252, 252, 252,
  253, 253, 253, 253, 254, 254, 254, 254, 254, 255, 255, 255, 255, 255, 255, 255]

/-- `sin_sample` -/
def sinSample (idx : UInt16) : UInt8 :=
  let newIdx := idx % 256
  let newIdx := if 128 ≤ newIdx then 256 - newIdx - 1 else newIdx
  let data := sinTable.getD newIdx.toNat 0
  if 256 ≤ idx then 255 - data else data

/-- `SWITCH_TONE` -/
def switchTone (inc : UInt16) : UInt16 := if inc = markInc then spaceInc else markInc

/-- `afsk_init`, for a tx buffer of `CONFIG_AFSK_TX_BUFLEN` bytes. -/
def afskInit : Afsk where
  sampleCount := 0
  currOut := 0
  txBit := 0
  bitStuff := false
  stuffCnt := 0
  phaseAcc := 0
  phaseInc := markInc
  txFifo := FIFOBuffer.init 63
  sending := false
  preambleLen := 0
  trailerLen := 0
  dacIsr := false

namespace Afsk

/-- `afsk_txStart` -/
def txStart (af : Afsk) : Afsk :=
  let af :=
    if ¬ af.sending then
      { af with phaseInc := markInc, phaseAcc := 0, stuffCnt := 0, sending := true,
                preambleLen := preambleFlags, dacIsr := true }
    else af
  { af with trailerLen := trailerFlags }

/-- The interrupt turns itself off. -/
def stop (af : Afsk) : Afsk := { af with dacIsr := false, sending := false }

/-- The character that is next: a flag of the preamble, the head of the tx
FIFO, or a flag of the trailer. -/
def fetch (af : Afsk) : Afsk :=
  if af.preambleLen = 0 then
    if af.txFifo.isempty then { af with trailerLen := af.trailerLen - 1, currOut := hdlcFlag }
    else { af with currOut := af.txFifo.pop.1, txFifo := af.txFifo.pop.2 }
  else { af with preambleLen := af.preambleLen - 1, currOut := hdlcFlag }

/-- A character is done: the next one begins, or (`false`) there is none. -/
def nextChar (af : Afsk) : Afsk × Bool :=
  if af.txFifo.isempty ∧ af.trailerLen = 0 then (af.stop, false)
  else
    let af := fetch { af with stuffCnt := if af.bitStuff then af.stuffCnt else 0, bitStuff := true }
    if af.currOut = ax25Esc then
      if af.txFifo.isempty then (af.stop, false)
      else ({ af with currOut := af.txFifo.pop.1, txFifo := af.txFifo.pop.2, txBit := 0x01 }, true)
    else if af.currOut = hdlcFlag ∨ af.currOut = hdlcReset then
      ({ af with bitStuff := false, txBit := 0x01 }, true)
    else ({ af with txBit := 0x01 }, true)

/-- The tone of the next bit: a stuffed zero, or the bit `tx_bit` of the
character. -/
def nextTone (af : Afsk) : Afsk :=
  let af :=
    if af.bitStuff ∧ bitStuffLen ≤ af.stuffCnt then
      { af with stuffCnt := 0, phaseInc := switchTone af.phaseInc }
    else if af.currOut &&& af.txBit ≠ 0 then
      { af with stuffCnt := af.stuffCnt + 1, txBit := af.txBit <<< 1 }
    else
      { af with stuffCnt := 0, phaseInc := switchTone af.phaseInc, txBit := af.txBit <<< 1 }
  { af with sampleCount := dacSamplePerBit }

/-- The next sample of the current tone. -/
def nextSample (af : Afsk) : Afsk × UInt8 :=
  let acc := (af.phaseAcc + af.phaseInc) % 512
  ({ af with phaseAcc := acc, sampleCount := af.sampleCount - 1 }, sinSample acc)

end Afsk

open Afsk in
/-- `afsk_dac_isr` -/
def afskDacIsr (af : Afsk) : Afsk × UInt8 :=
  if af.sampleCount = 0 then
    if af.txBit = 0 then
      let r := nextChar af
      if r.2 then nextSample (nextTone r.1) else (r.1, 0)
    else nextSample (nextTone af)
  else nextSample af

/-- The bit that a call of `afsk_dac_isr` begins, if it begins one: a one
when the tone is kept, a zero when it is switched. -/
def toneBit (af : Afsk) : List Bool :=
  if af.sampleCount = 0 ∧ (afskDacIsr af).1.sampleCount ≠ 0 then
    [(afskDacIsr af).1.phaseInc == af.phaseInc]
  else []

/-- Does this call of `afsk_dac_isr` find the tx FIFO empty, at a new
character or behind an escape? -/
def seesEmpty (af : Afsk) : Bool :=
  af.sampleCount == 0 && af.txBit == 0 &&
    (af.txFifo.isempty || (af.preambleLen == 0 && af.txFifo.pop.1 == ax25Esc && af.txFifo.pop.2.isempty))

/-! ### The main loop and the interrupt -/

/-- The modem, the bytes `afsk_write` has still to queue, and whether it is
between `fifo_push_locked` and `afsk_txStart`. -/
structure Transmitter where
  af : Afsk
  todo : List UInt8
  starting : Bool

inductive TxEvent where
  | write
  | isr
  deriving DecidableEq, Repr

namespace Transmitter

/-- The next step of `afsk_write`: it waits for room, queues a byte, calls
`afsk_txStart`. -/
def writeStep (s : Transmitter) : Transmitter :=
  if s.starting then { s with af := s.af.txStart, starting := false }
  else
    match s.todo with
    | [] => s
    | c :: cs =>
      if s.af.txFifo.isfull then s
      else { af := { s.af with txFifo := s.af.txFifo.push c }, todo := cs, starting := true }

/-- One event, and the bit it begins on the air. -/
def step (s : Transmitter) : TxEvent → Transmitter × List Bool
  | .write => (s.writeStep, [])
  | .isr => if s.af.dacIsr then ({ s with af := (afskDacIsr s.af).1 }, toneBit s.af) else (s, [])

/-- Does the interrupt find the FIFO empty before everything is queued? -/
def starves (s : Transmitter) : TxEvent → Bool
  | .write => false
  | .isr => s.af.dacIsr && s.todo ≠ [] && seesEmpty s.af

/-- Along the events, the interrupt never finds the FIFO empty before
everything is queued. -/
def fed : Transmitter → List TxEvent → Bool
  | _, [] => true
  | s, e :: es => !s.starves e && fed (s.step e).1 es

/-- Everything is queued. -/
def Written (s : Transmitter) : Prop := s.todo = [] ∧ s.starting = false

end Transmitter

end TinyAprs
