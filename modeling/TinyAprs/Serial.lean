/-
# The serial input

The model of the receive side of `drv/ser.c` and `cpu/avr/drv/ser_mega.c`,
and of the two places that read it: `kiss_poll` and, in the other modes,
`serialreader_readline` (`reader.c`). The interrupt puts a byte into the
FIFO and sets an error bit when the hardware reports one or the FIFO is
full. `ser_getchar` takes nothing out while an error bit is set, and the bits
are cleared by `serialreader_reset` only, which neither poll calls. So input
is read exactly until the first error (`serial_takes_iff`): after it the
FIFO stays as it is, fills up and stays full.
-/
import TinyAprs.Fifo
import TinyAprs.Kiss

namespace TinyAprs

/-- `SERRF_RXFIFOOVERRUN` -/
def serrfRxfifooverrun : UInt8 := 0x01
/-- `SERRF_RXSROVERRUN` -/
def serrfRxsroverrun : UInt8 := 0x08
/-- `SERRF_FRAMEERROR` -/
def serrfFrameerror : UInt8 := 0x10
/-- `SERRF_RXTIMEOUT` -/
def serrfRxtimeout : UInt8 := 0x20
/-- `SERRF_PARITYERROR` -/
def serrfParityerror : UInt8 := 0x80
/-- `SERRF_RX` -/
def serrfRx : UInt8 :=
  serrfRxfifooverrun ||| serrfRxtimeout ||| serrfRxsroverrun ||| serrfParityerror ||| serrfFrameerror

/-- The receive side of `Serial`. -/
structure Serial where
  rxfifo : FIFOBuffer
  status : UInt8

/-- `ser_init`; the FIFO has `CONFIG_UART0_RXBUFSIZE`, 32, bytes. -/
def serInit : Serial := ⟨.init 31, 0⟩

/-- `USART0_RX_vect`: `UCSR0A` and `UDR0` as the handler reads them. -/
def usart0Rx (s : Serial) (ucsr0a udr0 : UInt8) : Serial :=
  let s := { s with status := s.status ||| (ucsr0a &&& (serrfRxsroverrun ||| serrfFrameerror)) }
  if s.rxfifo.isfull then { s with status := s.status ||| serrfRxfifooverrun }
  else { s with rxfifo := s.rxfifo.push udr0 }

/-- `ser_getchar`, with `rxtimeout` 0; `none` is `EOF`. -/
def serGetchar (s : Serial) : Option UInt8 × Serial :=
  if s.rxfifo.isempty then (none, s)
  else if s.status &&& serrfRx ≠ 0 then (none, s)
  else (some s.rxfifo.pop.1, { s with rxfifo := s.rxfifo.pop.2 })

/-- `ser_clearerr` -/
def serClearerr (s : Serial) : Serial := { s with status := 0 }

/-- `ser_purgeRx` -/
def serPurgeRx (s : Serial) : Serial := { s with rxfifo := s.rxfifo.flush }

/-! ### Who reads it -/

/-- What `serialreader_readline` does with a character: the reader, and the
length of the line if one is complete. -/
def readlineChar (r : SerialReader) (c : UInt8) : SerialReader × ℕ :=
  let text := c ≠ 0x0d ∧ c ≠ 0x0a
  let r := if text then
    { r with buf := Function.update r.buf r.readLen.toNat c, readLen := r.readLen + 1 } else r
  if text ∧ r.readLen.toUInt16 < r.bufLen - 1 then (r, 0)
  else if r.readLen > 0 then
    ({ r with buf := Function.update r.buf r.readLen.toNat 0, readLen := 0 }, r.readLen.toNat)
  else (r, 0)

/-- The serial port and its reader, in KISS mode or another. -/
structure SerialSide where
  ser : Serial
  kiss : KissCtx

/-- The port and the reader at power-up. -/
def serialBoot : SerialSide := ⟨serInit, kissInit serialreaderInit⟩

/-- `kiss_poll` -/
def kissPoll (handle : (ℕ → UInt8) → ℕ → (ℕ → UInt8)) (s : SerialSide) (now : Int32) :
    SerialSide × List Handed :=
  match serGetchar s.ser with
  | (none, ser) => ({ s with ser := ser }, [])
  | (some c, ser) =>
    let r := kissPollSerial handle s.kiss now c
    (⟨ser, r.1⟩, r.2)

/-- `serialreader_readline` -/
def serialreaderReadline (s : SerialSide) : SerialSide × ℕ :=
  match serGetchar s.ser with
  | (none, ser) => ({ s with ser := ser }, 0)
  | (some c, ser) =>
    let r := readlineChar s.kiss.reader c
    (⟨ser, { s.kiss with reader := r.1 }⟩, r.2)

/-- `serialreader_reset` -/
def serialreaderReset (s : SerialSide) : SerialSide :=
  ⟨serClearerr s.ser, { s.kiss with reader.readLen := 0 }⟩

/-- What can happen to the serial port: an interrupt, a poll in either mode,
and what a show of the mode does (`ser_purge`, and `serialreader_reset` in
`tracker_init_gps`). -/
inductive SerialEvent
  | rx (ucsr0a udr0 : UInt8)
  | kissPoll (now : Int32)
  | readline
  | purge
  | reset
deriving DecidableEq

def SerialSide.step (handle : (ℕ → UInt8) → ℕ → (ℕ → UInt8)) (s : SerialSide) : SerialEvent → SerialSide
  | .rx ucsr0a udr0 => { s with ser := usart0Rx s.ser ucsr0a udr0 }
  | .kissPoll now => (TinyAprs.kissPoll handle s now).1
  | .readline => (serialreaderReadline s).1
  | .purge => { s with ser := serPurgeRx s.ser }
  | .reset => serialreaderReset s

def SerialSide.run (handle : (ℕ → UInt8) → ℕ → (ℕ → UInt8)) (s : SerialSide) (es : List SerialEvent) :
    SerialSide :=
  es.foldl (SerialSide.step handle) s

/-- An interrupt that reports an error, or finds the FIFO full. -/
def rxFails (s : Serial) (ucsr0a : UInt8) : Bool :=
  ucsr0a &&& (serrfRxsroverrun ||| serrfFrameerror) != 0 || s.rxfifo.isfull

/-- Whether, after the events, an interrupt failed since the last
`serialreader_reset`; `w` is whether one had before. -/
def failedSince (handle : (ℕ → UInt8) → ℕ → (ℕ → UInt8)) : SerialSide → Bool → List SerialEvent → Bool
  | _, w, [] => w
  | s, w, .rx a c :: es => failedSince handle (s.step handle (.rx a c)) (w || rxFails s.ser a) es
  | s, _, .reset :: es => failedSince handle (s.step handle .reset) false es
  | s, w, e :: es => failedSince handle (s.step handle e) w es

/-! ### The error bits -/

variable (handle : (ℕ → UInt8) → ℕ → (ℕ → UInt8))

theorem or_and_ne_zero (a b m : UInt8) : ((a ||| b) &&& m != 0) = (a &&& m != 0 || b &&& m != 0) := by
  have h : (a ||| b) &&& m = (a &&& m) ||| (b &&& m) := by
    refine UInt8.toNat_inj.mp ?_
    simp only [UInt8.toNat_and, UInt8.toNat_or, Nat.and_or_distrib_right]
  rw [h, Bool.eq_iff_iff]
  simp only [bne_iff_ne, ne_eq, UInt8.or_eq_zero_iff, Bool.or_eq_true]
  tauto

theorem rxMask_and (a : UInt8) : (a &&& (serrfRxsroverrun ||| serrfFrameerror)) &&& serrfRx =
    a &&& (serrfRxsroverrun ||| serrfFrameerror) := by
  rw [UInt8.and_assoc]
  rfl

/-- The interrupt sets an error bit exactly when it fails. -/
theorem status_usart0Rx (s : Serial) (a c : UInt8) :
    ((usart0Rx s a c).status &&& serrfRx != 0) = (s.status &&& serrfRx != 0 || rxFails s a) := by
  have h1 := or_and_ne_zero s.status (a &&& (serrfRxsroverrun ||| serrfFrameerror)) serrfRx
  rw [rxMask_and] at h1
  unfold usart0Rx rxFails
  dsimp only
  cases hf : s.rxfifo.isfull with
  | true =>
    rw [if_pos rfl, or_and_ne_zero]
    have h2 : (serrfRxfifooverrun &&& serrfRx != 0) = true := by decide
    simp [h2]
  | false =>
    rw [if_neg (by decide), Bool.or_false]
    exact h1

theorem serGetchar_status (s : Serial) : (serGetchar s).2.status = s.status := by
  unfold serGetchar
  split_ifs <;> rfl

theorem kissPoll_ser (s : SerialSide) (now : Int32) : (kissPoll handle s now).1.ser = (serGetchar s.ser).2 := by
  unfold kissPoll
  split <;> simp_all

theorem readline_ser (s : SerialSide) : (serialreaderReadline s).1.ser = (serGetchar s.ser).2 := by
  unfold serialreaderReadline
  split <;> simp_all

theorem kissPoll_size (s : SerialSide) (now : Int32) : ∀ h ∈ (kissPoll handle s now).2, h.size ≤ 255 := by
  intro h hh
  unfold kissPoll at hh
  split at hh
  · exact absurd hh List.not_mem_nil
  · exact size_pollByte handle _ now _ h hh

/-- An error bit is set exactly when an interrupt failed since the last reset. -/
theorem status_run : ∀ (es : List SerialEvent) (s : SerialSide),
    ((s.run handle es).ser.status &&& serrfRx != 0) =
      failedSince handle s (s.ser.status &&& serrfRx != 0) es
  | [], _ => rfl
  | .rx a c :: es, s => by
    have ih := status_run es (s.step handle (.rx a c))
    rw [show (s.step handle (.rx a c)).ser = usart0Rx s.ser a c from rfl, status_usart0Rx] at ih
    exact ih
  | .reset :: es, s => by
    have ih := status_run es (s.step handle .reset)
    have h0 : (s.step handle .reset).ser.status = 0 := rfl
    rw [h0, show ((0 : UInt8) &&& serrfRx != 0) = false by decide] at ih
    exact ih
  | .kissPoll now :: es, s => by
    have ih := status_run es (s.step handle (.kissPoll now))
    rw [show (s.step handle (.kissPoll now)).ser = (kissPoll handle s now).1.ser from rfl, kissPoll_ser,
      serGetchar_status] at ih
    exact ih
  | .readline :: es, s => by
    have ih := status_run es (s.step handle .readline)
    rw [show (s.step handle .readline).ser = (serialreaderReadline s).1.ser from rfl, readline_ser,
      serGetchar_status] at ih
    exact ih
  | .purge :: es, s => by
    have ih := status_run es (s.step handle .purge)
    exact ih

theorem contents_serGetchar {s : Serial} (h : s.rxfifo.contents ≠ []) :
    (serGetchar s).2.rxfifo.contents = s.rxfifo.contents.tail ↔ (s.status &&& serrfRx != 0) = false := by
  have hne : s.rxfifo.isempty = false := by
    rw [← Bool.not_eq_true, FIFOBuffer.isempty_iff]
    exact h
  rw [serGetchar, if_neg (by rw [hne]; decide), FIFOBuffer.contents_pop hne]
  split_ifs with hs
  · simp only [List.tail_cons, bne_eq_false_iff_eq]
    rw [FIFOBuffer.contents_pop hne]
    simpa using hs
  · simpa using hs

/-- **Serial input is read until the first error.** In every state that any
interleaving of interrupts and polls reaches, with input waiting, the next
poll in either mode takes a byte exactly when no receive interrupt has
reported an error or found the FIFO full since the last `serialreader_reset`. -/
theorem serial_takes_iff (es : List SerialEvent) (now : Int32)
    (hwait : (serialBoot.run handle es).ser.rxfifo.contents ≠ []) :
    ((kissPoll handle (serialBoot.run handle es) now).1.ser.rxfifo.contents =
        (serialBoot.run handle es).ser.rxfifo.contents.tail ↔
      failedSince handle serialBoot false es = false) ∧
    ((serialreaderReadline (serialBoot.run handle es)).1.ser.rxfifo.contents =
        (serialBoot.run handle es).ser.rxfifo.contents.tail ↔
      failedSince handle serialBoot false es = false) := by
  have hstat := status_run handle es serialBoot
  rw [show (serialBoot.ser.status &&& serrfRx != 0) = false from rfl] at hstat
  rw [kissPoll_ser, readline_ser, contents_serGetchar hwait, hstat]
  exact ⟨Iff.rfl, Iff.rfl⟩

/-- A byte, and no error. -/
def rxByte : SerialEvent := .rx 0x80 0x41

theorem serial_takes_iff_one :
    (kissPoll (fun buf _ => buf) (serialBoot.run (fun buf _ => buf) [rxByte]) 0).1.ser.rxfifo.contents =
      (serialBoot.run (fun buf _ => buf) [rxByte]).ser.rxfifo.contents.tail :=
  (serial_takes_iff (fun buf _ => buf) [rxByte] 0 (by decide)).1.mpr (by decide)

/-- A burst of 32 bytes while the main loop is busy: the last one finds the
FIFO full, and from then on no poll reads anything. -/
theorem serial_wedged :
    (serialBoot.run (fun buf _ => buf) (List.replicate 32 rxByte)).ser.rxfifo.contents ≠ [] ∧
    (kissPoll (fun buf _ => buf) (serialBoot.run (fun buf _ => buf) (List.replicate 32 rxByte))
        0).1.ser.rxfifo.contents =
      (serialBoot.run (fun buf _ => buf) (List.replicate 32 rxByte)).ser.rxfifo.contents ∧
    (serialreaderReadline (serialBoot.run (fun buf _ => buf) (List.replicate 32 rxByte))).1.ser.rxfifo.contents =
      (serialBoot.run (fun buf _ => buf) (List.replicate 32 rxByte)).ser.rxfifo.contents := by
  decide +kernel

end TinyAprs
