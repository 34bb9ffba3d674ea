/-
# The KISS serial line

The model of the serial side of `net/kiss.c`: what `kiss_send_to_serial`
writes (`kissSendToSerial`), and the receiver `kissPollSerial`, which takes
one byte at a time into the reader's buffer and hands a frame to
`kiss_handle_frame` at its closing FEND. The outputs are the calls of
`kiss_handle_frame` (`Handed`).

`kiss_handle_frame` may use the reader's buffer for a reply, so it is a
parameter here: `handle buf n` is what it leaves in the buffer when it is
given the first `n` bytes of `buf` and comes back. A run of the reader
(`kissStep`) is one in which every call has come back; `KissRun` stops where a
call does not. The clock counts milliseconds, one tick each; `ticks_t` has 32
bits and wraps.
-/
import TinyAprs.Lib.Cells
import TinyAprs.Lib.Stuffing

namespace TinyAprs

open Mealy

/-- `KISS_FEND` -/
def kissFend : UInt8 := 0xc0
/-- `KISS_FESC` -/
def kissFesc : UInt8 := 0xdb
/-- `KISS_TFEND` -/
def kissTfend : UInt8 := 0xdc
/-- `KISS_TFESC` -/
def kissTfesc : UInt8 := 0xdd
/-- `READER_BUF_LEN`, in a build with `MOD_KISS`. -/
abbrev readerBufLen : UInt16 := 330

/-- `SerialReader`: the shared buffer, and how much of it is read. -/
structure SerialReader where
  buf : ℕ → UInt8
  bufLen : UInt16
  readLen : UInt8

/-- `serialreader_init` -/
def serialreaderInit : SerialReader where
  buf := fun _ => 0
  bufLen := readerBufLen
  readLen := 0

/-- `KissCtx`, with the reader it points to and the static `escaped` of
`kiss_poll_serial`. -/
structure KissCtx where
  reader : SerialReader
  rxTick : Int32
  escaped : Bool

/-- `kiss_init` -/
def kissInit (reader : SerialReader) : KissCtx where
  reader := reader
  rxTick := 0
  escaped := false

/-! ### Sending -/

/-- `_send_to_serial_begin` -/
def sendToSerialBegin (port cmd : UInt8) : List UInt8 :=
  [kissFend, ((port <<< 4) &&& 0xf0) ||| (cmd &&& 0x0f)]

/-- `_send_to_serial` -/
def sendToSerial : List UInt8 → List UInt8
  | [] => []
  | c :: buf =>
    if c = kissFend then [kissFesc, kissTfend] ++ sendToSerial buf
    else [c] ++ (if c = kissFesc then [kissTfesc] else []) ++ sendToSerial buf

/-- `_send_to_serial_end` -/
def sendToSerialEnd : List UInt8 := [kissFend]

/-- `kiss_send_to_serial` -/
def kissSendToSerial (port cmd : UInt8) (buf : List UInt8) : List UInt8 :=
  sendToSerialBegin port cmd ++ sendToSerial buf ++ sendToSerialEnd

/-- The serial line's stuffing. -/
def kissStuffing : Stuffing UInt8 where
  esc := kissFesc
  special c := c == kissFend || c == kissFesc
  sub c := if c = kissFend then kissTfend else kissTfesc

theorem kissSpecial_iff (c : UInt8) : kissStuffing.special c = true ↔ c = kissFend ∨ c = kissFesc := by
  simp [kissStuffing]

theorem kissPlain_iff (c : UInt8) : kissStuffing.special c = false ↔ c ≠ kissFend ∧ c ≠ kissFesc := by
  simp [kissStuffing]

theorem kissSub_ne (c : UInt8) : kissStuffing.sub c ≠ kissFend ∧ kissStuffing.sub c ≠ kissFesc := by
  simp only [kissStuffing]
  split_ifs <;> decide

theorem sendToSerial_eq : ∀ buf : List UInt8, sendToSerial buf = kissStuffing.encode buf
  | [] => rfl
  | c :: buf => by
    rw [sendToSerial, Stuffing.encode_cons, sendToSerial_eq buf]
    by_cases h1 : c = kissFend
    · simp [Stuffing.word, kissStuffing, h1]
    · by_cases h2 : c = kissFesc
      · subst h2; simp [Stuffing.word, kissStuffing, h1]
      · simp [Stuffing.word, kissStuffing, h1, h2]

/-! ### Receiving -/

/-- `ms_to_ticks(2000L)` -/
abbrev rxTimeout : Int32 := 2000

/-- The first sanity check: input is waiting, and none was stored lately. -/
def KissCtx.timedOut (k : KissCtx) (now : Int32) : Bool :=
  k.reader.readLen != 0 && decide (now - k.rxTick > rxTimeout)

/-- The second sanity check. `readLen` has 8 bits, `bufLen` has 16. -/
def KissCtx.tooLong (k : KissCtx) : Bool := k.reader.bufLen - 2 ≤ k.reader.readLen.toUInt16

def KissCtx.discard (k : KissCtx) : KissCtx := { k with reader.readLen := 0 }

/-- `reader->buf[reader->readLen++] = c`, and the time of it. -/
def KissCtx.store (k : KissCtx) (now : Int32) (c : UInt8) : KissCtx :=
  { k with
    reader.buf := Function.update k.reader.buf k.reader.readLen.toNat c
    reader.readLen := k.reader.readLen + 1
    rxTick := now }

/-- A call of `kiss_handle_frame`. -/
structure Handed where
  frame : ℕ → UInt8
  size : ℕ

def Handed.bytes (h : Handed) : List UInt8 := Cells.slice h.frame 0 h.size

/-- What `kiss_poll_serial` does with the byte after its sanity checks. -/
def kissPollByte (handle : (ℕ → UInt8) → ℕ → (ℕ → UInt8)) (k : KissCtx) (now : Int32) (c : UInt8) :
    KissCtx × List Handed :=
  if c = kissFend then
    if ¬ k.escaped ∧ k.reader.readLen > 0 then
      let n := k.reader.readLen.toNat
      ({ k with reader.buf := handle k.reader.buf n, reader.readLen := 0, escaped := false },
        [⟨k.reader.buf, n⟩])
    else ({ k with reader.readLen := 0, escaped := false }, [])
  else if c = kissFesc then ({ k with escaped := true }, [])
  else if c = kissTfesc then
    if k.escaped then ({ k with escaped := false }.store now kissFesc, []) else (k.store now c, [])
  else if c = kissTfend then
    if k.escaped then ({ k with escaped := false }.store now kissFend, []) else (k.store now c, [])
  else if k.escaped then ({ k with escaped := false }.store now c, [])
  else (k.store now c, [])

/-- `kiss_poll_serial`, for a byte `c` read at the time `now`. -/
def kissPollSerial (handle : (ℕ → UInt8) → ℕ → (ℕ → UInt8)) (k : KissCtx) (now : Int32) (c : UInt8) :
    KissCtx × List Handed :=
  let k := if k.timedOut now then k.discard else k
  let k := if k.tooLong then k.discard else k
  kissPollByte handle k now c

/-- A byte of the serial line and the clock when it is polled. -/
abbrev Timed : Type := ℕ × UInt8

/-- The receiver, byte by byte, as long as the calls come back. -/
def kissStep (handle : (ℕ → UInt8) → ℕ → (ℕ → UInt8)) (k : KissCtx) (x : Timed) :
    KissCtx × List Handed :=
  kissPollSerial handle k (Int32.ofNat x.1) x.2

/-- The frames handed over while the receiver reads `s`. -/
def framesHanded (handle : (ℕ → UInt8) → ℕ → (ℕ → UInt8)) (k : KissCtx) (s : List Timed) :
    List (List UInt8) :=
  (outs (kissStep handle) k s).map Handed.bytes

/-- Every byte comes at most two seconds after the one before it. -/
def NoGap (s : List Timed) : Prop := s.IsChain fun x y => x.1 ≤ y.1 ∧ y.1 ≤ x.1 + 2000

/-! ### What a step does to the frame read so far -/

/-- The bytes of a frame read so far, and whether an escape is pending: what
a byte other than FEND makes of them. -/
def unescStep (s : List UInt8 × Bool) (c : UInt8) : List UInt8 × Bool :=
  if c = kissFesc then (s.1, true)
  else if s.2 = true ∧ c = kissTfesc then (s.1 ++ [kissFesc], false)
  else if s.2 = true ∧ c = kissTfend then (s.1 ++ [kissFend], false)
  else (s.1 ++ [c], false)

theorem unescStep_plain {c : UInt8} (hc : kissStuffing.special c = false) (g : List UInt8) :
    unescStep (g, false) c = (g ++ [c], false) := by
  simp [unescStep, ((kissPlain_iff c).mp hc).2]

theorem unescStep_sub {c : UInt8} (hc : kissStuffing.special c = true) (g : List UInt8) :
    unescStep (g, true) (kissStuffing.sub c) = (g ++ [c], false) := by
  rcases (kissSpecial_iff c).mp hc with rfl | rfl <;> rfl

/-- The unescaped content of the bytes between two FENDs. -/
def unescape (seg : List UInt8) : List UInt8 := (seg.foldl unescStep ([], false)).1

/-- The receiver holds the bytes `s.1` of a frame, with an escape pending or
not. -/
structure Held (s : List UInt8 × Bool) (k : KissCtx) : Prop where
  bufLen : k.reader.bufLen = readerBufLen
  readLen : k.reader.readLen.toNat = s.1.length
  buf : Cells.At k.reader.buf 0 s.1
  escaped : k.escaped = s.2

/-- The overflow check never fires: 8 bits do not reach 328. -/
theorem not_tooLong {k : KissCtx} (h : k.reader.bufLen = readerBufLen) : k.tooLong = false := by
  have hlt := k.reader.readLen.toNat_lt
  simp only [KissCtx.tooLong, h, decide_eq_false_iff_not, UInt16.le_iff_toNat_le, UInt8.toNat_toUInt16]
  show ¬ 328 ≤ k.reader.readLen.toNat
  omega

/-- The frame a step starts from: nothing, if it timed out. -/
def kept (k : KissCtx) (now : Int32) (s : List UInt8 × Bool) : List UInt8 × Bool :=
  if k.timedOut now then ([], s.2) else s

variable (handle : (ℕ → UInt8) → ℕ → (ℕ → UInt8)) {k : KissCtx} {s : List UInt8 × Bool}

theorem framesHanded_cons (k : KissCtx) (x : Timed) (s : List Timed) :
    framesHanded handle k (x :: s) =
      (kissStep handle k x).2.map Handed.bytes ++ framesHanded handle (kissStep handle k x).1 s := by
  rw [framesHanded, outs_cons, List.map_append, framesHanded]

theorem framesHanded_append (k : KissCtx) (s₁ s₂ : List Timed) :
    framesHanded handle k (s₁ ++ s₂) =
      framesHanded handle k s₁ ++ framesHanded handle (final (kissStep handle) k s₁) s₂ := by
  rw [framesHanded, outs_append, List.map_append, framesHanded, framesHanded]

theorem framesHanded_snoc (k : KissCtx) (s : List Timed) (x : Timed) :
    framesHanded handle k (s ++ [x]) =
      framesHanded handle k s ++ (kissStep handle (final (kissStep handle) k s) x).2.map Handed.bytes := by
  rw [framesHanded_append, framesHanded_cons, framesHanded, framesHanded, outs_nil, List.map_nil,
    List.append_nil]

theorem Held.discard (h : Held s k) : Held ([], s.2) k.discard :=
  ⟨h.bufLen, rfl, Cells.at_nil _ _, h.escaped⟩

theorem Held.poll (h : Held s k) (now : Int32) (c : UInt8) :
    ∃ k', Held (kept k now s) k' ∧ kissPollSerial handle k now c = kissPollByte handle k' now c := by
  by_cases ht : k.timedOut now
  · refine ⟨k.discard, ?_, ?_⟩
    · rw [kept, if_pos ht]; exact h.discard
    · simp [kissPollSerial, ht, not_tooLong h.discard.bufLen]
  · refine ⟨k, ?_, ?_⟩
    · rw [kept, if_neg ht]; exact h
    · simp [kissPollSerial, ht, not_tooLong h.bufLen]

/-- A byte is stored behind the frame, as long as `readLen` can count it. -/
theorem Held.store (h : Held s k) (now : Int32) (c : UInt8) (hroom : s.1.length < 255) :
    Held (s.1 ++ [c], false) ({ k with escaped := false }.store now c) := by
  refine ⟨h.bufLen, ?_, ?_, rfl⟩
  · show (k.reader.readLen + 1).toNat = _
    rw [Cells.toNat_succ (by rw [h.readLen]; exact hroom), h.readLen, List.length_append, List.length_singleton]
  · have := h.buf.snoc c
    rw [Nat.zero_add, ← h.readLen] at this
    exact this

theorem Held.byte (h : Held s k) (now : Int32) {c : UInt8} (hc : c ≠ kissFend)
    (hroom : c = kissFesc ∨ s.1.length < 255) :
    Held (unescStep s c) (kissPollByte handle k now c).1 ∧ (kissPollByte handle k now c).2 = [] := by
  unfold kissPollByte unescStep
  rw [if_neg hc]
  by_cases h1 : c = kissFesc
  · rw [if_pos h1, if_pos h1]
    exact ⟨⟨h.bufLen, h.readLen, h.buf, rfl⟩, rfl⟩
  · have hstore := fun b => h.store now b (hroom.resolve_left h1)
    rw [if_neg h1, if_neg h1]
    cases he : s.2 with
    | true =>
      have hk : k.escaped = true := by rw [h.escaped, he]
      by_cases h2 : c = kissTfesc
      · simpa [hk, h2] using hstore kissFesc
      · by_cases h3 : c = kissTfend
        · subst h3; simpa [hk, h2] using hstore kissFend
        · simpa [hk, h2, h3] using hstore c
    | false =>
      have hk : k.escaped = false := by rw [h.escaped, he]
      have hk' : { k with escaped := false } = k := by rw [← hk]
      have := hstore c
      rw [hk'] at this
      simpa [hk] using this

/-- A FEND hands over the frame, if it is not empty and no escape is pending,
and starts the next one. -/
theorem Held.fend (h : Held s k) (now : Int32) :
    Held ([], false) (kissPollByte handle k now kissFend).1 ∧
      (kissPollByte handle k now kissFend).2.map Handed.bytes =
        if s.2 = false ∧ s.1 ≠ [] then [s.1] else [] := by
  have hpos : k.reader.readLen > 0 ↔ s.1 ≠ [] := by
    rw [gt_iff_lt, UInt8.lt_iff_toNat_lt, h.readLen, UInt8.toNat_zero, List.length_pos_iff]
  have hif : (¬ k.escaped = true ∧ k.reader.readLen > 0) ↔ (s.2 = false ∧ s.1 ≠ []) := by
    rw [hpos, h.escaped, Bool.not_eq_true]
  unfold kissPollByte
  rw [if_pos rfl]
  by_cases hs : s.2 = false ∧ s.1 ≠ []
  · rw [if_pos (hif.mpr hs), if_pos hs, h.readLen]
    exact ⟨⟨h.bufLen, rfl, Cells.at_nil _ _, rfl⟩, congrArg (fun l => [l]) h.buf⟩
  · rw [if_neg (mt hif.mp hs), if_neg hs]
    exact ⟨⟨h.bufLen, rfl, Cells.at_nil _ _, rfl⟩, rfl⟩

theorem Held.step (h : Held s k) (now : Int32) {c : UInt8} (hc : c ≠ kissFend)
    (hroom : c = kissFesc ∨ (kept k now s).1.length < 255) :
    Held (unescStep (kept k now s) c) (kissPollSerial handle k now c).1 ∧
      (kissPollSerial handle k now c).2 = [] := by
  obtain ⟨k', h1, he⟩ := h.poll handle now c
  rw [he]
  exact h1.byte handle now hc hroom

theorem Held.stepFend (h : Held s k) (now : Int32) :
    Held ([], false) (kissPollSerial handle k now kissFend).1 ∧
      (kissPollSerial handle k now kissFend).2.map Handed.bytes =
        if s.2 = false ∧ (kept k now s).1 ≠ [] then [(kept k now s).1] else [] := by
  obtain ⟨k', h1, he⟩ := h.poll handle now kissFend
  have hesc : (kept k now s).2 = s.2 := by unfold kept; split_ifs <;> rfl
  rw [he, ← hesc]
  exact h1.fend handle now

theorem held_fend (hbuf : k.reader.bufLen = readerBufLen) (now : Int32) :
    Held ([], false) (kissPollSerial handle k now kissFend).1 := by
  have hmid : ∀ k' : KissCtx, k'.reader.bufLen = readerBufLen →
      Held ([], false) (kissPollByte handle k' now kissFend).1 := by
    intro k' hk'
    unfold kissPollByte
    rw [if_pos rfl]
    split_ifs
    · exact ⟨hk', rfl, Cells.at_nil _ _, rfl⟩
    · exact ⟨hk', rfl, Cells.at_nil _ _, rfl⟩
  unfold kissPollSerial
  refine hmid _ ?_
  split_ifs <;> exact hbuf

theorem size_pollByte (k : KissCtx) (now : Int32) (c : UInt8) :
    ∀ h ∈ (kissPollByte handle k now c).2, h.size ≤ 255 := by
  intro h hh
  have hlt := k.reader.readLen.toNat_lt
  unfold kissPollByte at hh
  split_ifs at hh
  · obtain rfl := List.mem_singleton.mp hh
    show k.reader.readLen.toNat ≤ 255
    omega
  all_goals exact absurd hh List.not_mem_nil

theorem size_handed (k : KissCtx) (s : List Timed) : ∀ h ∈ outs (kissStep handle) k s, h.size ≤ 255 :=
  outs_forall (kissStep handle) (fun _ => True) (fun _ _ _ => ⟨trivial, size_pollByte handle _ _ _⟩)
    k s trivial

end TinyAprs
