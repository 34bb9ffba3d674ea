/-
# AX.25 frames

The model of `bertos/net/ax25.c`: the channel bytes of an outgoing frame
(`ax25Putchar`, `ax25SendCall`, `ax25SendMsg`, `ax25SendRaw`), and the
receiver `ax25Poll`, whose loop body `ax25PollChar` takes one channel byte
at a time, with the message decoder `ax25Decode`. A write to the channel is
the list of bytes written; a call of the hook is a `HookCall`, the context as
the hook finds it and the message it is given (`none` for `NULL`).

`buf` is the array `ctx->buf` as a function of the index. `ax25Decode` reads
it without looking at `frm_len`, and so does the model. The decoder's `msg`
is an uninitialised local: `stk` is what its memory holds before.
-/
import TinyAprs.Crc
import TinyAprs.Lib.Cells
import TinyAprs.Lib.Stuffing

namespace TinyAprs

open Mealy

/-- `HDLC_FLAG` -/
def hdlcFlag : UInt8 := 0x7E
/-- `HDLC_RESET` -/
def hdlcReset : UInt8 := 0x7F
/-- `AX25_ESC` -/
def ax25Esc : UInt8 := 0x1B
/-- `AX25_CTRL_UI` -/
def ax25CtrlUi : UInt8 := 0x03
/-- `AX25_PID_NOLAYER3` -/
def ax25PidNolayer3 : UInt8 := 0xF0
/-- `AX25_CRC_CORRECT` -/
def ax25CrcCorrect : UInt16 := 0xF0B8
/-- `AX25_MIN_FRAME_LEN` -/
abbrev ax25MinFrameLen : ℕ := 18
/-- `CONFIG_AX25_FRAME_BUF_LEN` -/
abbrev configAx25FrameBufLen : ℕ := 330
/-- `AX25_MAX_RPT` -/
abbrev ax25MaxRpt : ℕ := 8

/-- `AX25Call`: six characters, padded with NUL, and the SSID. -/
structure AX25Call where
  call : Vector UInt8 6
  ssid : UInt8
deriving DecidableEq, Repr

/-- A pointer: the memory it points into and the offset there. -/
structure Ptr where
  mem : ℕ → UInt8
  off : ℕ

/-- The `n` bytes a pointer points at. -/
def Ptr.bytes (p : Ptr) (n : ℕ) : List UInt8 := Cells.slice p.mem p.off n

/-- `AX25Msg` -/
structure AX25Msg where
  src : AX25Call
  dst : AX25Call
  rptLst : ℕ → AX25Call
  rptCnt : ℕ
  rptFlags : UInt8
  ctrl : UInt16
  pid : UInt8
  info : Ptr
  len : ℕ

/-- What an uninitialised message may hold. -/
def zeroMsg : AX25Msg :=
  ⟨⟨.replicate 6 0, 0⟩, ⟨.replicate 6 0, 0⟩, fun _ => ⟨.replicate 6 0, 0⟩, 0, 0, 0, 0, ⟨fun _ => 0, 0⟩, 0⟩

/-- `BV`, cut to the byte it is combined with. -/
def bv (i : ℕ) : UInt8 := UInt8.ofNat (2 ^ i)

/-- `AX25_REPEATED` -/
def ax25Repeated (msg : AX25Msg) (i : ℕ) : Bool := msg.rptFlags &&& bv i != 0

/-- `AX25_SET_REPEATED`, on the flags. -/
def setRepeated (flags : UInt8) (i : ℕ) (val : Bool) : UInt8 :=
  if val then flags ||| bv i else flags &&& ~~~ bv i

/-- `AX25Stat` -/
structure AX25Stat where
  rxOk : UInt32
  txOk : UInt32
  rxErr : UInt32

/-- `AX25Ctx`; `hook` says whether a callback is set. -/
structure AX25Ctx where
  buf : ℕ → UInt8
  frmLen : ℕ
  crcIn : UInt16
  crcOut : UInt16
  hook : Bool
  passThrough : Bool
  sync : Bool
  escape : Bool
  dcdState : UInt8
  dcd : Bool
  stat : AX25Stat

/-- `ax25_init` -/
def ax25Init (hook : Bool) : AX25Ctx where
  buf := fun _ => 0
  frmLen := 0
  crcIn := crcCcittInitVal
  crcOut := crcCcittInitVal
  hook := hook
  passThrough := false
  sync := false
  escape := false
  dcdState := 0
  dcd := false
  stat := ⟨0, 0, 0⟩

/-! ### Sending -/

/-- The channel's stuffing: a flag, a reset or an escape in the data is sent
behind an escape. -/
def ax25Stuffing : Stuffing UInt8 where
  esc := ax25Esc
  special c := c == hdlcFlag || c == hdlcReset || c == ax25Esc
  sub c := c

theorem special_iff (c : UInt8) :
    ax25Stuffing.special c = true ↔ c = hdlcFlag ∨ c = hdlcReset ∨ c = ax25Esc := by
  simp [ax25Stuffing, or_assoc]

/-- `ax25_putchar` -/
def ax25Putchar (ctx : AX25Ctx) (c : UInt8) : AX25Ctx × List UInt8 :=
  ({ ctx with crcOut := updcrcCcitt c ctx.crcOut },
    (if c == hdlcFlag || c == hdlcReset || c == ax25Esc then [ax25Esc] else []) ++ [c])

/-- A loop of `ax25_putchar`. -/
def ax25Puts (ctx : AX25Ctx) (cs : List UInt8) : AX25Ctx × List UInt8 :=
  (final ax25Putchar ctx cs, outs ax25Putchar ctx cs)

/-- `toupper` -/
def toupper (c : UInt8) : UInt8 := if 0x61 ≤ c ∧ c ≤ 0x7a then c - 0x20 else c

/-- The characters `strlen` counts, up to the size of the array. -/
def cstr (call : Vector UInt8 6) : List UInt8 := call.toList.takeWhile (· != 0)

/-- The SSID byte of `ax25_sendCall`. -/
def ssidByte (ssid : UInt8) (last repeated : Bool) : UInt8 :=
  let b := (0x60 : UInt8) ||| (ssid <<< 1) ||| (if last then 0x01 else 0)
  if repeated then b ||| 0x80 else b

/-- The six characters `ax25_sendCall` puts: those of the call in upper case,
then spaces, all shifted. -/
def callChars (addr : AX25Call) : List UInt8 :=
  (cstr addr.call).map (fun c => toupper c <<< 1) ++
    List.replicate (6 - (cstr addr.call).length) ((0x20 : UInt8) <<< 1)

/-- The seven bytes of an address. -/
def callBytes (addr : AX25Call) (last repeated : Bool) : List UInt8 :=
  callChars addr ++ [ssidByte addr.ssid last repeated]

/-- `ax25_sendCall` -/
def ax25SendCall (ctx : AX25Ctx) (addr : AX25Call) (last repeated : Bool) : AX25Ctx × List UInt8 :=
  ax25Puts ctx (callBytes addr last repeated)

/-- The path loop of `ax25_sendMsg`, from entry `i` with `n` entries left. -/
def ax25SendPath (ctx : AX25Ctx) (msg : AX25Msg) : ℕ → ℕ → AX25Ctx × List UInt8
  | _, 0 => (ctx, [])
  | i, n + 1 =>
    let r := ax25SendCall ctx (msg.rptLst i) (i == msg.rptCnt - 1) (ax25Repeated msg i)
    let q := ax25SendPath r.1 msg (i + 1) n
    (q.1, r.2 ++ q.2)

/-- The two CRC bytes, sent in reverse order. -/
def ax25SendCrc (ctx : AX25Ctx) : AX25Ctx × List UInt8 :=
  ax25Puts ctx [crcLow ctx.crcOut, crcHigh ctx.crcOut]

def AX25Ctx.txDone (ctx : AX25Ctx) : AX25Ctx := { ctx with stat.txOk := ctx.stat.txOk + 1 }

/-- `ax25_sendMsg` -/
def ax25SendMsg (ctx : AX25Ctx) (msg : AX25Msg) : AX25Ctx × List UInt8 :=
  if msg.rptCnt = 0 ∨ msg.len = 0 then (ctx, [])
  else
    let ctx := { ctx with crcOut := crcCcittInitVal }
    let r1 := ax25SendCall ctx msg.dst false false
    let r2 := ax25SendCall r1.1 msg.src false false
    let r3 := ax25SendPath r2.1 msg 0 msg.rptCnt
    let r4 := ax25Puts r3.1 [ax25CtrlUi, ax25PidNolayer3]
    let r5 := ax25Puts r4.1 (msg.info.bytes msg.len)
    let r6 := ax25SendCrc r5.1
    (r6.1.txDone, [hdlcFlag] ++ r1.2 ++ r2.2 ++ r3.2 ++ r4.2 ++ r5.2 ++ r6.2 ++ [hdlcFlag])

/-- `ax25_sendRaw` -/
def ax25SendRaw (ctx : AX25Ctx) (buf : List UInt8) : AX25Ctx × List UInt8 :=
  let ctx := { ctx with crcOut := crcCcittInitVal }
  let r1 := ax25Puts ctx buf
  let r2 := ax25SendCrc r1.1
  (r2.1.txDone, [hdlcFlag] ++ r1.2 ++ r2.2 ++ [hdlcFlag])

/-! ### Decoding a message -/

/-- A character of `DECODE_CALL`: shifted back, a space is a NUL. -/
def decodeChar (b : UInt8) : UInt8 := if b >>> 1 = 0x20 then 0 else b >>> 1

/-- `DECODE_CALL` -/
def decodeCall (buf : ℕ → UInt8) (p : ℕ) : Vector UInt8 6 :=
  Vector.ofFn fun i => decodeChar (buf (p + i))

/-- The SSID in an address's seventh byte. -/
def decodeSsid (b : UInt8) : UInt8 := (b >>> 1) &&& 0x0F

/-- The body of the repeater loop: the address behind the SSID byte at `p`
becomes entry `rpt_cnt`, which the loop then increments. -/
def decodeRptAddr (buf : ℕ → UInt8) (p : ℕ) (msg : AX25Msg) : AX25Msg :=
  { msg with
    rptLst := Function.update msg.rptLst msg.rptCnt ⟨decodeCall buf (p + 1), decodeSsid (buf (p + 7))⟩
    rptFlags := setRepeated msg.rptFlags msg.rptCnt (buf (p + 7) &&& 0x80 != 0)
    rptCnt := msg.rptCnt + 1 }

/-- The repeater loop of `ax25_decode`: `p` is the SSID byte of the address
just read, `n` the places left in `rpt_lst`. The loop condition reads `*buf++`
before it looks at `rpt_cnt`. -/
def decodeRpt (buf : ℕ → UInt8) : ℕ → ℕ → AX25Msg → ℕ × AX25Msg
  | 0, p, msg => (p + 1, msg)
  | n + 1, p, msg =>
    if buf p &&& 0x01 = 0 then decodeRpt buf n (p + 7) (decodeRptAddr buf p msg) else (p + 1, msg)

/-- The two addresses every frame has; `rpt_cnt` starts at 0. -/
def decodeHead (stk : AX25Msg) (buf : ℕ → UInt8) : AX25Msg :=
  { stk with
    dst := ⟨decodeCall buf 0, decodeSsid (buf 6)⟩
    src := ⟨decodeCall buf 7, decodeSsid (buf 13)⟩
    rptCnt := 0 }

/-- `ax25_decode`: the message the hook gets, if it is a UI frame without
layer 3. `size_t` has 16 bits: a length below zero wraps. -/
def ax25Decode (stk : AX25Msg) (ctx : AX25Ctx) : Option AX25Msg :=
  let r := decodeRpt ctx.buf ax25MaxRpt 13 (decodeHead stk ctx.buf)
  if ctx.buf r.1 ≠ ax25CtrlUi then none
  else if ctx.buf (r.1 + 1) ≠ ax25PidNolayer3 then none
  else some { r.2 with
    ctrl := (ctx.buf r.1).toUInt16
    pid := ctx.buf (r.1 + 1)
    len := (2 ^ 16 + ctx.frmLen - 2 - (r.1 + 2)) % 2 ^ 16
    info := ⟨ctx.buf, r.1 + 2⟩ }

/-! ### Receiving -/

/-- A call of `ctx->hook`: the context at the call, and the argument. -/
structure HookCall where
  ctx : AX25Ctx
  msg : Option AX25Msg

/-- The frame found branch of `ax25_poll`: who is told. -/
def ax25Deliver (stk : AX25Msg) (ctx : AX25Ctx) : List HookCall :=
  if ctx.hook then
    if ctx.passThrough then [⟨ctx, none⟩]
    else match ax25Decode stk ctx with
      | some msg => [⟨ctx, some msg⟩]
      | none => []
  else []

/-- An unescaped flag: the frame so far is checked and a new one begins. -/
def ax25PollFlag (stk : AX25Msg) (ctx : AX25Ctx) : AX25Ctx × List HookCall :=
  let r :=
    if ctx.frmLen ≥ ax25MinFrameLen then
      if ctx.crcIn = ax25CrcCorrect then
        let ctx := { ctx with stat.rxOk := ctx.stat.rxOk + 1 }
        (ctx, ax25Deliver stk ctx)
      else ({ ctx with stat.rxErr := ctx.stat.rxErr + 1 }, [])
    else (ctx, [])
  ({ r.1 with sync := true, crcIn := crcCcittInitVal, frmLen := 0, dcdState := 0, dcd := false }, r.2)

/-- The carrier detection on a stored byte. -/
def AX25Ctx.dcdByte (ctx : AX25Ctx) (c : UInt8) : AX25Ctx :=
  let ctx := if ctx.dcdState = 1 ∧ c = ax25PidNolayer3 then
    { ctx with dcdState := ctx.dcdState + 1, dcd := true } else ctx
  if ctx.dcdState = 0 ∧ c = ax25CtrlUi then { ctx with dcdState := ctx.dcdState + 1 } else ctx

/-- A data byte of the frame. -/
def ax25PollData (ctx : AX25Ctx) (c : UInt8) : AX25Ctx :=
  if ctx.sync then
    if ctx.frmLen < configAx25FrameBufLen then
      { ctx with
        buf := Function.update ctx.buf ctx.frmLen c
        frmLen := ctx.frmLen + 1
        crcIn := updcrcCcitt c ctx.crcIn }.dcdByte c
    else { ctx with sync := false, dcd := false, stat.rxErr := ctx.stat.rxErr + 1 }
  else ctx

/-- The loop body of `ax25_poll`, for the character `c` read from the
channel. -/
def ax25PollChar (stk : AX25Msg) (ctx : AX25Ctx) (c : UInt8) : AX25Ctx × List HookCall :=
  if ¬ ctx.escape ∧ c = hdlcFlag then ax25PollFlag stk ctx
  else if ¬ ctx.escape ∧ c = hdlcReset then ({ ctx with sync := false, dcd := false }, [])
  else if ¬ ctx.escape ∧ c = ax25Esc then ({ ctx with escape := true }, [])
  else ({ ax25PollData ctx c with escape := false }, [])

/-- `ax25_poll`, for the characters the channel holds and whether it reports
an error after them. -/
def ax25Poll (stk : AX25Msg) (ctx : AX25Ctx) (cs : List UInt8) (error : Bool) :
    AX25Ctx × List HookCall :=
  let ctx' := final (ax25PollChar stk) ctx cs
  (if error then
    { ctx' with
      stat.rxErr := if ctx'.dcd then ctx'.stat.rxErr + 1 else ctx'.stat.rxErr
      dcd := false }
  else ctx', outs (ax25PollChar stk) ctx cs)

end TinyAprs
