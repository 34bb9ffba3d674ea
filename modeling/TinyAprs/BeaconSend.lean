/-
# What a beacon sends

The model of `ax25_sendVia` (`ax25.c`) and of `beacon_send` and its callers
in `beacon.c`: a payload goes out under the stored call data, with as many of
the path's calls as are set.
-/
import TinyAprs.Ax25Frame
import TinyAprs.Console
import TinyAprs.KissCmd

namespace TinyAprs

/-- The calls of `ax25_sendVia`; the last one closes the address field. -/
def ax25SendCalls (ctx : AX25Ctx) : List AX25Call → AX25Ctx × List UInt8
  | [] => (ctx, [])
  | a :: path =>
    let r := ax25SendCall ctx a path.isEmpty false
    let q := ax25SendCalls r.1 path
    (q.1, r.2 ++ q.2)

/-- `ax25_sendVia` -/
def ax25SendVia (ctx : AX25Ctx) (path : List AX25Call) (buf : List UInt8) : AX25Ctx × List UInt8 :=
  let ctx := { ctx with crcOut := crcCcittInitVal }
  let r1 := ax25SendCalls ctx path
  let r2 := ax25Puts r1.1 [ax25CtrlUi, ax25PidNolayer3]
  let r3 := ax25Puts r2.1 buf
  let r4 := ax25SendCrc r3.1
  (r4.1.txDone, [hdlcFlag] ++ r1.2 ++ r2.2 ++ r3.2 ++ r4.2 ++ [hdlcFlag])

/-- `call[0] > 0`; a `char` is signed. -/
def callSet (a : AX25Call) : Bool := decide (a.call[0].toInt8 > 0)

/-- `pathCount` of `beacon_send` -/
def pathCount (c : CallData) : ℕ := 2 + (if callSet c.path1 then 1 else 0) + (if callSet c.path2 then 1 else 0)

/-- `beacon_send` -/
def beaconSend (t : Tnc) (payload : List UInt8) : Tnc × List UInt8 :=
  let c := settingsGetCallData t.eeprom
  let r := ax25SendVia t.modem ([c.destCall, c.myCall, c.path1, c.path2].take (pathCount c)) payload
  ({ t with modem := r.1 }, r.2)

/-- `_send_fixed_text`; the payload is a local array. -/
def sendFixedText (t : Tnc) : Tnc × List UInt8 :=
  let r := settingsGetBeaconText t.eeprom (fun _ => 0) 127
  if r.1 > 0 then beaconSend t (Cells.slice r.2 0 r.1.toNat) else (t, [])

/-- `beacon_send_test_message_immediate` -/
def beaconSendTestMessageImmediate (t : Tnc) : ℕ → Tnc × List UInt8
  | 0 => (t, [])
  | n + 1 =>
    let r := sendFixedText t
    let q := beaconSendTestMessageImmediate r.1 n
    (q.1, r.2 ++ q.2)

/-- `repeats` of `cmd_test_send`, a `uint8_t`; `DEFAULT_REPEATS` is 3. -/
def testRepeats (command : List UInt8) : ℕ :=
  let repeats := if command.length > 0 then (atoi (cString command)).toUInt16.toUInt8 else 0
  if repeats = 0 ∨ repeats > 99 then 3 else repeats.toNat

/-- `cmd_test_send` -/
def cmdTestSend (t : Tnc) (command : List UInt8) : Tnc × List UInt8 :=
  beaconSendTestMessageImmediate t (testRepeats command)

/-! ### Sending does not touch the receiver's mode -/

@[simp] theorem ax25Puts_passThrough (ctx : AX25Ctx) (cs : List UInt8) :
    (ax25Puts ctx cs).1.passThrough = ctx.passThrough := by
  rw [ax25Puts_eq]

@[simp] theorem ax25SendCalls_passThrough : ∀ (path : List AX25Call) (ctx : AX25Ctx),
    (ax25SendCalls ctx path).1.passThrough = ctx.passThrough
  | [], _ => rfl
  | a :: path, ctx => by
    unfold ax25SendCalls
    exact (ax25SendCalls_passThrough path _).trans (ax25Puts_passThrough ctx _)

@[simp] theorem txDone_passThrough (ctx : AX25Ctx) : ctx.txDone.passThrough = ctx.passThrough := rfl

@[simp] theorem ax25SendVia_passThrough (ctx : AX25Ctx) (path : List AX25Call) (buf : List UInt8) :
    (ax25SendVia ctx path buf).1.passThrough = ctx.passThrough := by
  simp [ax25SendVia, ax25SendCrc]

@[simp] theorem ax25SendRaw_passThrough (ctx : AX25Ctx) (buf : List UInt8) :
    (ax25SendRaw ctx buf).1.passThrough = ctx.passThrough := by
  simp [ax25SendRaw, ax25SendCrc]

@[simp] theorem ax25SendMsg_passThrough (ctx : AX25Ctx) (msg : AX25Msg) :
    (ax25SendMsg ctx msg).1.passThrough = ctx.passThrough := by
  unfold ax25SendMsg
  split_ifs
  · rfl
  · simp [ax25SendCall, ax25SendCrc, ax25SendPath_eq]

theorem sendFixedText_passThrough (t : Tnc) :
    (sendFixedText t).1.modem.passThrough = t.modem.passThrough := by
  unfold sendFixedText
  dsimp only
  split_ifs
  · exact ax25SendVia_passThrough t.modem _ _
  · rfl

theorem beaconSendTest_passThrough : ∀ (n : ℕ) (t : Tnc),
    (beaconSendTestMessageImmediate t n).1.modem.passThrough = t.modem.passThrough
  | 0, _ => rfl
  | n + 1, t => by
    unfold beaconSendTestMessageImmediate
    exact (beaconSendTest_passThrough n _).trans (sendFixedText_passThrough t)

end TinyAprs
