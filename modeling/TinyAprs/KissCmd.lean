/-
# KISS frames, handled

The model of `kiss_handle_frame` in `net/kiss.c` and all it calls: a data
frame goes to the radio after the CSMA check (`kissSendToModem`), a config
frame with a good checksum reads or writes the settings. A call's `Effect`
is what it changes and what it writes to the serial line and to the radio
channel; `none` is a call that does not come back, because it still waits
for a free channel or a checksum loop does not end.

What the CSMA loop sees is a list of `Turn`s, one a round: no carrier, with
the number `rand` gave, or a carrier, with the `ax25_poll`s made meanwhile.
-/
import TinyAprs.Settings
import TinyAprs.Kiss

namespace TinyAprs

open Mealy

def kissCmdData : UInt8 := 0x00
def kissCmdConfigText : UInt8 := 0x0B
def kissCmdConfigCall : UInt8 := 0x0C
def kissCmdConfigParams : UInt8 := 0x0D
def kissCmdConfigMagic : UInt8 := 0x0F
def kissCmdReturn : UInt8 := 0xFF

/-- `VERS_BUILD` -/
def versBuild : UInt16 := 2332

/-- What a handled frame works on: `g_settings`, the EEPROM, and the modem. -/
structure Tnc where
  settings : SettingsData
  eeprom : Eeprom
  modem : AX25Ctx

/-- What a handled frame does; `reset` says that it ended in `soft_reset`. -/
structure Effect where
  tnc : Tnc
  buf : ℕ → UInt8
  serial : List UInt8
  air : List UInt8
  reset : Bool

/-! ### To the radio -/

/-- `ax25_msg_callback` in KISS mode: the frame goes out on the serial line. -/
def ax25MsgCallback (call : HookCall) : List UInt8 :=
  kissSendToSerial 0 0 (Cells.slice call.ctx.buf 0 (call.ctx.frmLen - 2))

/-- A round of the loop that waits for the carrier to go: what `ax25_poll`
finds, and whether the modem then reports an error. -/
structure Poll where
  stk : AX25Msg
  chars : List UInt8
  error : Bool
  status : Bool

inductive Turn
  | idle (i : UInt16)
  | busy (polls : List Poll)

/-- The loop that waits while there is a carrier: the modem and the serial
line after it, and whether the packet was dropped. -/
def csmaBusy (modem : AX25Ctx) : List Poll → AX25Ctx × List UInt8 × Bool
  | [] => (modem, [], false)
  | p :: ps =>
    let r := ax25Poll p.stk modem p.chars p.error
    let serial := r.2.flatMap ax25MsgCallback
    if p.status then (r.1, serial, true)
    else
      let q := csmaBusy r.1 ps
      (q.1, serial ++ q.2.1, q.2.2)

/-- `tp` of the CSMA loop. -/
def csmaTp (i : UInt16) : UInt8 := ((i >>> 8) ^^^ (i &&& 0xff)).toUInt8

/-- The CSMA loop up to where the packet is sent or dropped: the modem and
the serial line then, and whether it is sent. -/
def csma (persistence : UInt8) (modem : AX25Ctx) : List Turn → Option (AX25Ctx × List UInt8 × Bool)
  | [] => none
  | .idle i :: turns => if csmaTp i < persistence then some (modem, [], true) else csma persistence modem turns
  | .busy polls :: turns =>
    let r := csmaBusy modem polls
    if r.2.2 then some (r.1, r.2.1, false)
    else (csma persistence r.1 turns).map fun q => (q.1, r.2.1 ++ q.2.1, q.2.2)

/-- Whether `kiss_send_to_modem` calls `ax25_sendRaw`, with the modem and the
serial line then; `none` while it waits. -/
def kissChannel (t : Tnc) (turns : List Turn) : Option (AX25Ctx × List UInt8 × Bool) :=
  if t.settings.rf.duplex = rfDuplexFull then some (t.modem, [], true)
  else csma t.settings.rf.persistence t.modem turns

/-- `kiss_send_to_modem` -/
def kissSendToModem (t : Tnc) (turns : List Turn) (rbuf : ℕ → UInt8) (buf : List UInt8) : Option Effect := do
  let (modem, serial, send) ← kissChannel t turns
  if send then
    let r := ax25SendRaw modem buf
    some ⟨{ t with modem := r.1 }, rbuf, serial, r.2, false⟩
  else some ⟨{ t with modem := modem }, rbuf, serial, [], false⟩

/-! ### Config frames -/

/-- `verify_config_data` -/
def verifyConfigData (frame : List UInt8) : Option Bool := do
  if frame.length = 0 then some false
  else
    let len := frame.length - 1
    let crc ← calcCrc (frame.take len)
    some (frame.getD len 0 == crc)

/-- The reply to a command: the data and its checksum. -/
def kissRespond (cmd : UInt8) (data : List UInt8) : Option (List UInt8) := do
  let crc ← calcCrc data
  some (sendToSerialBegin 0 cmd ++ sendToSerial data ++ sendToSerial [crc] ++ sendToSerialEnd)

/-- `kiss_respond_config_magic_cmd` -/
def kissRespondConfigMagicCmd (data : List UInt8) : Option (List UInt8) := kissRespond kissCmdConfigMagic data

/-- `KISS_SERIAL_RESPOND_OK` -/
def kissSerialRespondOk : Option (List UInt8) := kissRespondConfigMagicCmd []

/-- Nothing but a reply. -/
def Effect.reply (t : Tnc) (buf : ℕ → UInt8) (serial : List UInt8) : Effect := ⟨t, buf, serial, [], false⟩

/-- `kiss_handle_config_params_cmd` -/
def kissHandleConfigParamsCmd (t : Tnc) (buf : ℕ → UInt8) (data : List UInt8) : Option Effect := do
  if data.length = 0 then
    let r ← kissRespond kissCmdConfigParams t.settings.toBytes
    some (.reply t buf r)
  else if data.length = sizeofSettingsData then
    let g := (settingsSetParamsBytes t.settings data).2
    let ee ← settingsSave g t.eeprom
    let r ← kissSerialRespondOk
    some (.reply { t with settings := g, eeprom := ee } buf r)
  else some (.reply t buf [])

/-- `kiss_handle_config_text_cmd`; the text is read into the reader's buffer,
and the buffer's length is passed on in 8 bits. -/
def kissHandleConfigTextCmd (t : Tnc) (buf : ℕ → UInt8) (data : List UInt8) : Option Effect := do
  if data.length = 0 then
    let (len, buf) := settingsGetBeaconText t.eeprom buf readerBufLen.toUInt8
    if len > 0 then
      let r ← kissRespond kissCmdConfigText (Cells.slice buf 0 len.toNat)
      some (.reply t buf r)
    else some (.reply t buf [])
  else
    let ee := settingsSetBeaconText t.eeprom data (UInt8.ofNat data.length)
    let r ← kissSerialRespondOk
    some (.reply { t with eeprom := ee } buf r)

/-- `kiss_handle_config_call_cmd` -/
def kissHandleConfigCallCmd (t : Tnc) (buf : ℕ → UInt8) (data : List UInt8) : Option Effect := do
  if data.length = 0 then
    let r ← kissRespond kissCmdConfigCall (settingsGetCallData t.eeprom).toBytes
    some (.reply t buf r)
  else if data.length = sizeofCallData then
    let ee := settingsSetCallData t.eeprom (.ofBytes data)
    let r ← kissSerialRespondOk
    some (.reply { t with eeprom := ee } buf r)
  else some (.reply t buf [])

/-- `kiss_handle_config_magic_cmd` -/
def kissHandleConfigMagicCmd (t : Tnc) (buf : ℕ → UInt8) (data : List UInt8) : Option Effect := do
  if data = [0x0B, 0x00, 0x00, 0x07] then
    let r ← kissSerialRespondOk
    some { Effect.reply t buf r with reset := true }
  else if data = [0x0B, 0x0A, 0x0B, 0x0E] then
    let r ← kissRespond kissCmdConfigMagic
      [0x01, 0x00, (versBuild >>> 8 &&& 0xff).toUInt8, (versBuild &&& 0xff).toUInt8]
    some (.reply t buf r)
  else some (.reply t buf [])

/-- A config command: its data goes to `cmd` if the checksum is right. -/
def kissVerified (t : Tnc) (buf : ℕ → UInt8) (payload : List UInt8)
    (cmd : Tnc → (ℕ → UInt8) → List UInt8 → Option Effect) : Option Effect := do
  let ok ← verifyConfigData payload
  if ok then cmd t buf (payload.take (payload.length - 1)) else some (.reply t buf [])

/-- `kiss_handle_frame` -/
def kissHandleFrame (t : Tnc) (turns : List Turn) (h : Handed) : Option Effect :=
  let frame := h.bytes
  let ignore := some (Effect.reply t h.frame [])
  if h.size = 0 then ignore
  else if h.size = 1 ∧ frame.getD 0 0 = kissCmdReturn then ignore
  else if h.size < 2 then ignore
  else
    let cmd := frame.getD 0 0 &&& 0x0f
    let port := frame.getD 0 0 >>> 4 &&& 0x0f
    let payload := frame.drop 1
    if port > 0 then ignore
    else if cmd = kissCmdData then kissSendToModem t turns h.frame payload
    else if cmd = kissCmdConfigParams then kissVerified t h.frame payload kissHandleConfigParamsCmd
    else if cmd = kissCmdConfigText then kissVerified t h.frame payload kissHandleConfigTextCmd
    else if cmd = kissCmdConfigCall then kissVerified t h.frame payload kissHandleConfigCallCmd
    else if cmd = kissCmdConfigMagic then kissVerified t h.frame payload kissHandleConfigMagicCmd
    else ignore

/-- What `kiss_handle_frame` leaves in the reader's buffer, of which it is given
the first `n` bytes. -/
def Tnc.leaves (t : Tnc) (turns : List Turn) (buf : ℕ → UInt8) (n : ℕ) : ℕ → UInt8 :=
  ((kissHandleFrame t turns ⟨buf, n⟩).map Effect.buf).getD buf

end TinyAprs
