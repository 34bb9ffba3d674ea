/-
# From one host to another

Two hosts with a TNC each, both in KISS mode: what the first host sends as a
data frame, the second one gets as a data frame. On the way it is unescaped
from the serial line, given a CRC, stuffed for the channel, and back. The
first TNC's receiver is that of `KissLine`, the second's that of
`Ax25Frame`; the frame gets through exactly when it survives the first one's
timeout (`kiss_air_kiss_iff`).
-/
import TinyAprs.Ax25Frame
import TinyAprs.KissLine
import TinyAprs.KissStore

namespace TinyAprs

open Mealy

/-- The channel bytes a TNC writes for the frames it is handed. -/
def airOf (t : Tnc) (turns : List Turn) (calls : List Handed) : List UInt8 :=
  calls.flatMap fun h => ((kissHandleFrame t turns h).map Effect.air).getD []

/-- The station's host gets the payload, once, from one call of the hook. -/
def Delivered (payload : List UInt8) (calls : List HookCall) : Prop :=
  ∃ call, calls = [call] ∧ call.ctx.frmLen - 2 = payload.length ∧
    ax25MsgCallback call = kissSendToSerial 0 0 payload

variable {handle : (ℕ → UInt8) → ℕ → (ℕ → UInt8)}

theorem airOf_data {t : Tnc} {turns : List Turn} {h : Handed} {payload : List UInt8} (hsize : h.size ≤ 255)
    (hb : h.bytes = kissCmdData :: payload) (hne : payload ≠ [])
    (hsend : ∃ modem serial, kissChannel t turns = some (modem, serial, true)) :
    airOf t turns [h] = airFrame payload := by
  obtain ⟨modem, serial, hch⟩ := hsend
  obtain ⟨x, rest, rfl⟩ := List.exists_cons_of_ne_nil hne
  have hreq : request (kissCmdData :: x :: rest) = .data (x :: rest) := by rw [request, if_pos rfl]
  rw [airOf, List.flatMap_singleton, kissHandleFrame_eq t turns h hsize, hb, hreq, handleRequest,
    kissSendToModem, hch]
  exact ax25SendRaw_air modem (x :: rest)

/-- A frame that begins with an escaped byte is for no port the TNC has. -/
theorem airOf_special {t : Tnc} {turns : List Turn} {h : Handed} (hsize : h.size ≤ 255)
    (hb : ∃ c ∈ h.bytes.head?, kissStuffing.special c = true) : airOf t turns [h] = [] := by
  obtain ⟨c, hc, hsp⟩ := hb
  obtain ⟨rest, hb⟩ : ∃ rest, h.bytes = c :: rest := by
    cases hbs : h.bytes with
    | nil => rw [hbs] at hc; exact absurd hc (by simp)
    | cons y rest => rw [hbs] at hc; exact ⟨rest, by rw [Option.some.inj hc]⟩
  have hport : c >>> 4 ≠ 0 := by
    rcases (kissSpecial_iff c).mp hsp with rfl | rfl <;> decide
  have hrej : Rejected h.bytes := hb ▸ .port c rest hport
  rw [airOf, List.flatMap_singleton, (implements_init t).serves.rejected turns h hsize hrej]
  rfl

/-- A frame on the channel is delivered to a host in KISS mode. -/
theorem delivered_airFrame (stk : AX25Msg) {ctx : AX25Ctx} (hpass : ctx.passThrough = true)
    (hhook : ctx.hook = true) (hesc : ctx.escape = false) {payload : List UInt8}
    (hmin : 16 ≤ payload.length) (hmax : payload.length ≤ 254) :
    Delivered payload (heardAfterFlag stk ctx (airFrame payload)) := by
  obtain ⟨ctx', hgot, hout⟩ := outs_airFrame stk hesc payload (by show 18 ≤ _; omega) (by
    show _ ≤ 330; omega)
  have hcall : ax25Deliver stk ctx' = [⟨ctx', none⟩] := by
    rw [ax25Deliver, if_pos (hgot.hook.trans hhook), if_pos (hgot.passThrough.trans hpass)]
  have hlen : ctx'.frmLen - 2 = payload.length := by
    rw [hgot.frmLen, length_withCrc, Nat.add_sub_cancel]
  refine ⟨⟨ctx', none⟩, ?_, hlen, ?_⟩
  · rw [← hcall, ← hout]
    rfl
  · rw [ax25MsgCallback, hlen]
    exact congrArg (kissSendToSerial 0 0) ((Cells.at_append _ _ _ _).mp hgot.buf).1

/-- **A payload gets from one host to the other** exactly when the byte behind
each FESC on the first serial line comes within two seconds of the byte before
it. -/
theorem kiss_air_kiss_iff (k : KissCtx) (hbuf : k.reader.bufLen = readerBufLen)
    (hread : k.reader.readLen = 0) (hkesc : k.escaped = false) (payload : List UInt8)
    (hmin : 16 ≤ payload.length) (hmax : payload.length ≤ 254) (s : List Timed)
    (hs : s.map Prod.snd = kissSendToSerial 0 0 payload) (hgap : NoGap s) (t : Tnc) (turns : List Turn)
    (hsend : ∃ modem serial, kissChannel t turns = some (modem, serial, true)) (stk : AX25Msg)
    (ctx : AX25Ctx) (hpass : ctx.passThrough = true) (hhook : ctx.hook = true) (hesc : ctx.escape = false) :
    Delivered payload (heardAfterFlag stk ctx (airOf t turns (outs (kissStep handle) k s))) ↔
      EscapesInTime s := by
  have hheld : Held ([], false) k := ⟨hbuf, by rw [hread]; rfl, Cells.at_nil _ _, hkesc⟩
  obtain ⟨-, g, hframes, hyes, hno⟩ := hheld.kissFrame handle ⟨0, payload, by decide, hmax⟩ hs hgap
  obtain ⟨h, hout, hg⟩ : ∃ h, outs (kissStep handle) k s = [h] ∧ h.bytes = g := by
    simpa [framesHanded, List.map_eq_cons_iff] using hframes
  have hsize : h.size ≤ 255 := size_handed handle k s h (by rw [hout]; exact List.mem_singleton_self h)
  rw [hout]
  constructor
  · intro hd
    by_contra hlate
    rw [airOf_special hsize (hg ▸ hno hlate)] at hd
    obtain ⟨call, hcall, -⟩ := hd
    exact absurd hcall (List.cons_ne_nil call []).symm
  · intro hin
    have hne : payload ≠ [] := by
      rintro rfl
      exact absurd hmin (by decide)
    rw [airOf_data hsize (hg.trans (hyes hin)) hne hsend]
    exact delivered_airFrame stk hpass hhook hesc hmin hmax

/-- A payload of 16 bytes, the first of them a FEND. -/
def fendPayload : List UInt8 := 0xc0 :: List.replicate 15 0x41

/-- A TNC that sends without listening first. -/
def duplexTnc : Tnc := { factoryTnc with settings.rf.duplex := rfDuplexFull }

/-- A station in KISS mode. -/
def kissStation : AX25Ctx := { ax25Init true with passThrough := true }

theorem kiss_air_kiss_iff_paced : Delivered fendPayload (heardAfterFlag zeroMsg kissStation
    (airOf duplexTnc [] (outs (kissStep fun buf _ => buf) (kissInit serialreaderInit)
      (paced 1000 (kissSendToSerial 0 0 fendPayload))))) :=
  (kiss_air_kiss_iff (kissInit serialreaderInit) rfl rfl rfl fendPayload (by decide) (by decide)
    (paced 1000 (kissSendToSerial 0 0 fendPayload)) (by decide +kernel) (by unfold NoGap; decide +kernel)
    duplexTnc [] ⟨_, _, rfl⟩ zeroMsg kissStation rfl rfl rfl).mpr (by decide +kernel)

/-- With a second and a half between the bytes, the other host gets nothing. -/
theorem kiss_air_kiss_late : (paced 1500 (kissSendToSerial 0 0 fendPayload)).map Prod.snd =
      kissSendToSerial 0 0 fendPayload ∧
    NoGap (paced 1500 (kissSendToSerial 0 0 fendPayload)) ∧
    (∃ modem serial, kissChannel duplexTnc [] = some (modem, serial, true)) ∧
    ¬ Delivered fendPayload (heardAfterFlag zeroMsg kissStation
      (airOf duplexTnc [] (outs (kissStep fun buf _ => buf) (kissInit serialreaderInit)
        (paced 1500 (kissSendToSerial 0 0 fendPayload))))) := by
  refine ⟨by decide +kernel, by unfold NoGap; decide +kernel, ⟨_, _, rfl⟩, ?_⟩
  have hair : airOf duplexTnc [] (outs (kissStep fun buf _ => buf) (kissInit serialreaderInit)
      (paced 1500 (kissSendToSerial 0 0 fendPayload))) = [] := by
    decide +kernel
  rw [hair]
  rintro ⟨call, hcall, -⟩
  exact absurd hcall (List.cons_ne_nil call []).symm

end TinyAprs
