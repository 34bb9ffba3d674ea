/-
# Channel access, one read of the modem at a time

`KissCmd` takes the CSMA loop of `kiss_send_to_modem` as a list of turns.
Here the loop runs step by step: `sendStep` does what the code does from one
read of the modem to the next, and every step has its own `Env`, the carrier,
the status and the random number it finds and what its `ax25_poll` reads. The
frame to send stays in the reader's buffer meanwhile, an array of the same
RAM that the modem's receive buffer is in; a poll writes there.

Whatever the environment does, the call sends at most once, the bytes it
sends are the payload, and a call that comes back without sending is half
duplex and saw an error of the modem under a carrier
(`channel_access_once`); the frames of the KISS reader are such calls
(`ready_of_handed`). What a call that comes back has done, some list of turns
does in `kissHandleFrame` (`handleFrame_of_run`).

Key definitions: `sendStep`, `SendAct`, `Holds`.
-/
import TinyAprs.Ax25Frame
import TinyAprs.Main

namespace TinyAprs

open Mealy

/-- Where the two arrays are: the reader's `buf` and `g_ax25.buf`, both of
330 bytes. -/
structure Layout where
  reader : ℕ
  modem : ℕ
  apart : reader + readerBufLen.toNat ≤ modem ∨ modem + configAx25FrameBufLen ≤ reader

/-- `ctx->buf`, as the RAM from where the array is. -/
def Layout.view (lay : Layout) (ram : ℕ → UInt8) (i : ℕ) : UInt8 := ram (lay.modem + i)

/-- The RAM after what a poll has written through `ctx->buf`. -/
def Layout.store (lay : Layout) (ram buf : ℕ → UInt8) (a : ℕ) : UInt8 :=
  if lay.modem ≤ a then buf (a - lay.modem) else ram a

/-- What a step finds: `hdlc.rxstart`, the number `rand` gives, what an
`ax25_poll` finds, and `status` after it. -/
structure Env where
  rxstart : Bool
  rand : UInt16
  stk : AX25Msg
  chars : List UInt8
  error : Bool
  status : UInt16

/-- Where `kiss_send_to_modem` stands: before its first line, at the
condition of the outer loop, in the branch without a carrier, at the
condition of the inner loop, before `ax25_poll`, after it, and returned. -/
inductive SendPc
  | start | check | draw | wait | poll | status | done
deriving DecidableEq, Repr

/-- A call of `kiss_send_to_modem` under way: its local `sent`, the RAM and
the modem. -/
structure Sender where
  pc : SendPc
  sent : Bool
  ram : ℕ → UInt8
  modem : AX25Ctx

/-- What the call does: it reads the carrier, waits in `timer_delay`, calls
`ax25_sendRaw` with the bytes, which writes those of `air`, polls the modem,
which writes to the serial line, or clears a status. -/
inductive SendAct
  | carrier (rxstart : Bool)
  | delay (ms : ℕ)
  | sendRaw (bytes air : List UInt8)
  | polled (serial : List UInt8)
  | cleared (status : UInt16)
deriving DecidableEq, Repr

section Step

variable (lay : Layout) (rf : RfParams) (buf len : ℕ)

/-- The call of `ax25_sendRaw`. -/
def Sender.raw (s : Sender) : Sender × List SendAct :=
  let bytes := Cells.slice s.ram buf len
  let r := ax25SendRaw s.modem bytes
  ({ s with modem := r.1 }, [.sendRaw bytes r.2])

/-- Up to the outer loop. -/
def sendStart (s : Sender) : Sender × List SendAct :=
  if rf.duplex = rfDuplexFull then
    let r := s.raw buf len
    ({ r.1 with pc := .done }, r.2)
  else ({ s with pc := .check }, [])

/-- `while (!sent)`, and the carrier if it goes on. -/
def sendCheck (s : Sender) (e : Env) : Sender × List SendAct :=
  if s.sent then ({ s with pc := .done }, [])
  else ({ s with pc := if e.rxstart then .wait else .draw }, [.carrier e.rxstart])

/-- The branch without a carrier. -/
def sendDraw (s : Sender) (e : Env) : Sender × List SendAct :=
  if csmaTp e.rand < rf.persistence then
    let r := s.raw buf len
    ({ r.1 with pc := .check, sent := true }, r.2)
  else ({ s with pc := .check }, [.delay (rf.slotTime.toNat * 10)])

/-- `while (!sent && rxstart)`; a set `sent` leaves the carrier unread. -/
def sendWait (s : Sender) (e : Env) : Sender × List SendAct :=
  if s.sent then ({ s with pc := .check }, [])
  else ({ s with pc := if e.rxstart then .poll else .check }, [.carrier e.rxstart])

/-- `ax25_poll`, with the frames it forwards. -/
def sendPoll (s : Sender) (e : Env) : Sender × List SendAct :=
  let r := ax25Poll e.stk s.modem e.chars e.error
  ({ s with pc := .status, ram := lay.store s.ram r.1.buf, modem := r.1 }, [.polled (r.2.flatMap ax25MsgCallback)])

/-- The status after a poll. -/
def sendStatus (s : Sender) (e : Env) : Sender × List SendAct :=
  if e.status ≠ 0 then ({ s with pc := .wait, sent := true }, [.cleared e.status])
  else ({ s with pc := .wait }, [])

/-- A step of `kiss_send_to_modem(buf, len)`. -/
def sendStep (s : Sender) (e : Env) : Sender × List SendAct :=
  match s.pc with
  | .start => sendStart rf buf len s
  | .check => sendCheck s e
  | .draw => sendDraw rf buf len s e
  | .wait => sendWait s e
  | .poll => sendPoll lay s e
  | .status => sendStatus s e
  | .done => (s, [])

end Step

/-- The call `kiss_handle_frame` makes for a frame in the reader's buffer:
the payload begins behind the command byte. -/
def payloadStep (lay : Layout) (t : Tnc) (h : Handed) : Sender → Env → Sender × List SendAct :=
  sendStep lay t.settings.rf (lay.reader + 1) (h.size - 1)

/-- A call as it begins. -/
def Sender.begin (t : Tnc) (ram : ℕ → UInt8) : Sender := ⟨.start, false, ram, t.modem⟩

/-- A data frame that lies in the reader's buffer, and a modem whose buffer
is its own array. -/
structure Ready (lay : Layout) (t : Tnc) (h : Handed) (ram : ℕ → UInt8) : Prop where
  data : h.isData = true
  size : h.size ≤ readerBufLen.toNat
  frame : Cells.At ram lay.reader h.bytes
  modem : t.modem.buf = lay.view ram

/-- The RAM with a frame in the reader's buffer and `buf` in the modem's. -/
def Layout.load (lay : Layout) (frame buf : ℕ → UInt8) (a : ℕ) : UInt8 :=
  if lay.reader ≤ a ∧ a < lay.reader + readerBufLen.toNat then frame (a - lay.reader) else buf (a - lay.modem)

/-- The payloads given to `ax25_sendRaw`. -/
def rawSends (acts : List SendAct) : List (List UInt8) :=
  acts.filterMap fun
    | .sendRaw bytes _ => some bytes
    | _ => none

/-- A non-zero status was seen and cleared right after a poll made under a
carrier. -/
def GaveUp (acts : List SendAct) : Prop :=
  ∃ before serial status after, status ≠ 0 ∧
    acts = before ++ .carrier true :: .polled serial :: .cleared status :: after

/-! ### What the modem leaves alone -/

@[simp] theorem ax25SendRaw_buf (ctx : AX25Ctx) (bytes : List UInt8) :
    (ax25SendRaw ctx bytes).1.buf = ctx.buf := by
  simp [ax25SendRaw, ax25SendCrc, ax25Puts_eq, AX25Ctx.txDone]

theorem pollFlag_buf (stk : AX25Msg) (ctx : AX25Ctx) : (ax25PollFlag stk ctx).1.buf = ctx.buf := by
  unfold ax25PollFlag
  dsimp only
  split_ifs <;> rfl

/-- A data byte is stored inside the array, or not at all. -/
theorem pollData_buf (ctx : AX25Ctx) (c : UInt8) {i : ℕ} (hi : configAx25FrameBufLen ≤ i) :
    (ax25PollData ctx c).buf i = ctx.buf i := by
  unfold ax25PollData
  split_ifs with hsync hlen
  · rw [dcdByte_buf]
    exact Function.update_of_ne (by omega) _ _
  · rfl
  · rfl

theorem pollChar_buf (stk : AX25Msg) (ctx : AX25Ctx) (c : UInt8) {i : ℕ} (hi : configAx25FrameBufLen ≤ i) :
    (ax25PollChar stk ctx c).1.buf i = ctx.buf i := by
  unfold ax25PollChar
  split_ifs
  · rw [pollFlag_buf]
  · rfl
  · rfl
  · exact pollData_buf ctx c hi

theorem poll_buf (stk : AX25Msg) (ctx : AX25Ctx) (cs : List UInt8) (error : Bool) {i : ℕ}
    (hi : configAx25FrameBufLen ≤ i) : (ax25Poll stk ctx cs error).1.buf i = ctx.buf i := by
  have hrun : (final (ax25PollChar stk) ctx cs).buf i = ctx.buf i := by
    refine final_inv (ax25PollChar stk) (fun x => x.buf i = ctx.buf i) ?_ ctx cs rfl
    intro x c hx
    rw [pollChar_buf stk x c hi, hx]
  cases error with
  | true => exact hrun
  | false => exact hrun

namespace Layout

variable (lay : Layout) (ram buf : ℕ → UInt8)

@[simp] theorem view_store : lay.view (lay.store ram buf) = buf := by
  funext i
  rw [view, store, if_pos (Nat.le_add_right _ _), Nat.add_sub_cancel_left]

theorem store_reader (hbuf : ∀ i, configAx25FrameBufLen ≤ i → buf i = lay.view ram i) {k : ℕ}
    (hk : k < readerBufLen.toNat) : lay.store ram buf (lay.reader + k) = ram (lay.reader + k) := by
  unfold store
  split_ifs with hle
  · -- the reader's buffer is the one further up
    have hup : lay.modem + configAx25FrameBufLen ≤ lay.reader := by
      rcases lay.apart with h | h
      · omega
      · exact h
    rw [hbuf _ (by omega), view, Nat.add_sub_cancel' hle]
  · rfl

end Layout

/-! ### What a step keeps -/

section Run

variable {lay : Layout} {rf : RfParams} {payload : List UInt8} {s : Sender} {acts : List SendAct}

/-- The call is over but for its return: sent once, or dropped. -/
def Settled (rf : RfParams) (payload : List UInt8) (acts : List SendAct) : Prop :=
  rawSends acts = [payload] ∨ (rf.duplex ≠ rfDuplexFull ∧ rawSends acts = [] ∧ GaveUp acts)

/-- Nothing is sent yet, and the call is half duplex. -/
def Open (rf : RfParams) (s : Sender) (acts : List SendAct) : Prop :=
  rf.duplex ≠ rfDuplexFull ∧ s.sent = false ∧ rawSends acts = []

/-- What the call has done when it stands at `pc`. -/
def Phase (rf : RfParams) (payload : List UInt8) (s : Sender) (acts : List SendAct) : Prop :=
  match s.pc with
  | .start => rawSends acts = [] ∧ s.sent = false
  | .check | .wait => Open rf s acts ∨ (s.sent = true ∧ Settled rf payload acts)
  | .draw => Open rf s acts
  | .poll => Open rf s acts ∧ ∃ before, acts = before ++ [.carrier true]
  | .status => Open rf s acts ∧ ∃ before serial, acts = before ++ [.carrier true, .polled serial]
  | .done => Settled rf payload acts

/-- The payload lies where it was, and the call is where `Phase` says. -/
structure Holds (lay : Layout) (rf : RfParams) (payload : List UInt8) (s : Sender) (acts : List SendAct) :
    Prop where
  modem : s.modem.buf = lay.view s.ram
  frame : Cells.At s.ram (lay.reader + 1) payload
  phase : Phase rf payload s acts

@[simp] theorem rawSends_append (a b : List SendAct) : rawSends (a ++ b) = rawSends a ++ rawSends b :=
  List.filterMap_append

@[simp] theorem rawSends_nil : rawSends [] = [] := rfl

@[simp] theorem rawSends_sendRaw (bytes air : List UInt8) (acts : List SendAct) :
    rawSends (.sendRaw bytes air :: acts) = bytes :: rawSends acts := rfl

@[simp] theorem rawSends_carrier (b : Bool) (acts : List SendAct) :
    rawSends (.carrier b :: acts) = rawSends acts := rfl

@[simp] theorem rawSends_delay (ms : ℕ) (acts : List SendAct) : rawSends (.delay ms :: acts) = rawSends acts := rfl

@[simp] theorem rawSends_polled (serial : List UInt8) (acts : List SendAct) :
    rawSends (.polled serial :: acts) = rawSends acts := rfl

@[simp] theorem rawSends_cleared (status : UInt16) (acts : List SendAct) :
    rawSends (.cleared status :: acts) = rawSends acts := rfl

theorem Open.read {s' : Sender} (h : Open rf s acts) (hsent : s'.sent = s.sent) (rxstart : Bool) :
    Open rf s' (acts ++ [.carrier rxstart]) :=
  ⟨h.1, hsent.trans h.2.1, by simp [h.2.2]⟩

theorem Holds.raw (h : Holds lay rf payload s acts) :
    s.raw (lay.reader + 1) payload.length =
      ({ s with modem := (ax25SendRaw s.modem payload).1 },
        [.sendRaw payload (ax25SendRaw s.modem payload).2]) := by
  have hbytes : Cells.slice s.ram (lay.reader + 1) payload.length = payload := h.frame
  unfold Sender.raw
  rw [hbytes]

theorem Holds.start (h : Holds lay rf payload s acts) (hpc : s.pc = .start) :
    Holds lay rf payload (sendStart rf (lay.reader + 1) payload.length s).1
      (acts ++ (sendStart rf (lay.reader + 1) payload.length s).2) := by
  obtain ⟨hmodem, hframe, hphase⟩ := id h
  rw [Phase, hpc] at hphase
  obtain ⟨hnone, hsent⟩ := hphase
  unfold sendStart
  by_cases hfull : rf.duplex = rfDuplexFull
  · rw [if_pos hfull, h.raw]
    refine ⟨(ax25SendRaw_buf s.modem payload).trans hmodem, hframe, Or.inl ?_⟩
    rw [rawSends_append, hnone, rawSends_sendRaw, rawSends_nil, List.nil_append]
  · rw [if_neg hfull, List.append_nil]
    exact ⟨hmodem, hframe, Or.inl ⟨hfull, hsent, hnone⟩⟩

theorem Holds.check (h : Holds lay rf payload s acts) (hpc : s.pc = .check) (e : Env) :
    Holds lay rf payload (sendCheck s e).1 (acts ++ (sendCheck s e).2) := by
  obtain ⟨hmodem, hframe, hphase⟩ := h
  rw [Phase, hpc] at hphase
  unfold sendCheck
  rcases hphase with hopen | ⟨hsent, hdone⟩
  · rw [if_neg (by simp [hopen.2.1])]
    cases hrx : e.rxstart with
    | true => exact ⟨hmodem, hframe, Or.inl (hopen.read rfl true)⟩
    | false => exact ⟨hmodem, hframe, hopen.read rfl false⟩
  · rw [if_pos hsent, List.append_nil]
    exact ⟨hmodem, hframe, hdone⟩

theorem Holds.draw (h : Holds lay rf payload s acts) (hpc : s.pc = .draw) (e : Env) :
    Holds lay rf payload (sendDraw rf (lay.reader + 1) payload.length s e).1
      (acts ++ (sendDraw rf (lay.reader + 1) payload.length s e).2) := by
  obtain ⟨hmodem, hframe, hphase⟩ := id h
  rw [Phase, hpc] at hphase
  obtain ⟨hhalf, hsent, hnone⟩ := hphase
  unfold sendDraw
  by_cases htp : csmaTp e.rand < rf.persistence
  · rw [if_pos htp, h.raw]
    refine ⟨(ax25SendRaw_buf s.modem payload).trans hmodem, hframe, Or.inr ⟨rfl, Or.inl ?_⟩⟩
    rw [rawSends_append, hnone, rawSends_sendRaw, rawSends_nil, List.nil_append]
  · rw [if_neg htp]
    exact ⟨hmodem, hframe, Or.inl ⟨hhalf, hsent, by simp [hnone]⟩⟩

theorem Holds.wait (h : Holds lay rf payload s acts) (hpc : s.pc = .wait) (e : Env) :
    Holds lay rf payload (sendWait s e).1 (acts ++ (sendWait s e).2) := by
  obtain ⟨hmodem, hframe, hphase⟩ := h
  rw [Phase, hpc] at hphase
  unfold sendWait
  rcases hphase with hopen | ⟨hsent, hdone⟩
  · rw [if_neg (by simp [hopen.2.1])]
    cases hrx : e.rxstart with
    | true => exact ⟨hmodem, hframe, hopen.read rfl true, acts, rfl⟩
    | false => exact ⟨hmodem, hframe, Or.inl (hopen.read rfl false)⟩
  · rw [if_pos hsent, List.append_nil]
    exact ⟨hmodem, hframe, Or.inr ⟨hsent, hdone⟩⟩

/-- A poll writes into the modem's array only, so the payload stays. -/
theorem Holds.poll (hlen : payload.length < readerBufLen.toNat) (h : Holds lay rf payload s acts)
    (hpc : s.pc = .poll) (e : Env) :
    Holds lay rf payload (sendPoll lay s e).1 (acts ++ (sendPoll lay s e).2) := by
  obtain ⟨hmodem, hframe, hphase⟩ := h
  rw [Phase, hpc] at hphase
  obtain ⟨⟨hhalf, hsent, hnone⟩, before, rfl⟩ := hphase
  refine ⟨(lay.view_store s.ram _).symm, hframe.congr fun k hk => ?_, ?_, before, _, List.append_assoc ..⟩
  · rw [Nat.add_assoc]
    refine lay.store_reader s.ram _ (fun i hi => ?_) (by omega)
    rw [poll_buf e.stk s.modem e.chars e.error hi, hmodem]
  · exact ⟨hhalf, hsent, by simpa [sendPoll] using hnone⟩

theorem Holds.status (h : Holds lay rf payload s acts) (hpc : s.pc = .status) (e : Env) :
    Holds lay rf payload (sendStatus s e).1 (acts ++ (sendStatus s e).2) := by
  obtain ⟨hmodem, hframe, hphase⟩ := h
  rw [Phase, hpc] at hphase
  obtain ⟨⟨hhalf, hsent, hnone⟩, before, serial, rfl⟩ := hphase
  unfold sendStatus
  by_cases hst : e.status ≠ 0
  · rw [if_pos hst]
    refine ⟨hmodem, hframe, Or.inr ⟨rfl, Or.inr ⟨hhalf, ?_, before, serial, e.status, [], hst, ?_⟩⟩⟩
    · rw [rawSends_append, hnone, rawSends_cleared, rawSends_nil, List.append_nil]
    · rw [List.append_assoc]
      rfl
  · rw [if_neg hst, List.append_nil]
    exact ⟨hmodem, hframe, Or.inl ⟨hhalf, hsent, hnone⟩⟩

theorem Holds.step (hlen : payload.length < readerBufLen.toNat) (h : Holds lay rf payload s acts) (e : Env) :
    Holds lay rf payload (sendStep lay rf (lay.reader + 1) payload.length s e).1
      (acts ++ (sendStep lay rf (lay.reader + 1) payload.length s e).2) := by
  unfold sendStep
  cases hpc : s.pc with
  | start => exact h.start hpc
  | check => exact h.check hpc e
  | draw => exact h.draw hpc e
  | wait => exact h.wait hpc e
  | poll => exact h.poll hlen hpc e
  | status => exact h.status hpc e
  | done =>
    rw [List.append_nil]
    exact h

/-- Every run of the call keeps the payload and its phase. -/
theorem Holds.run (hlen : payload.length < readerBufLen.toNat) (h : Holds lay rf payload s acts)
    (es : List Env) :
    Holds lay rf payload (final (sendStep lay rf (lay.reader + 1) payload.length) s es)
      (acts ++ outs (sendStep lay rf (lay.reader + 1) payload.length) s es) :=
  run_inv _ (Holds lay rf payload) (fun _ _ e h => h.step hlen e) s acts es h

/-- Nothing or the payload is sent, wherever the call stands. -/
theorem Holds.sends (h : Holds lay rf payload s acts) : rawSends acts = [] ∨ rawSends acts = [payload] := by
  have hphase := h.phase
  have hsettled : Settled rf payload acts → rawSends acts = [] ∨ rawSends acts = [payload] := by
    rintro (hone | ⟨-, hnone, -⟩)
    · exact Or.inr hone
    · exact Or.inl hnone
  unfold Phase at hphase
  cases hpc : s.pc with
  | start =>
    rw [hpc] at hphase
    exact Or.inl hphase.1
  | draw =>
    rw [hpc] at hphase
    exact Or.inl hphase.2.2
  | poll | status =>
    rw [hpc] at hphase
    exact Or.inl hphase.1.2.2
  | check | wait =>
    rw [hpc] at hphase
    rcases hphase with ⟨-, -, hnone⟩ | ⟨-, hdone⟩
    · exact Or.inl hnone
    · exact hsettled hdone
  | done =>
    rw [hpc] at hphase
    exact hsettled hphase

end Run

/-! ### The whole call -/

section Call

variable {lay : Layout} {t : Tnc} {h : Handed} {ram : ℕ → UInt8}

/-- Every data frame that the KISS reader hands over is ready. -/
theorem ready_of_handed (lay : Layout) (t : Tnc) {handle : (ℕ → UInt8) → ℕ → ℕ → UInt8} {k : KissCtx}
    {line : List Timed} (hh : h ∈ outs (kissStep handle) k line) (hdata : h.isData = true) :
    Ready lay { t with modem := { t.modem with buf := lay.view (lay.load h.frame t.modem.buf) } } h
      (lay.load h.frame t.modem.buf) := by
  have hsize : h.size ≤ readerBufLen.toNat := Nat.le_trans (size_handed handle k line h hh) (by decide)
  refine ⟨hdata, hsize, ?_, rfl⟩
  have hlen : h.bytes.length = h.size := Cells.length_slice _ _ _
  rw [Cells.At, hlen, Handed.bytes]
  refine List.map_congr_left fun i hi => ?_
  rw [List.mem_range] at hi
  rw [Layout.load, if_pos (by omega), Nat.add_sub_cancel_left, Nat.zero_add]

theorem Ready.length_payload (hready : Ready lay t h ram) :
    (h.bytes.drop 1).length = h.size - 1 ∧ (h.bytes.drop 1).length < readerBufLen.toNat := by
  have h2 : 2 ≤ h.size := ((isData_iff h).mp hready.data).1
  have hlen : (h.bytes.drop 1).length = h.size - 1 := by simp [Handed.bytes]
  have := hready.size
  omega

theorem Ready.holds (hready : Ready lay t h ram) :
    Holds lay t.settings.rf (h.bytes.drop 1) (.begin t ram) [] := by
  refine ⟨hready.modem, ?_, rfl, rfl⟩
  have h2 : 2 ≤ h.size := ((isData_iff h).mp hready.data).1
  have hframe := hready.frame
  cases hb : h.bytes with
  | nil =>
    have : h.bytes.length = h.size := Cells.length_slice _ _ _
    rw [hb] at this
    exact absurd this (by rw [List.length_nil]; omega)
  | cons c payload =>
    rw [hb] at hframe
    exact ((Cells.at_cons ram lay.reader c payload).mp hframe).2

theorem Ready.run (hready : Ready lay t h ram) (es : List Env) :
    Holds lay t.settings.rf (h.bytes.drop 1) (final (payloadStep lay t h) (.begin t ram) es)
      (outs (payloadStep lay t h) (.begin t ram) es) := by
  obtain ⟨hlen, hfits⟩ := hready.length_payload
  have hrun := hready.holds.run hfits es
  rwa [hlen, List.nil_append] at hrun

/-- **Channel access sends a frame at most once and intact.** Whatever the
carrier, the status, the random numbers and the frames received meanwhile,
`ax25_sendRaw` is called at most once and with the payload of the frame; a
call that comes back without it is half duplex and has seen and cleared a
status under a carrier. -/
theorem channel_access_once (lay : Layout) (t : Tnc) (h : Handed) (ram : ℕ → UInt8)
    (hready : Ready lay t h ram) (es : List Env) :
    let acts := outs (payloadStep lay t h) (.begin t ram) es
    (rawSends acts).length ≤ 1 ∧ (∀ bytes ∈ rawSends acts, bytes = h.bytes.drop 1) ∧
      ((final (payloadStep lay t h) (.begin t ram) es).pc = .done → rawSends acts = [] →
        t.settings.rf.duplex ≠ rfDuplexFull ∧ GaveUp acts) := by
  intro acts
  have hrun := hready.run es
  refine ⟨?_, ?_, fun hdone hnone => ?_⟩
  · rcases hrun.sends with hs | hs
    · exact hs ▸ Nat.zero_le 1
    · exact hs ▸ Nat.le_refl 1
  · intro bytes hbytes
    rcases hrun.sends with hs | hs
    · exact absurd (hs ▸ hbytes) List.not_mem_nil
    · exact List.mem_singleton.mp (hs ▸ hbytes)
  · have hphase := hrun.phase
    rw [Phase, hdone] at hphase
    rcases hphase with hone | ⟨hhalf, -, hgave⟩
    · exact absurd (hone.symm.trans hnone) (by simp)
    · exact ⟨hhalf, hgave⟩

end Call

/-- A frame of two bytes in a RAM of zeros, the reader's buffer first. -/
def twoBytes : Handed := ⟨fun a => if a = 1 then 0x41 else if a = 2 then 0x42 else 0, 3⟩

/-- The two arrays one behind the other. -/
def readerFirst : Layout := ⟨0, 330, Or.inl (Nat.le_refl 330)⟩

/-- A half duplex TNC that has heard nothing. -/
def quietTnc : Tnc := ⟨gSettings, fun _ => 0xFF, { ax25Init true with buf := readerFirst.view twoBytes.frame }⟩

theorem ready_twoBytes : Ready readerFirst quietTnc twoBytes twoBytes.frame where
  data := by decide
  size := by decide
  frame := rfl
  modem := rfl

/-- A carrier, and an overrun after every poll. -/
def overrunEnv : Env := ⟨true, 0, zeroMsg, [], false, 1⟩

theorem channel_access_once_overrun :
    (final (payloadStep readerFirst quietTnc twoBytes) (.begin quietTnc twoBytes.frame)
      (List.replicate 7 overrunEnv)).pc = .done ∧
    quietTnc.settings.rf.duplex ≠ rfDuplexFull ∧
    GaveUp (outs (payloadStep readerFirst quietTnc twoBytes) (.begin quietTnc twoBytes.frame)
      (List.replicate 7 overrunEnv)) := by
  obtain ⟨-, -, hdrop⟩ := channel_access_once readerFirst quietTnc twoBytes twoBytes.frame ready_twoBytes
    (List.replicate 7 overrunEnv)
  exact ⟨rfl, hdrop rfl rfl⟩

/-- With a free channel the two bytes are sent. -/
example : rawSends (outs (payloadStep readerFirst quietTnc twoBytes) (.begin quietTnc twoBytes.frame)
    (List.replicate 4 { overrunEnv with rxstart := false })) = [[0x41, 0x42]] := by
  decide +kernel

/-! ### The turns of a run -/

/-- What an act writes to the serial line. -/
def SendAct.serial : SendAct → List UInt8
  | .polled serial => serial
  | _ => []

/-- What an act writes to the channel. -/
def SendAct.air : SendAct → List UInt8
  | .sendRaw _ air => air
  | _ => []

section Turns

variable {lay : Layout} {rf : RfParams} {payload : List UInt8} {s : Sender} {acts : List SendAct}

/-- `sent` is set, or the call has returned. -/
def Sender.Quiet (s : Sender) : Prop := s.pc = .done ∨ (s.sent = true ∧ (s.pc = .check ∨ s.pc = .wait))

theorem Sender.Quiet.step (h : s.Quiet) (lay : Layout) (rf : RfParams) (buf len : ℕ) (e : Env) :
    (sendStep lay rf buf len s e).1.Quiet ∧ (sendStep lay rf buf len s e).1.modem = s.modem ∧
      (sendStep lay rf buf len s e).2 = [] := by
  unfold sendStep
  rcases h with hpc | ⟨hsent, hpc | hpc⟩
  · rw [hpc]
    exact ⟨Or.inl hpc, rfl, rfl⟩
  · rw [hpc]
    dsimp only
    rw [sendCheck, if_pos hsent]
    exact ⟨Or.inl rfl, rfl, rfl⟩
  · rw [hpc]
    dsimp only
    rw [sendWait, if_pos hsent]
    exact ⟨Or.inr ⟨hsent, Or.inl rfl⟩, rfl, rfl⟩

theorem Sender.Quiet.run (h : s.Quiet) (lay : Layout) (rf : RfParams) (buf len : ℕ) (es : List Env) :
    (final (sendStep lay rf buf len) s es).modem = s.modem ∧ outs (sendStep lay rf buf len) s es = [] := by
  have hrun := run_inv (sendStep lay rf buf len) (fun s' acts => s'.Quiet ∧ s'.modem = s.modem ∧ acts = [])
    ?_ s [] es ⟨h, rfl, rfl⟩
  · exact ⟨hrun.2.1, by simpa using hrun.2.2⟩
  · rintro s' acts e ⟨hq, hm, rfl⟩
    obtain ⟨hq', hm', hout⟩ := hq.step lay rf buf len e
    exact ⟨hq', hm'.trans hm, by rw [hout]; rfl⟩

/-- The result `r` of the CSMA loop is one that some turns give from here. -/
def Sender.Comes (persistence : UInt8) (r : AX25Ctx × List UInt8 × Bool) (s : Sender) : Prop :=
  match s.pc with
  | .check => ∃ turns, csma persistence s.modem turns = some r
  | .draw => ∃ i turns, csma persistence s.modem (.idle i :: turns) = some r
  | .wait => ∃ ps turns, csma persistence s.modem (.busy ps :: turns) = some r
  | .poll => ∃ p ps turns, csma persistence s.modem (.busy (p :: ps) :: turns) = some r
  | .status => ∃ (status : Bool) (ps : List Poll) (turns : List Turn),
      (if status then some (s.modem, [], false) else csma persistence s.modem (.busy ps :: turns)) = some r
  | .start | .done => False

/-- The acts up to the end of the call, and the modem then, are those of the
result `r`. -/
structure Outcome (payload : List UInt8) (r : AX25Ctx × List UInt8 × Bool) (modem : AX25Ctx)
    (acts : List SendAct) : Prop where
  serial : acts.flatMap SendAct.serial = r.2.1
  air : acts.flatMap SendAct.air = if r.2.2 then (ax25SendRaw r.1 payload).2 else []
  modem : modem = if r.2.2 then (ax25SendRaw r.1 payload).1 else r.1

theorem csma_busy_nil (persistence : UInt8) (modem : AX25Ctx) (turns : List Turn) :
    csma persistence modem (.busy [] :: turns) = csma persistence modem turns := by
  simp [csma, csmaBusy]

theorem csma_busy_cons (persistence : UInt8) (modem : AX25Ctx) (p : Poll) (ps : List Poll) (turns : List Turn) :
    csma persistence modem (.busy (p :: ps) :: turns) =
      let r := ax25Poll p.stk modem p.chars p.error
      (if p.status then some (r.1, [], false) else csma persistence r.1 (.busy ps :: turns)).map
        fun q => (q.1, r.2.flatMap ax25MsgCallback ++ q.2.1, q.2.2) := by
  dsimp only
  cases hst : p.status with
  | true => simp [csma, csmaBusy, hst]
  | false =>
    simp only [csma, csmaBusy, hst, Bool.false_eq_true, if_false]
    cases (csmaBusy (ax25Poll p.stk modem p.chars p.error).1 ps).2.2 with
    | true => rfl
    | false => simp [Function.comp_def, List.append_assoc]

/-- An act that writes nothing does not change the outcome. -/
theorem Outcome.cons_silent {r : AX25Ctx × List UInt8 × Bool} {modem : AX25Ctx} {act : SendAct}
    (h : Outcome payload r modem acts) (hserial : act.serial = []) (hair : act.air = []) :
    Outcome payload r modem (act :: acts) := by
  refine ⟨?_, ?_, h.modem⟩
  · rw [List.flatMap_cons, hserial, List.nil_append, h.serial]
  · rw [List.flatMap_cons, hair, List.nil_append, h.air]

/-- In the loop, with nothing sent or dropped yet. -/
def Sender.Going (s : Sender) : Prop := s.sent = false ∧ s.pc ≠ .start ∧ s.pc ≠ .done

/-- A step from `s` to `s'` that goes on: the turns of what comes after it
become turns from `s`. -/
def GoesOn (persistence : UInt8) (payload : List UInt8) (s s' : Sender) (out : List SendAct) : Prop :=
  s'.Going ∧ ∀ r, s'.Comes persistence r → ∃ r', s.Comes persistence r' ∧
    ∀ modem acts, Outcome payload r modem acts → Outcome payload r' modem (out ++ acts)

/-- A step from `s` to `s'` that ends the loop, as some turns from `s` do. -/
def EndsLoop (persistence : UInt8) (payload : List UInt8) (s s' : Sender) (out : List SendAct) : Prop :=
  s'.Quiet ∧ ∃ r, s.Comes persistence r ∧ Outcome payload r s'.modem out

theorem goesOn_silent {s' : Sender} {act : SendAct} (hgo : s'.Going) (hserial : act.serial = [])
    (hair : act.air = []) (hback : ∀ r, s'.Comes rf.persistence r → s.Comes rf.persistence r) :
    GoesOn rf.persistence payload s s' [act] :=
  ⟨hgo, fun r hr => ⟨r, hback r hr, fun _ _ hout => hout.cons_silent hserial hair⟩⟩

theorem goesOn_check (hpc : s.pc = .check) (hsent : s.sent = false) (e : Env) :
    GoesOn rf.persistence payload s (sendCheck s e).1 (sendCheck s e).2 := by
  rw [sendCheck, if_neg (by simp [hsent])]
  cases hrx : e.rxstart with
  | true =>
    refine goesOn_silent ⟨hsent, nofun, nofun⟩ rfl rfl ?_
    rintro r ⟨ps, turns, hr⟩
    rw [Sender.Comes, hpc]
    exact ⟨.busy ps :: turns, hr⟩
  | false =>
    refine goesOn_silent ⟨hsent, nofun, nofun⟩ rfl rfl ?_
    rintro r ⟨i, turns, hr⟩
    rw [Sender.Comes, hpc]
    exact ⟨.idle i :: turns, hr⟩

theorem goesOn_wait (hpc : s.pc = .wait) (hsent : s.sent = false) (e : Env) :
    GoesOn rf.persistence payload s (sendWait s e).1 (sendWait s e).2 := by
  rw [sendWait, if_neg (by simp [hsent])]
  cases hrx : e.rxstart with
  | true =>
    refine goesOn_silent ⟨hsent, nofun, nofun⟩ rfl rfl ?_
    rintro r ⟨p, ps, turns, hr⟩
    rw [Sender.Comes, hpc]
    exact ⟨p :: ps, turns, hr⟩
  | false =>
    -- the carrier has gone, and with it the turn
    refine goesOn_silent ⟨hsent, nofun, nofun⟩ rfl rfl ?_
    rintro r ⟨turns, hr⟩
    rw [Sender.Comes, hpc]
    exact ⟨[], turns, (csma_busy_nil ..).trans hr⟩

theorem draw_turn (h : Holds lay rf payload s acts) (hpc : s.pc = .draw) (hsent : s.sent = false) (e : Env) :
    GoesOn rf.persistence payload s (sendDraw rf (lay.reader + 1) payload.length s e).1
        (sendDraw rf (lay.reader + 1) payload.length s e).2 ∨
      EndsLoop rf.persistence payload s (sendDraw rf (lay.reader + 1) payload.length s e).1
        (sendDraw rf (lay.reader + 1) payload.length s e).2 := by
  unfold sendDraw
  by_cases htp : csmaTp e.rand < rf.persistence
  · rw [if_pos htp, h.raw]
    refine Or.inr ⟨Or.inr ⟨rfl, Or.inl rfl⟩, (s.modem, [], true), ?_, rfl, List.append_nil _, rfl⟩
    rw [Sender.Comes, hpc]
    exact ⟨e.rand, [], if_pos htp⟩
  · rw [if_neg htp]
    refine Or.inl (goesOn_silent ⟨hsent, nofun, nofun⟩ rfl rfl ?_)
    rintro r ⟨turns, hr⟩
    rw [Sender.Comes, hpc]
    exact ⟨e.rand, turns, (if_neg htp).trans hr⟩

theorem goesOn_poll (hpc : s.pc = .poll) (hsent : s.sent = false) (e : Env) :
    GoesOn rf.persistence payload s (sendPoll lay s e).1 (sendPoll lay s e).2 := by
  refine ⟨⟨hsent, nofun, nofun⟩, fun r hr => ?_⟩
  obtain ⟨status, ps, turns, hr⟩ := hr
  refine ⟨(r.1, (ax25Poll e.stk s.modem e.chars e.error).2.flatMap ax25MsgCallback ++ r.2.1, r.2.2), ?_, ?_⟩
  · rw [Sender.Comes, hpc]
    refine ⟨⟨e.stk, e.chars, e.error, status⟩, ps, turns, ?_⟩
    dsimp only [sendPoll] at hr
    rw [csma_busy_cons]
    dsimp only
    rw [hr]
    rfl
  · intro modem acts hout
    refine ⟨?_, hout.air, hout.modem⟩
    show _ ++ acts.flatMap SendAct.serial = _
    rw [hout.serial]
    rfl

theorem status_turn (hpc : s.pc = .status) (hsent : s.sent = false) (e : Env) :
    GoesOn rf.persistence payload s (sendStatus s e).1 (sendStatus s e).2 ∨
      EndsLoop rf.persistence payload s (sendStatus s e).1 (sendStatus s e).2 := by
  unfold sendStatus
  by_cases hst : e.status ≠ 0
  · rw [if_pos hst]
    refine Or.inr ⟨Or.inr ⟨rfl, Or.inr rfl⟩, (s.modem, [], false), ?_, rfl, rfl, rfl⟩
    rw [Sender.Comes, hpc]
    exact ⟨true, [], [], rfl⟩
  · rw [if_neg hst]
    refine Or.inl ⟨⟨hsent, nofun, nofun⟩, fun r hr => ⟨r, ?_, fun modem acts hout => hout⟩⟩
    obtain ⟨ps, turns, hr⟩ := hr
    rw [Sender.Comes, hpc]
    exact ⟨false, ps, turns, hr⟩

theorem Holds.turn (h : Holds lay rf payload s acts) (hgo : s.Going) (e : Env) :
    let q := sendStep lay rf (lay.reader + 1) payload.length s e
    GoesOn rf.persistence payload s q.1 q.2 ∨ EndsLoop rf.persistence payload s q.1 q.2 := by
  obtain ⟨hsent, hstart, hdone⟩ := hgo
  unfold sendStep
  cases hpc : s.pc with
  | start => exact absurd hpc hstart
  | check => exact Or.inl (goesOn_check hpc hsent e)
  | draw => exact draw_turn h hpc hsent e
  | wait => exact Or.inl (goesOn_wait hpc hsent e)
  | poll => exact Or.inl (goesOn_poll hpc hsent e)
  | status => exact status_turn hpc hsent e
  | done => exact absurd hpc hdone

/-- A run from inside the loop to the return does what some turns do. -/
theorem Holds.turns (hlen : payload.length < readerBufLen.toNat) : ∀ (es : List Env) {s : Sender}
    {acts : List SendAct}, Holds lay rf payload s acts → s.Going →
    (final (sendStep lay rf (lay.reader + 1) payload.length) s es).pc = .done →
    ∃ r, s.Comes rf.persistence r ∧
      Outcome payload r (final (sendStep lay rf (lay.reader + 1) payload.length) s es).modem
        (outs (sendStep lay rf (lay.reader + 1) payload.length) s es)
  | [], _, _, _, hgo, hdone => absurd hdone hgo.2.2
  | e :: es, s, acts, h, hgo, hdone => by
    rw [final_cons, outs_cons]
    rcases h.turn hgo e with ⟨hgo', hback⟩ | ⟨hquiet, r, hr, hout⟩
    · obtain ⟨r, hr, hout⟩ := Holds.turns hlen es (h.step hlen e) hgo' hdone
      obtain ⟨r', hr', hext⟩ := hback r hr
      exact ⟨r', hr', hext _ _ hout⟩
    · obtain ⟨hmodem, hnone⟩ := hquiet.run lay rf (lay.reader + 1) payload.length es
      rw [hmodem, hnone, List.append_nil]
      exact ⟨r, hr, hout⟩

end Turns

section Refines

variable {lay : Layout} {t : Tnc} {h : Handed} {ram : ℕ → UInt8}

theorem kissHandleFrame_data (hd : h.isData = true) (turns : List Turn) :
    kissHandleFrame t turns h = kissSendToModem t turns h.frame (h.bytes.drop 1) := by
  obtain ⟨h2, hport, hcmd⟩ := (isData_iff h).mp hd
  unfold kissHandleFrame
  dsimp only
  rw [if_neg (by omega), if_neg (by omega), if_neg (by omega), if_neg hport, if_pos hcmd]

/-- What the model of the call by turns does with the result `r` of the
channel. -/
theorem Outcome.effect {payload : List UInt8} {r : AX25Ctx × List UInt8 × Bool} {modem : AX25Ctx}
    {acts : List SendAct} (hout : Outcome payload r modem acts) {turns : List Turn}
    (hr : kissChannel t turns = some r) (rbuf : ℕ → UInt8) :
    kissSendToModem t turns rbuf payload = some ⟨{ t with modem := modem }, rbuf,
      acts.flatMap SendAct.serial, acts.flatMap SendAct.air, false⟩ := by
  obtain ⟨hserial, hair, hmodem⟩ := hout
  obtain ⟨m, serial, send⟩ := r
  rw [hserial, hair, hmodem, kissSendToModem, hr]
  cases send <;> rfl

/-- A call that comes back got the channel, or lost it, as some turns do. -/
theorem Ready.channel (hready : Ready lay t h ram) (es : List Env)
    (hdone : (final (payloadStep lay t h) (.begin t ram) es).pc = .done) :
    ∃ r turns, kissChannel t turns = some r ∧
      Outcome (h.bytes.drop 1) r (final (payloadStep lay t h) (.begin t ram) es).modem
        (outs (payloadStep lay t h) (.begin t ram) es) := by
  obtain ⟨hlen, hfits⟩ := hready.length_payload
  unfold payloadStep at hdone ⊢
  rw [← hlen] at hdone ⊢
  cases es with
  | nil => exact absurd hdone nofun
  | cons e es =>
    rw [final_cons] at hdone ⊢
    rw [outs_cons]
    by_cases hfull : t.settings.rf.duplex = rfDuplexFull
    · have hs : sendStep lay t.settings.rf (lay.reader + 1) (h.bytes.drop 1).length (.begin t ram) e =
          ({ Sender.begin t ram with pc := .done, modem := (ax25SendRaw t.modem (h.bytes.drop 1)).1 },
            [.sendRaw (h.bytes.drop 1) (ax25SendRaw t.modem (h.bytes.drop 1)).2]) := by
        show sendStart .. = _
        rw [sendStart, if_pos hfull, hready.holds.raw]
        rfl
      have hquiet : (sendStep lay t.settings.rf (lay.reader + 1) (h.bytes.drop 1).length (.begin t ram) e).1.Quiet := by
        rw [hs]
        exact Or.inl rfl
      obtain ⟨hmodem, hnone⟩ := hquiet.run lay t.settings.rf (lay.reader + 1) (h.bytes.drop 1).length es
      rw [hmodem, hnone, List.append_nil, hs]
      exact ⟨(t.modem, [], true), [], if_pos hfull, rfl, List.append_nil _, rfl⟩
    · have hs : sendStep lay t.settings.rf (lay.reader + 1) (h.bytes.drop 1).length (.begin t ram) e =
          ({ Sender.begin t ram with pc := .check }, []) := if_neg hfull
      have hstep := hready.holds.step hfits e
      rw [hs] at hdone hstep ⊢
      obtain ⟨r, ⟨turns, hr⟩, hout⟩ := hstep.turns hfits es ⟨rfl, nofun, nofun⟩ hdone
      exact ⟨r, turns, (if_neg hfull).trans hr, hout⟩

/-- **The steps refine the turns**: what a call that comes back has done,
`kissHandleFrame` does for some turns. -/
theorem handleFrame_of_run (hready : Ready lay t h ram) (es : List Env)
    (hdone : (final (payloadStep lay t h) (.begin t ram) es).pc = .done) :
    ∃ turns, kissHandleFrame t turns h =
      some ⟨{ t with modem := (final (payloadStep lay t h) (.begin t ram) es).modem }, h.frame,
        (outs (payloadStep lay t h) (.begin t ram) es).flatMap SendAct.serial,
        (outs (payloadStep lay t h) (.begin t ram) es).flatMap SendAct.air, false⟩ := by
  obtain ⟨r, turns, hr, hout⟩ := hready.channel es hdone
  exact ⟨turns, (kissHandleFrame_data hready.data turns).trans (hout.effect hr h.frame)⟩

end Refines

end TinyAprs
