/-
# A frame from one station's channel to another's hook

What a station writes for a frame body is `airFrame`: a flag, the body and
its CRC trailer stuffed, a flag. A station that reads it with no escape
pending takes the opening flag as the start of a frame whatever it was doing
before, collects the body and the trailer (`Got`), and at the closing flag
finds the residue and tells its hook (`outs_airFrame`).
-/
import TinyAprs.Ax25

namespace TinyAprs

open Mealy

/-! ### What is written -/

theorem ax25Putchar_snd (ctx : AX25Ctx) (c : UInt8) : (ax25Putchar ctx c).2 = ax25Stuffing.word c := by
  by_cases h : (c == hdlcFlag || c == hdlcReset || c == ax25Esc) = true
  · simp [ax25Putchar, Stuffing.word, ax25Stuffing, h]
  · simp [ax25Putchar, Stuffing.word, ax25Stuffing, h]

theorem final_putchar : ∀ (cs : List UInt8) (ctx : AX25Ctx),
    final ax25Putchar ctx cs = { ctx with crcOut := crcCcitt ctx.crcOut cs }
  | [], _ => rfl
  | c :: cs, ctx => by rw [final_cons, final_putchar cs]; rfl

theorem outs_putchar : ∀ (cs : List UInt8) (ctx : AX25Ctx),
    outs ax25Putchar ctx cs = ax25Stuffing.encode cs
  | [], _ => rfl
  | c :: cs, ctx => by rw [outs_cons, ax25Putchar_snd, outs_putchar cs, Stuffing.encode_cons]

theorem ax25Puts_eq (ctx : AX25Ctx) (cs : List UInt8) :
    ax25Puts ctx cs = ({ ctx with crcOut := crcCcitt ctx.crcOut cs }, ax25Stuffing.encode cs) := by
  rw [ax25Puts, final_putchar, outs_putchar]

/-- A frame body with its CRC trailer. -/
def withCrc (body : List UInt8) : List UInt8 := body ++ crcTrailer (crcCcitt crcCcittInitVal body)

@[simp] theorem length_withCrc (body : List UInt8) : (withCrc body).length = body.length + 2 := by
  simp [withCrc, crcTrailer]

theorem crcCcitt_withCrc (body : List UInt8) :
    crcCcitt crcCcittInitVal (withCrc body) = ax25CrcCorrect := by
  rw [withCrc, crcCcitt_append, crcCcitt_trailer]
  rfl

/-- The channel bytes of a frame. -/
def airFrame (body : List UInt8) : List UInt8 :=
  hdlcFlag :: (ax25Stuffing.encode (withCrc body) ++ [hdlcFlag])

theorem ax25SendRaw_air (ctx : AX25Ctx) (buf : List UInt8) : (ax25SendRaw ctx buf).2 = airFrame buf := by
  simp [ax25SendRaw, ax25SendCrc, ax25Puts_eq, airFrame, withCrc, crcTrailer, Stuffing.encode_append]

/-- The addresses of the path from entry `i`, `n` of them, as
`ax25_sendMsg` puts them. -/
def pathBytes (msg : AX25Msg) : ℕ → ℕ → List UInt8
  | _, 0 => []
  | i, n + 1 =>
    callBytes (msg.rptLst i) (i == msg.rptCnt - 1) (ax25Repeated msg i) ++ pathBytes msg (i + 1) n

theorem ax25SendPath_eq (msg : AX25Msg) : ∀ (n i : ℕ) (ctx : AX25Ctx),
    ax25SendPath ctx msg i n = ({ ctx with crcOut := crcCcitt ctx.crcOut (pathBytes msg i n) },
      ax25Stuffing.encode (pathBytes msg i n))
  | 0, _, _ => rfl
  | n + 1, i, ctx => by
    simp only [ax25SendPath, ax25SendCall, ax25Puts_eq, ax25SendPath_eq msg n, pathBytes,
      crcCcitt_append, Stuffing.encode_append]

def msgBytes (msg : AX25Msg) : List UInt8 :=
  callBytes msg.dst false false ++ callBytes msg.src false false ++ pathBytes msg 0 msg.rptCnt ++
    [ax25CtrlUi, ax25PidNolayer3] ++ msg.info.bytes msg.len

theorem ax25SendMsg_air (ctx : AX25Ctx) (msg : AX25Msg) :
    (ax25SendMsg ctx msg).2 = if msg.rptCnt = 0 ∨ msg.len = 0 then [] else airFrame (msgBytes msg) := by
  unfold ax25SendMsg
  split
  · rfl
  · simp [ax25SendCall, ax25SendCrc, ax25Puts_eq, ax25SendPath_eq, airFrame, withCrc, crcTrailer,
      msgBytes, Stuffing.encode_append, crcCcitt_append]

/-! ### What is read -/

/-- The receiver is in a frame and has got `f` of it; the callback and the
mode are those of `ctx₀`. -/
structure Got (ctx₀ : AX25Ctx) (f : List UInt8) (ctx : AX25Ctx) : Prop where
  sync : ctx.sync = true
  frmLen : ctx.frmLen = f.length
  buf : Cells.At ctx.buf 0 f
  crcIn : ctx.crcIn = crcCcitt crcCcittInitVal f
  hook : ctx.hook = ctx₀.hook
  passThrough : ctx.passThrough = ctx₀.passThrough

variable (stk : AX25Msg) {ctx₀ ctx : AX25Ctx} {f : List UInt8}

@[simp] theorem dcdByte_sync (ctx : AX25Ctx) (c : UInt8) : (ctx.dcdByte c).sync = ctx.sync := by
  unfold AX25Ctx.dcdByte; dsimp only; split_ifs <;> rfl

@[simp] theorem dcdByte_frmLen (ctx : AX25Ctx) (c : UInt8) : (ctx.dcdByte c).frmLen = ctx.frmLen := by
  unfold AX25Ctx.dcdByte; dsimp only; split_ifs <;> rfl

@[simp] theorem dcdByte_buf (ctx : AX25Ctx) (c : UInt8) : (ctx.dcdByte c).buf = ctx.buf := by
  unfold AX25Ctx.dcdByte; dsimp only; split_ifs <;> rfl

@[simp] theorem dcdByte_crcIn (ctx : AX25Ctx) (c : UInt8) : (ctx.dcdByte c).crcIn = ctx.crcIn := by
  unfold AX25Ctx.dcdByte; dsimp only; split_ifs <;> rfl

@[simp] theorem dcdByte_hook (ctx : AX25Ctx) (c : UInt8) : (ctx.dcdByte c).hook = ctx.hook := by
  unfold AX25Ctx.dcdByte; dsimp only; split_ifs <;> rfl

@[simp] theorem dcdByte_passThrough (ctx : AX25Ctx) (c : UInt8) :
    (ctx.dcdByte c).passThrough = ctx.passThrough := by
  unfold AX25Ctx.dcdByte; dsimp only; split_ifs <;> rfl

theorem Got.data (h : Got ctx₀ f ctx) (c : UInt8) (hf : f.length < configAx25FrameBufLen) :
    Got ctx₀ (f ++ [c]) { ax25PollData ctx c with escape := false } := by
  have hlen : ctx.frmLen < configAx25FrameBufLen := by rw [h.frmLen]; exact hf
  rw [ax25PollData, if_pos h.sync, if_pos hlen]
  refine ⟨?_, ?_, ?_, ?_, ?_, ?_⟩
  · simpa using h.sync
  · simp [h.frmLen]
  · simpa [h.frmLen] using h.buf.snoc c
  · simp [h.crcIn, crcCcitt_append]
  · simpa using h.hook
  · simpa using h.passThrough

/-- A byte that is not special, or comes behind an escape, is data. -/
theorem pollChar_data (ctx : AX25Ctx) {c : UInt8} (h : ctx.escape = true ∨ ax25Stuffing.special c = false) :
    ax25PollChar stk ctx c = ({ ax25PollData ctx c with escape := false }, []) := by
  rcases h with h | h
  · simp [ax25PollChar, h]
  · have h3 : c ≠ hdlcFlag ∧ c ≠ hdlcReset ∧ c ≠ ax25Esc := by
      rwa [← Bool.not_eq_true, special_iff, not_or, not_or] at h
    simp [ax25PollChar, h3]

theorem pollChar_esc (hesc : ctx.escape = false) :
    ax25PollChar stk ctx ax25Esc = ({ ctx with escape := true }, []) := by
  have h1 : ax25Esc ≠ hdlcFlag := by decide
  have h2 : ax25Esc ≠ hdlcReset := by decide
  simp [ax25PollChar, hesc, h1, h2]

/-- A stuffed byte that fits joins the frame, and nobody is told. -/
theorem Got.word (h : Got ctx₀ f ctx) (hesc : ctx.escape = false) (c : UInt8)
    (hf : f.length < configAx25FrameBufLen) :
    (Got ctx₀ (f ++ [c]) (final (ax25PollChar stk) ctx (ax25Stuffing.word c)) ∧
      (final (ax25PollChar stk) ctx (ax25Stuffing.word c)).escape = false) ∧
      outs (ax25PollChar stk) ctx (ax25Stuffing.word c) = [] := by
  cases hc : ax25Stuffing.special c with
  | false =>
    rw [Stuffing.word_of_plain _ hc]
    simp only [final_cons, final_nil, outs_cons, outs_nil, pollChar_data stk ctx (Or.inr hc), List.append_nil]
    exact ⟨⟨h.data c hf, trivial⟩, trivial⟩
  | true =>
    rw [Stuffing.word_of_special _ hc]
    show (Got ctx₀ (f ++ [c]) (final (ax25PollChar stk) ctx [ax25Esc, c]) ∧
      (final (ax25PollChar stk) ctx [ax25Esc, c]).escape = false) ∧
      outs (ax25PollChar stk) ctx [ax25Esc, c] = []
    have h' : Got ctx₀ f { ctx with escape := true } := ⟨h.1, h.2, h.3, h.4, h.5, h.6⟩
    simp only [final_cons, final_nil, outs_cons, outs_nil, pollChar_esc stk hesc,
      pollChar_data stk { ctx with escape := true } (Or.inl rfl), List.append_nil]
    exact ⟨⟨h'.data c hf, trivial⟩, trivial⟩

theorem Got.encode (h : Got ctx₀ [] ctx) (hesc : ctx.escape = false)
    (hf : f.length ≤ configAx25FrameBufLen) :
    (Got ctx₀ f (final (ax25PollChar stk) ctx (ax25Stuffing.encode f)) ∧
      (final (ax25PollChar stk) ctx (ax25Stuffing.encode f)).escape = false) ∧
      outs (ax25PollChar stk) ctx (ax25Stuffing.encode f) = [] := by
  refine ax25Stuffing.run_encode (fun g s => Got ctx₀ g s ∧ s.escape = false)
    (fun g c s hpre hg => ?_) f [] ctx rfl ⟨h, hesc⟩
  have hlen := hpre.length_le
  simp only [List.length_append, List.length_singleton] at hlen
  exact hg.1.word stk hg.2 c (by omega)

/-- An unescaped flag starts a frame, whatever the receiver was doing. -/
theorem got_flag (hesc : ctx.escape = false) :
    Got ctx [] (ax25PollChar stk ctx hdlcFlag).1 ∧ (ax25PollChar stk ctx hdlcFlag).1.escape = false := by
  have hstep : ax25PollChar stk ctx hdlcFlag = ax25PollFlag stk ctx := by simp [ax25PollChar, hesc]
  rw [hstep, ax25PollFlag]
  refine ⟨⟨rfl, rfl, rfl, rfl, ?_, ?_⟩, ?_⟩
  · dsimp only; split_ifs <;> rfl
  · dsimp only; split_ifs <;> rfl
  · dsimp only; split_ifs <;> exact hesc

theorem Got.close (h : Got ctx₀ f ctx) (hesc : ctx.escape = false) (hmin : ax25MinFrameLen ≤ f.length)
    (hcrc : crcCcitt crcCcittInitVal f = ax25CrcCorrect) :
    ∃ ctx', Got ctx₀ f ctx' ∧ (ax25PollChar stk ctx hdlcFlag).2 = ax25Deliver stk ctx' := by
  refine ⟨{ ctx with stat.rxOk := ctx.stat.rxOk + 1 }, ⟨h.1, h.2, h.3, h.4, h.5, h.6⟩, ?_⟩
  have hlen : ctx.frmLen ≥ ax25MinFrameLen := by rw [h.frmLen]; exact hmin
  have hin : ctx.crcIn = ax25CrcCorrect := by rw [h.crcIn, hcrc]
  simp [ax25PollChar, hesc, ax25PollFlag, hlen, hin]

/-- What the hook of a station is told once the first byte of `air` is in. -/
def heardAfterFlag (stk : AX25Msg) (ctx : AX25Ctx) (air : List UInt8) : List HookCall :=
  outs (ax25PollChar stk) (final (ax25PollChar stk) ctx (air.take 1)) (air.drop 1)

/-- **A frame gets through.** After its opening flag, the channel bytes of a
frame make the receiver tell its hook once, with the body and the trailer in
the buffer. -/
theorem outs_airFrame (hesc : ctx.escape = false) (body : List UInt8)
    (hmin : ax25MinFrameLen ≤ body.length + 2) (hmax : body.length + 2 ≤ configAx25FrameBufLen) :
    ∃ ctx', Got ctx (withCrc body) ctx' ∧
      outs (ax25PollChar stk) (ax25PollChar stk ctx hdlcFlag).1 (airFrame body).tail =
        ax25Deliver stk ctx' := by
  obtain ⟨h0, hesc0⟩ := got_flag stk hesc
  obtain ⟨⟨h1, hesc1⟩, hout⟩ := h0.encode stk (f := withCrc body) hesc0 (by simpa using hmax)
  obtain ⟨ctx', h2, hd⟩ := h1.close stk hesc1 (by simpa using hmin) (crcCcitt_withCrc body)
  refine ⟨ctx', h2, ?_⟩
  rw [airFrame, List.tail_cons, outs_append, hout, outs_cons, outs_nil, hd]
  simp

end TinyAprs
