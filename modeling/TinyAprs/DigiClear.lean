/-
# What a digipeater leaves of a frame

The digipeater does not forward the frame it has received: it decodes it and
sends the message it got. `DECODE_CALL` keeps seven bits of a character and
turns a space into a NUL, `ax25_sendCall` stops at the first NUL and puts
letters in upper case, and of the SSID byte only the four bits of the SSID
are kept; the others are always sent as `0x60`. So ctrl, pid and info go out
as they came in, and an address does exactly when it is written the way
`ax25_sendCall` writes one (`PlainAddress`).
-/
import TinyAprs.Ax25Inside
import TinyAprs.DigiPath

namespace TinyAprs

open Mealy

/-- `islower` -/
def islower (c : UInt8) : Bool := decide (0x61 ≤ c ∧ c ≤ 0x7a)

/-- Address characters as they are sent: shifted, no NUL, no lower-case
letter, and spaces at the end only. -/
def plainChars : List UInt8 → Bool
  | [] => true
  | b :: bs =>
    if b = 0x40 then bs.all (· == 0x40)
    else b &&& 0x01 == 0 && b != 0 && !islower (b >>> 1) && plainChars bs

/-- An address as `ax25_sendCall` writes one: plain characters, the
command/response bit clear and the two bits behind it set. -/
def PlainAddress (a : List UInt8) : Prop :=
  plainChars (a.take 6) = true ∧ a.getD 6 0 &&& 0xE0 = 0x60

instance (a : List UInt8) : Decidable (PlainAddress a) := inferInstanceAs (Decidable (_ ∧ _))

/-- The same seven bytes, but for the end-of-address bit. -/
def SameAddress (a b : List UInt8) : Prop :=
  a.take 6 = b.take 6 ∧ a.getD 6 0 &&& 0xFE = b.getD 6 0 &&& 0xFE

instance (a b : List UInt8) : Decidable (SameAddress a b) := inferInstanceAs (Decidable (_ ∧ _))

/-! ### An address, decoded and sent -/

/-- The characters that come out for those that came in. -/
def charsAgain : List UInt8 → List UInt8
  | [] => []
  | b :: bs =>
    if decodeChar b = 0 then List.replicate (bs.length + 1) ((0x20 : UInt8) <<< 1)
    else toupper (decodeChar b) <<< 1 :: charsAgain bs

theorem charsAgain_eq (bs : List UInt8) : charsAgain bs =
    ((bs.map decodeChar).takeWhile (· != 0)).map (fun c => toupper c <<< 1) ++
      List.replicate (bs.length - ((bs.map decodeChar).takeWhile (· != 0)).length) ((0x20 : UInt8) <<< 1) := by
  induction bs with
  | nil => rfl
  | cons b bs ih =>
    unfold charsAgain
    split_ifs with h
    · simp [h]
    · simp [h, ih]

theorem decodeChar_eq_zero_iff (b : UInt8) :
    decodeChar b = 0 ↔ b = 0 ∨ b = 0x01 ∨ b = 0x40 ∨ b = 0x41 := by
  revert b
  decide +kernel

/-- A character that does not end the call comes out as it came in, unless its
low bit is set or it is a lower-case letter. -/
theorem charAgain_iff (b : UInt8) (h : decodeChar b ≠ 0) :
    toupper (decodeChar b) <<< 1 = b ↔
      (b &&& 0x01 == 0 && b != 0 && !islower (b >>> 1)) = true := by
  revert b
  decide +kernel

theorem charsAgain_eq_iff (bs : List UInt8) : charsAgain bs = bs ↔ plainChars bs = true := by
  induction bs with
  | nil => exact ⟨fun _ => rfl, fun _ => rfl⟩
  | cons b bs ih =>
    unfold charsAgain plainChars
    by_cases h0 : decodeChar b = 0
    · rw [if_pos h0, List.replicate_succ, List.cons.injEq]
      split_ifs with h40
      · subst h40
        have hrep : List.replicate bs.length ((0x20 : UInt8) <<< 1) = bs ↔ ∀ c ∈ bs, c = 0x40 := by
          rw [eq_comm, List.eq_replicate_iff]
          exact and_iff_right rfl
        rw [hrep, and_iff_right (by decide), List.all_eq_true]
        simp only [beq_iff_eq]
      · have hne : ¬ ((0x20 : UInt8) <<< 1 = b) := fun h => h40 h.symm
        have hbit : (b &&& 0x01 == 0 && b != 0) = false := by
          rcases (decodeChar_eq_zero_iff b).mp h0 with rfl | rfl | rfl | rfl <;> first | rfl | exact absurd rfl h40
        simp [hne, hbit]
    · have h40 : b ≠ 0x40 := fun h => h0 (by rw [h]; decide)
      rw [if_neg h0, if_neg h40, List.cons.injEq, ih, charAgain_iff b h0, Bool.and_eq_true (_ && _ && _)]

theorem ssidAgain_iff (b : UInt8) : ssidByte (decodeSsid b) false false &&& 0xFE = b &&& 0xFE ↔
    b &&& 0xE0 = 0x60 := by
  revert b
  decide +kernel

/-- The bytes of an address that is decoded and sent again. -/
theorem callBytes_decoded (buf : ℕ → UInt8) (p : ℕ) :
    callBytes ⟨decodeCall buf p, decodeSsid (buf (p + 6))⟩ false false =
      charsAgain (Cells.slice buf p 6) ++ [ssidByte (decodeSsid (buf (p + 6))) false false] := by
  have hcall : (decodeCall buf p).toList = (Cells.slice buf p 6).map decodeChar := by
    simp [decodeCall, Cells.slice, List.range_succ]
    rfl
  rw [callBytes, callChars, charsAgain_eq, cstr, hcall, Cells.length_slice]

/-- **An address goes through** exactly when it is plain. -/
theorem sameAddress_iff (buf : ℕ → UInt8) (p : ℕ) :
    SameAddress (callBytes ⟨decodeCall buf p, decodeSsid (buf (p + 6))⟩ false false) (Cells.slice buf p 7) ↔
      PlainAddress (Cells.slice buf p 7) := by
  have hlen : (charsAgain (Cells.slice buf p 6)).length = 6 := by
    have h := length_callChars ⟨decodeCall buf p, decodeSsid (buf (p + 6))⟩
    have hb := congrArg List.length (callBytes_decoded buf p)
    rw [length_callBytes, List.length_append, List.length_singleton] at hb
    omega
  have htake : (Cells.slice buf p 7).take 6 = Cells.slice buf p 6 := by
    rw [Cells.slice_succ, List.take_left' (Cells.length_slice ..)]
  have hlast : (Cells.slice buf p 7).getD 6 0 = buf (p + 6) := by
    simp [Cells.slice]
  rw [SameAddress, PlainAddress, callBytes_decoded, htake, hlast, List.take_left' hlen,
    List.getD_append_right _ _ _ _ (Nat.le_of_eq hlen), hlen, charsAgain_eq_iff, Nat.sub_self,
    List.getD_cons_zero, ssidAgain_iff]

/-! ### A frame -/

/-- The repeater loop leaves the two calls alone and reads seven bytes an
entry. -/
theorem decodeRpt_head (buf : ℕ → UInt8) (n p : ℕ) (msg : AX25Msg) :
    (decodeRpt buf n p msg).2.dst = msg.dst ∧ (decodeRpt buf n p msg).2.src = msg.src ∧
      (decodeRpt buf n p msg).1 + 7 * msg.rptCnt = p + 1 + 7 * (decodeRpt buf n p msg).2.rptCnt := by
  induction n generalizing p msg with
  | zero => exact ⟨rfl, rfl, rfl⟩
  | succ n ih =>
    unfold decodeRpt
    split_ifs
    · obtain ⟨h1, h2, h3⟩ := ih (p + 7) (decodeRptAddr buf p msg)
      refine ⟨h1, h2, ?_⟩
      change _ + 7 * (msg.rptCnt + 1) = _ at h3
      omega
    · exact ⟨rfl, rfl, rfl⟩

theorem decoded_parts {stk : AX25Msg} {ctx : AX25Ctx} {msg : AX25Msg} (h : ax25Decode stk ctx = some msg) :
    msg.dst = ⟨decodeCall ctx.buf 0, decodeSsid (ctx.buf 6)⟩ ∧
      msg.src = ⟨decodeCall ctx.buf 7, decodeSsid (ctx.buf 13)⟩ ∧
      msg.info = ⟨ctx.buf, 14 + 7 * msg.rptCnt + 2⟩ ∧ ctx.buf (14 + 7 * msg.rptCnt) = ax25CtrlUi ∧
      ctx.buf (14 + 7 * msg.rptCnt + 1) = ax25PidNolayer3 := by
  obtain ⟨hdst, hsrc, hend⟩ := decodeRpt_head ctx.buf ax25MaxRpt 13 (decodeHead stk ctx.buf)
  have hq : (decodeRpt ctx.buf ax25MaxRpt 13 (decodeHead stk ctx.buf)).1 =
      14 + 7 * (decodeRpt ctx.buf ax25MaxRpt 13 (decodeHead stk ctx.buf)).2.rptCnt := by
    simpa [decodeHead] using hend
  rw [ax25Decode] at h
  split_ifs at h with hc hp
  obtain rfl := Option.some.inj h
  dsimp only
  rw [← hq]
  exact ⟨hdst, hsrc, rfl, not_not.mp hc, not_not.mp hp⟩

theorem rewrite_keeps {mycall : AX25Call} {msg msg' : AX25Msg} {i : ℕ} (hi : i < msg.rptCnt)
    (h : rewrite mycall msg i = some msg') :
    msg'.dst = msg.dst ∧ msg'.src = msg.src ∧ msg'.info = msg.info ∧ msg'.len = msg.len := by
  unfold rewrite at h
  split_ifs at h
  · obtain ⟨msg₁, hsplit, rfl⟩ := Option.map_eq_some_iff.mp h
    obtain ⟨-, c, -, rfl⟩ := splitHops_eq hi hsplit
    exact ⟨rfl, rfl, rfl, rfl⟩
  · obtain rfl := Option.some.inj h
    exact ⟨rfl, rfl, rfl, rfl⟩

/-- A frame without its CRC. -/
def HookCall.heard (call : HookCall) : List UInt8 := Cells.slice call.ctx.buf 0 (call.ctx.frmLen - 2)

theorem heard_addresses {call : HookCall} (hmin : ax25MinFrameLen ≤ call.ctx.frmLen) :
    call.heard.take 7 = Cells.slice call.ctx.buf 0 7 ∧ (call.heard.drop 7).take 7 = Cells.slice call.ctx.buf 7 7 := by
  have hlen : 14 + (call.ctx.frmLen - 16) = call.ctx.frmLen - 2 := by
    change 18 ≤ call.ctx.frmLen at hmin
    omega
  have hcut : call.heard = Cells.slice call.ctx.buf 0 7 ++ (Cells.slice call.ctx.buf 7 7 ++
      Cells.slice call.ctx.buf 14 (call.ctx.frmLen - 16)) := by
    rw [HookCall.heard, ← hlen, Cells.slice_add, Cells.slice_add call.ctx.buf 0 7 7, List.append_assoc]
  rw [hcut, List.take_left' (Cells.length_slice ..), List.drop_left' (Cells.length_slice ..),
    List.take_left' (Cells.length_slice ..)]
  exact ⟨rfl, rfl⟩

/-- What is sent of a frame that holds its whole header: the two addresses as
they come out, and ctrl, pid and info as they came in. -/
theorem sent_parts {msg msg' : AX25Msg} {call : HookCall} {stk : AX25Msg} (hdec : ax25Decode stk call.ctx = some msg)
    (hin : InFrame call.ctx msg) (hsame : msg'.dst = msg.dst ∧ msg'.src = msg.src ∧ msg'.info = msg.info ∧
      msg'.len = msg.len) :
    (msgBytes msg').take 7 = callBytes msg.dst false false ∧
      ((msgBytes msg').drop 7).take 7 = callBytes msg.src false false ∧
      (msgBytes msg').drop (14 + 7 * msg'.rptCnt) = call.heard.drop (14 + 7 * msg.rptCnt) := by
  obtain ⟨hd, hs, hi, hl⟩ := hsame
  obtain ⟨-, -, hinfo, hctrl, hpid⟩ := decoded_parts hdec
  obtain ⟨-, hlen, -⟩ := hin
  rw [hinfo] at hlen
  change 14 + 7 * msg.rptCnt + 2 + msg.len = _ at hlen
  have hbody : msgBytes msg' = callBytes msg.dst false false ++ (callBytes msg.src false false ++
      (pathBytes msg' 0 msg'.rptCnt ++ ([ax25CtrlUi, ax25PidNolayer3] ++ msg.info.bytes msg.len))) := by
    simp only [msgBytes, hd, hs, hi, hl, List.append_assoc]
  have htail : call.heard.drop (14 + 7 * msg.rptCnt) =
      [ax25CtrlUi, ax25PidNolayer3] ++ msg.info.bytes msg.len := by
    rw [HookCall.heard, ← hlen, show 14 + 7 * msg.rptCnt + 2 + msg.len = 14 + 7 * msg.rptCnt + (2 + msg.len) by omega,
      Cells.slice_add, List.drop_left' (Cells.length_slice ..), Cells.slice_add, hinfo, ← hctrl, ← hpid]
    simp [Ptr.bytes, Cells.slice, List.range_succ]
  rw [hbody, htail]
  refine ⟨List.take_left' (length_callBytes ..), ?_, ?_⟩
  · rw [List.drop_left' (length_callBytes ..), List.take_left' (length_callBytes ..)]
  · rw [← List.append_assoc, ← List.append_assoc, List.drop_left']
    rw [List.length_append, List.length_append, length_callBytes, length_callBytes, length_pathBytes]

/-- **A digipeater passes ctrl, pid and info on, and an address if it is
plain.** In every run of the receiver, of a frame with a good CRC that holds
its whole header, if the digipeater sends its message on: all bytes behind the
address field are those received; and the bytes of the destination, and those
of the source, are those received up to the end-of-address bit if and only if
the address is plain. -/
theorem digi_transparent_iff (stk : AX25Msg) (ctx₀ : AX25Ctx) (h₀ : ctx₀.frmLen ≤ configAx25FrameBufLen)
    (hist : List UInt8) (call : HookCall) (hcall : call ∈ outs (ax25PollChar stk) ctx₀ hist) (msg : AX25Msg)
    (hmsg : call.msg = some msg) (hfits : HeaderFits call.heard) (s : Station)
    (hair : (s.handle msg).air ≠ []) :
    ∃ msg' body, (s.handle msg).sent = some msg' ∧ (s.handle msg).air = airFrame body ∧
      body.drop (14 + 7 * msg'.rptCnt) = call.heard.drop (14 + 7 * msg.rptCnt) ∧
      (SameAddress (body.take 7) (call.heard.take 7) ↔ PlainAddress (call.heard.take 7)) ∧
      (SameAddress ((body.drop 7).take 7) ((call.heard.drop 7).take 7) ↔
        PlainAddress ((call.heard.drop 7).take 7)) := by
  obtain ⟨hmin, hmax, hdec⟩ := run_call h₀ hist call hcall
  have hdec := hdec msg hmsg
  have hin : InFrame call.ctx msg := (decode_inFrame_iff hmin hmax hdec).mpr hfits
  obtain ⟨i, hi, -, msg', hw, hsent, ha⟩ := handle_air hair
  obtain ⟨h1, h2, h3⟩ := sent_parts hdec hin (rewrite_keeps hi hw)
  obtain ⟨hdst, hsrc, -⟩ := decoded_parts hdec
  have hframe := heard_addresses hmin
  refine ⟨msg', msgBytes msg', hsent, ?_, h3, ?_, ?_⟩
  · rw [ha, ax25SendMsg_air, if_neg]
    intro h
    rw [ha, ax25SendMsg_air, if_pos h] at hair
    exact hair rfl
  · rw [h1, hframe.1, hdst]
    exact sameAddress_iff call.ctx.buf 0
  · rw [h2, hframe.2, hsrc]
    exact sameAddress_iff call.ctx.buf 7

/-- Of the station's call and the frame received, only the path is new. -/
theorem digi_transparent_iff_wide :
    ∃ call ∈ outs (ax25PollChar zeroMsg) (ax25Init true) (airFrame wideFrame), ∃ msg, call.msg = some msg ∧
      ∃ msg' body, (freshStation.handle msg).sent = some msg' ∧ (freshStation.handle msg).air = airFrame body ∧
        body.drop (14 + 7 * msg'.rptCnt) = call.heard.drop (14 + 7 * msg.rptCnt) ∧
        (SameAddress (body.take 7) (call.heard.take 7) ↔ PlainAddress (call.heard.take 7)) ∧
        (SameAddress ((body.drop 7).take 7) ((call.heard.drop 7).take 7) ↔
          PlainAddress ((call.heard.drop 7).take 7)) := by
  have h : (outs (ax25PollChar zeroMsg) (ax25Init true) (airFrame wideFrame)).any (fun call =>
      call.heard == wideFrame && call.msg.any fun msg => !(freshStation.handle msg).air.isEmpty) = true := by
    decide +kernel
  obtain ⟨call, hcall, hc⟩ := List.any_eq_true.mp h
  rw [Bool.and_eq_true, beq_iff_eq] at hc
  obtain ⟨msg, hmsg, hair⟩ := (Option.any_eq_true _ _).mp hc.2
  refine ⟨call, hcall, msg, hmsg, digi_transparent_iff zeroMsg (ax25Init true) (by decide) (airFrame wideFrame)
    call hcall msg hmsg ?_ freshStation ?_⟩
  · rw [hc.1]
    exact ⟨1, by decide, by decide, by decide, Or.inr (by decide)⟩
  · rintro hnil
    rw [hnil] at hair
    exact absurd hair (by decide)

/-- The same frame as a command: the C bit of the destination is set. -/
def commandFrame : List UInt8 := wideFrame.set 6 0xE0

/-- What the digipeater NOCALL sends for it. -/
def commandSent : List UInt8 :=
  [0x82, 0xa0, 0xa4, 0xa6, 0x40, 0x40, 0x60, 0x9c, 0x60, 0x86, 0x82, 0x98, 0x98, 0x60,
    0x9c, 0x9e, 0x86, 0x82, 0x98, 0x98, 0xe1, 0x03, 0xf0, 0x21]

/-- The C bit is lost. -/
theorem command_bit_lost :
    ∃ call ∈ outs (ax25PollChar zeroMsg) (ax25Init true) (airFrame commandFrame),
      call.heard = commandFrame ∧ HeaderFits call.heard ∧ ∃ msg, call.msg = some msg ∧
        (freshStation.handle msg).air = airFrame commandSent ∧
        ¬ SameAddress (commandSent.take 7) (call.heard.take 7) := by
  have h : (outs (ax25PollChar zeroMsg) (ax25Init true) (airFrame commandFrame)).any (fun call =>
      call.heard == commandFrame &&
        call.msg.any fun msg => (freshStation.handle msg).air == airFrame commandSent) = true := by
    decide +kernel
  obtain ⟨call, hcall, hc⟩ := List.any_eq_true.mp h
  rw [Bool.and_eq_true, beq_iff_eq] at hc
  obtain ⟨msg, hmsg, hair⟩ := (Option.any_eq_true _ _).mp hc.2
  rw [beq_iff_eq] at hair
  refine ⟨call, hcall, hc.1, ?_, msg, hmsg, hair, ?_⟩
  · rw [hc.1]
    exact ⟨1, by decide, by decide, by decide, Or.inr (by decide)⟩
  · rw [hc.1]
    decide

end TinyAprs
