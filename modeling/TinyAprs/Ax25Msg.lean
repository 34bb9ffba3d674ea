/-
# A message from `ax25_sendMsg` to the hook of another station

Encoder and decoder are separate code: `ax25_sendCall` cuts a call at its
first NUL, puts it in upper case and fills up with spaces, `DECODE_CALL`
turns spaces into NULs, and the SSID byte carries the SSID, the
has-been-repeated flag and, in bit 0, the end of the address list that the
decoder's loop runs on. `airCall` is what a call becomes on this way, and
`decode_uiBytes` says that a frame body made of a message decodes to that
message with every call so changed. A call of upper-case letters and digits
comes back as it was (`airCall_of_valid`), which gives the round trip
`ax25SendMsg_round_trip`.
-/
import Mathlib.Data.Nat.Bitwise
import TinyAprs.Ax25Frame

namespace TinyAprs

open Mealy

/-! ### The repeated flags -/

theorem bv_toNat {i : ℕ} (h : i < 8) : (bv i).toNat = 2 ^ i := by
  have : 2 ^ i < 2 ^ 8 := Nat.pow_lt_pow_right (by decide) h
  simp only [bv, UInt8.toNat_ofNat']
  exact Nat.mod_eq_of_lt this

theorem flag_eq_testBit (flags : UInt8) {i : ℕ} (h : i < 8) :
    (flags &&& bv i != 0) = flags.toNat.testBit i := by
  have h1 : (flags &&& bv i).toNat = (flags.toNat.testBit i).toNat * 2 ^ i := by
    rw [UInt8.toNat_and, bv_toNat h, Nat.and_two_pow]
  have hpos : 0 < 2 ^ i := Nat.two_pow_pos i
  cases hb : flags.toNat.testBit i with
  | false =>
    have h0 : flags &&& bv i = 0 := UInt8.toNat_inj.mp (by rw [h1, hb]; simp)
    simp [h0]
  | true =>
    have h0 : flags &&& bv i ≠ 0 := fun h0 => by
      rw [h0, hb] at h1
      simp at h1
      omega
    simpa using h0

/-- `AX25_SET_REPEATED` writes its own flag and no other. -/
theorem flag_setRepeated (flags : UInt8) {i j : ℕ} (v : Bool) (hi : i < 8) (hj : j < 8) :
    (setRepeated flags i v &&& bv j != 0) = if j = i then v else (flags &&& bv j != 0) := by
  rw [flag_eq_testBit _ hj, flag_eq_testBit _ hj, setRepeated]
  cases v with
  | true =>
    simp only [if_true, UInt8.toNat_or, bv_toNat hi, Nat.testBit_or, Nat.testBit_two_pow]
    by_cases h : j = i
    · simp [h]
    · simp [h, Ne.symm h]
  | false =>
    have hn : (~~~ bv i).toNat = 2 ^ 8 - (2 ^ i + 1) := by
      rw [UInt8.toNat_not, bv_toNat hi, Nat.sub_sub]
      simp [UInt8.size, Nat.add_comm]
    have hlt : 2 ^ i < 2 ^ 8 := Nat.pow_lt_pow_right (by decide) hi
    simp only [Bool.false_eq_true, if_false, UInt8.toNat_and, hn, Nat.testBit_and,
      Nat.testBit_two_pow_sub_succ hlt, Nat.testBit_two_pow]
    by_cases h : j = i
    · simp [h]
    · simp [h, Ne.symm h, hj]

/-! ### An address on the air -/

theorem ssidByte_last (ssid : UInt8) (last rep : Bool) :
    ssidByte ssid last rep &&& 0x01 = 0 ↔ last = false := by
  revert ssid last rep
  decide +kernel

theorem decodeSsid_ssidByte (ssid : UInt8) (last rep : Bool) :
    decodeSsid (ssidByte ssid last rep) = ssid &&& 0x0F := by
  revert ssid last rep
  decide +kernel

/-- Bit 6 of an SSID out of range lands on the repeated flag. -/
theorem ssidByte_repeated (ssid : UInt8) (last rep : Bool) :
    (ssidByte ssid last rep &&& 0x80 != 0) = (rep || ssid &&& 0x40 != 0) := by
  revert ssid last rep
  decide +kernel

/-- What another station makes of a call. -/
def airCall (addr : AX25Call) : AX25Call where
  call := Vector.ofFn fun i => decodeChar ((callChars addr).getD i 0)
  ssid := addr.ssid &&& 0x0F

theorem length_cstr_le (call : Vector UInt8 6) : (cstr call).length ≤ 6 := by
  have h := (List.takeWhile_sublist (fun c : UInt8 => c != 0) (l := call.toList)).length_le
  simpa [cstr] using h

@[simp] theorem length_callChars (addr : AX25Call) : (callChars addr).length = 6 := by
  have h := length_cstr_le addr.call
  simp [callChars]
  omega

@[simp] theorem length_callBytes (addr : AX25Call) (last rep : Bool) :
    (callBytes addr last rep).length = 7 := by
  simp [callBytes]

/-- The address bytes of a call decode to the call the air makes of it. -/
theorem decode_callBytes {buf : ℕ → UInt8} {p : ℕ} {addr : AX25Call} {last rep : Bool}
    (h : Cells.At buf p (callBytes addr last rep)) :
    decodeCall buf p = (airCall addr).call ∧ buf (p + 6) = ssidByte addr.ssid last rep := by
  obtain ⟨h1, h2⟩ := (Cells.at_append ..).mp h
  constructor
  · refine Vector.ext fun i hi => ?_
    have hc := h1.get (k := i) (by simpa using hi)
    simp [decodeCall, airCall, hc]
  · simpa using h2.get (k := 0) (by simp)

def upperAlnum (c : UInt8) : Bool := (0x41 ≤ c && c ≤ 0x5a) || (0x30 ≤ c && c ≤ 0x39)

/-- A call of 1 to 6 upper-case letters and digits padded with NUL, with an
SSID of 0 to 15. -/
def ValidCall (addr : AX25Call) : Prop :=
  (∃ w : List UInt8, 1 ≤ w.length ∧ w.length ≤ 6 ∧ (∀ c ∈ w, upperAlnum c = true) ∧
    addr.call.toList = w ++ List.replicate (6 - w.length) 0) ∧ addr.ssid ≤ 15

theorem upperAlnum_ne_zero (c : UInt8) (h : upperAlnum c = true) : (c != 0) = true := by
  revert c
  decide +kernel

theorem decodeChar_toupper (c : UInt8) (h : upperAlnum c = true) :
    decodeChar (toupper c <<< 1) = c := by
  revert c
  decide +kernel

theorem airCall_of_valid {addr : AX25Call} (h : ValidCall addr) : airCall addr = addr := by
  obtain ⟨⟨w, -, hw6, hal, hcall⟩, hssid⟩ := h
  have hc : cstr addr.call = w := by
    have h0 : ∀ n, (List.replicate n (0 : UInt8)).takeWhile (· != 0) = [] := by
      intro n; cases n <;> simp [List.replicate_succ]
    rw [cstr, hcall, List.takeWhile_append_of_pos fun c hc => upperAlnum_ne_zero c (hal c hc), h0,
      List.append_nil]
  have hss : ∀ s : UInt8, s ≤ 15 → s &&& 0x0F = s := by decide +kernel
  obtain ⟨call, ssid⟩ := addr
  simp only [airCall, AX25Call.mk.injEq]
  refine ⟨Vector.ext fun i hi => ?_, hss ssid hssid⟩
  have hget : call[i] = (w ++ List.replicate (6 - w.length) (0 : UInt8)).getD i 0 := by
    rw [← hcall]
    simp [hi]
  rw [hget]
  simp only [Vector.getElem_ofFn, callChars]
  change cstr call = w at hc
  rw [hc]
  by_cases hiw : i < w.length
  · have hal' := decodeChar_toupper w[i] (hal _ (List.getElem_mem hiw))
    simp [List.getD_eq_getElem?_getD, List.getElem?_append_left, hiw, hal']
  · have h0 : decodeChar ((0x20 : UInt8) <<< 1) = 0 := by decide
    have hlt : i - w.length < 6 - w.length := by omega
    simp [List.getD_eq_getElem?_getD, List.getElem?_append_right, Nat.le_of_not_lt hiw, hlt, h0]

/-! ### The address list -/

@[simp] theorem length_pathBytes (msg : AX25Msg) : ∀ n i, (pathBytes msg i n).length = 7 * n
  | 0, _ => rfl
  | n + 1, i => by
    simp only [pathBytes, List.length_append, length_callBytes, length_pathBytes msg n]
    omega

/-- Whether another station takes entry `i` as repeated. -/
def airRepeated (msg : AX25Msg) (i : ℕ) : Bool :=
  ax25Repeated msg i || (msg.rptLst i).ssid &&& 0x40 != 0

/-- `m` has the entries from `i` on of the path of `msg`, as the air makes
them, and is otherwise `acc`. -/
structure PathFrom (msg acc m : AX25Msg) (i : ℕ) : Prop where
  dst : m.dst = acc.dst
  src : m.src = acc.src
  rptCnt : m.rptCnt = msg.rptCnt
  before : ∀ j < i, m.rptLst j = acc.rptLst j ∧ ax25Repeated m j = ax25Repeated acc j
  entries : ∀ j, i ≤ j → j < msg.rptCnt →
    m.rptLst j = airCall (msg.rptLst j) ∧ ax25Repeated m j = airRepeated msg j

/-- One address of the path: the entry just read is that address, and those
before it are untouched. -/
theorem decodeRptAddr_entries {buf : ℕ → UInt8} {p i : ℕ} {msg acc : AX25Msg} {last : Bool} (hcnt : acc.rptCnt = i)
    (hi : i < 8) (hs : Cells.At buf (p + 1) (callBytes (msg.rptLst i) last (ax25Repeated msg i))) {j : ℕ}
    (hj : j < 8) :
    (decodeRptAddr buf p acc).rptLst j = (if j = i then airCall (msg.rptLst i) else acc.rptLst j) ∧
      ax25Repeated (decodeRptAddr buf p acc) j = if j = i then airRepeated msg i else ax25Repeated acc j := by
  obtain ⟨hcall, hssid⟩ := decode_callBytes hs
  rw [show p + 1 + 6 = p + 7 by omega] at hssid
  constructor
  · by_cases hji : j = i
    · subst hji
      simp [decodeRptAddr, hcnt, hcall, hssid, decodeSsid_ssidByte, airCall]
    · simp [decodeRptAddr, hcnt, hji]
  · simp only [ax25Repeated, decodeRptAddr, hcnt, flag_setRepeated _ _ hi hj, hssid, ssidByte_repeated, airRepeated]

/-- The repeater loop reads the `k` addresses left in the frame: bit 0 of
the address before says whether there are any, and each address says so for
the next. -/
theorem decodeRpt_path (buf : ℕ → UInt8) (msg : AX25Msg) : ∀ (k i n p : ℕ) (acc : AX25Msg),
    i + k = msg.rptCnt → i + n = ax25MaxRpt → k ≤ n → acc.rptCnt = i →
    (buf p &&& 0x01 = 0 ↔ k ≠ 0) → Cells.At buf (p + 1) (pathBytes msg i k) →
    ∃ m, decodeRpt buf n p acc = (p + 1 + 7 * k, m) ∧ PathFrom msg acc m i
  | 0, i, n, p, acc, hik, _, _, hcnt, hbit, _ => by
    have hb : ¬ buf p &&& 0x01 = 0 := by simpa using hbit
    refine ⟨acc, ?_, rfl, rfl, by omega, fun j _ => ⟨rfl, rfl⟩, fun j h1 h2 => by omega⟩
    cases n with
    | zero => rfl
    | succ n => rw [decodeRpt, if_neg hb]
  | k + 1, i, 0, p, acc, _, _, hkn, _, _, _ => by omega
  | k + 1, i, n + 1, p, acc, hik, hin, hkn, hcnt, hbit, hs => by
    have hb : buf p &&& 0x01 = 0 := by simpa using hbit
    obtain ⟨hs1, hs2⟩ := (Cells.at_append ..).mp hs
    rw [length_callBytes] at hs2
    obtain ⟨-, hssid⟩ := decode_callBytes hs1
    rw [show p + 1 + 6 = p + 7 by omega] at hssid
    have hlast : buf (p + 7) &&& 0x01 = 0 ↔ k ≠ 0 := by
      rw [hssid, ssidByte_last, beq_eq_false_iff_ne]
      omega
    rw [decodeRpt, if_pos hb]
    obtain ⟨m, hm, hp⟩ := decodeRpt_path buf msg k (i + 1) n (p + 7) (decodeRptAddr buf p acc)
      (by omega) (by omega) (by omega) (by simp only [decodeRptAddr, hcnt]) hlast
      (by rw [show p + 7 + 1 = p + 1 + 7 by omega]; exact hs2)
    have hi8 : i < 8 := by have : i + (n + 1) = 8 := hin; omega
    refine ⟨m, by rw [hm]; congr 1; omega, hp.dst, hp.src, hp.rptCnt, fun j hj => ?_, fun j h1 h2 => ?_⟩
    · obtain ⟨e1, e2⟩ := hp.before j (by omega)
      obtain ⟨o1, o2⟩ := decodeRptAddr_entries hcnt hi8 hs1 (show j < 8 by omega)
      rw [e1, e2, o1, o2, if_neg (by omega), if_neg (by omega)]
      exact ⟨rfl, rfl⟩
    · rcases Nat.eq_or_lt_of_le h1 with rfl | h1
      · obtain ⟨e1, e2⟩ := hp.before i (by omega)
        obtain ⟨o1, o2⟩ := decodeRptAddr_entries hcnt hi8 hs1 hi8
        rw [e1, e2, o1, o2, if_pos rfl, if_pos rfl]
        exact ⟨rfl, rfl⟩
      · exact hp.entries j h1 h2

/-- What another station decodes from the frame of `msg`. -/
structure OnAir (msg m : AX25Msg) : Prop where
  dst : m.dst = airCall msg.dst
  src : m.src = airCall msg.src
  rptCnt : m.rptCnt = msg.rptCnt
  entries : ∀ i < msg.rptCnt, m.rptLst i = airCall (msg.rptLst i) ∧ ax25Repeated m i = airRepeated msg i
  len : m.len = msg.len
  info : m.info.bytes m.len = msg.info.bytes msg.len

/-- The body of a frame with the addresses and the info of the message, which
need not have a path: the last address is marked. -/
def uiBytes (msg : AX25Msg) : List UInt8 :=
  callBytes msg.dst false false ++ callBytes msg.src (msg.rptCnt == 0) false ++ pathBytes msg 0 msg.rptCnt ++
    [ax25CtrlUi, ax25PidNolayer3] ++ msg.info.bytes msg.len

theorem length_uiBytes (msg : AX25Msg) : (uiBytes msg).length = 14 + 7 * msg.rptCnt + 2 + msg.len := by
  simp [uiBytes, Ptr.bytes]
  omega

theorem uiBytes_of_path {msg : AX25Msg} (h : 0 < msg.rptCnt) : uiBytes msg = msgBytes msg := by
  have hlast : (msg.rptCnt == 0) = false := by
    rw [beq_eq_false_iff_ne]
    omega
  rw [uiBytes, hlast, msgBytes]

theorem length_msgBytes (msg : AX25Msg) : (msgBytes msg).length = 14 + 7 * msg.rptCnt + 2 + msg.len := by
  simp [msgBytes, Ptr.bytes]
  omega

/-- **A message's frame decodes to the message.** -/
theorem decode_uiBytes (stk : AX25Msg) {ctx : AX25Ctx} {msg : AX25Msg}
    (hbuf : Cells.At ctx.buf 0 (uiBytes msg)) (hfrm : ctx.frmLen = (uiBytes msg).length + 2)
    (hcnt : msg.rptCnt ≤ ax25MaxRpt) (hmax : ctx.frmLen ≤ configAx25FrameBufLen) :
    ∃ m, ax25Decode stk ctx = some m ∧ OnAir msg m := by
  rw [length_uiBytes] at hfrm
  have hmax' : ctx.frmLen ≤ 330 := hmax
  simp only [uiBytes, Cells.at_append, List.length_append, length_callBytes, length_pathBytes,
    Nat.zero_add, Cells.at_cons, Cells.at_nil, and_true] at hbuf
  obtain ⟨⟨⟨⟨hd, hs⟩, hp⟩, hc, hpid⟩, hi⟩ := hbuf
  obtain ⟨hd1, hd2⟩ := decode_callBytes hd
  obtain ⟨hs1, hs2⟩ := decode_callBytes hs
  have hmore : ctx.buf 13 &&& 0x01 = 0 ↔ msg.rptCnt ≠ 0 := by
    rw [hs2, ssidByte_last, beq_eq_false_iff_ne]
  obtain ⟨m, hm, hpath⟩ := decodeRpt_path ctx.buf msg msg.rptCnt 0 ax25MaxRpt 13
    (decodeHead stk ctx.buf) (Nat.zero_add _) (Nat.zero_add _) hcnt rfl hmore hp
  have hoff : 13 + 1 + 7 * msg.rptCnt = 7 + 7 + 7 * msg.rptCnt := by omega
  have hlen : (2 ^ 16 + ctx.frmLen - 2 - (7 + 7 + 7 * msg.rptCnt + 2)) % 2 ^ 16 = msg.len := by
    omega
  rw [hoff] at hm
  simp only [ax25Decode, hm, hc, hpid, ne_eq, not_true_eq_false, if_false, Option.some.injEq,
    exists_eq_left', hlen]
  refine ⟨?_, ?_, hpath.rptCnt, fun i hi => hpath.entries i (Nat.zero_le _) hi, rfl, ?_⟩
  · rw [hpath.dst]
    simp [decodeHead, hd1, hd2, decodeSsid_ssidByte, airCall]
  · rw [hpath.src]
    simp [decodeHead, hs1, hs2, decodeSsid_ssidByte, airCall]
  · have hb : Cells.slice ctx.buf (7 + 7 + 7 * msg.rptCnt + 2) (msg.info.bytes msg.len).length =
      msg.info.bytes msg.len := hi
    simpa [Ptr.bytes] using hb

/-! ### Over the channel -/

/-- What the hook of a decoding station gets from a message's frame that fits
its buffer: that message as the air makes it, once. -/
theorem outs_uiBytes (stk : AX25Msg) {rx : AX25Ctx} (msg : AX25Msg) (hcnt : msg.rptCnt ≤ ax25MaxRpt)
    (hmin : ax25MinFrameLen ≤ (uiBytes msg).length + 2) (hmax : (uiBytes msg).length + 2 ≤ configAx25FrameBufLen)
    (hhook : rx.hook = true) (hpass : rx.passThrough = false) (hesc : rx.escape = false) :
    ∃ ctx m, OnAir msg m ∧ Got rx (withCrc (uiBytes msg)) ctx ∧
      outs (ax25PollChar stk) (ax25PollChar stk rx hdlcFlag).1 (airFrame (uiBytes msg)).tail =
        [⟨ctx, some m⟩] := by
  obtain ⟨ctx, hgot, hout⟩ := outs_airFrame stk hesc (uiBytes msg) hmin hmax
  have hfrm : ctx.frmLen = (uiBytes msg).length + 2 := by rw [hgot.frmLen, length_withCrc]
  obtain ⟨m, hm, hair⟩ := decode_uiBytes stk ((Cells.at_append ..).mp hgot.buf).1 hfrm hcnt
    (by rw [hfrm]; exact hmax)
  refine ⟨ctx, m, hair, hgot, ?_⟩
  rw [hout, ax25Deliver, hgot.hook, hgot.passThrough, hhook, hpass, hm]
  rfl

theorem outs_sendMsg (stk : AX25Msg) (tx : AX25Ctx) {rx : AX25Ctx} {msg : AX25Msg}
    (hpos : 0 < msg.rptCnt) (hcnt : msg.rptCnt ≤ ax25MaxRpt) (hlen : 0 < msg.len)
    (hmax : (msgBytes msg).length + 2 ≤ configAx25FrameBufLen)
    (hhook : rx.hook = true) (hpass : rx.passThrough = false) (hesc : rx.escape = false) :
    (ax25SendMsg tx msg).2 = hdlcFlag :: (airFrame (msgBytes msg)).tail ∧
      ∃ ctx m, OnAir msg m ∧ Got rx (withCrc (msgBytes msg)) ctx ∧
        outs (ax25PollChar stk) (ax25PollChar stk rx hdlcFlag).1 (airFrame (msgBytes msg)).tail =
          [⟨ctx, some m⟩] := by
  have hbody := uiBytes_of_path hpos
  have hmin : ax25MinFrameLen ≤ (uiBytes msg).length + 2 := by
    rw [length_uiBytes, show ax25MinFrameLen = 18 from rfl]
    omega
  rw [← hbody] at hmax ⊢
  obtain ⟨ctx, m, hair, hgot, hout⟩ := outs_uiBytes stk msg hcnt hmin hmax hhook hpass hesc
  refine ⟨?_, ctx, m, hair, hgot, hout⟩
  rw [ax25SendMsg_air, if_neg (by omega), hbody]
  rfl

/-- **AX.25 message round trip.** The channel bytes of a message, read by a
decoding station that has no escape pending, make it call its hook once for
this frame (the opening flag may first close an earlier one), with the
addresses, flags and info of the message. -/
theorem ax25SendMsg_round_trip (stk : AX25Msg) (tx rx : AX25Ctx) (msg : AX25Msg) (error : Bool)
    (hdst : ValidCall msg.dst) (hsrc : ValidCall msg.src)
    (hrpt : ∀ i < msg.rptCnt, ValidCall (msg.rptLst i))
    (hpos : 1 ≤ msg.rptCnt) (hcnt : msg.rptCnt ≤ 8) (hinfo : 0 < msg.len)
    (hmax : 14 + 7 * msg.rptCnt + 2 + msg.len + 2 ≤ configAx25FrameBufLen)
    (hhook : rx.hook = true) (hpass : rx.passThrough = false) (hesc : rx.escape = false) :
    ∃ ctx m, (ax25Poll stk rx (ax25SendMsg tx msg).2 error).2 =
        (ax25PollChar stk rx hdlcFlag).2 ++ [⟨ctx, some m⟩] ∧
      m.dst = msg.dst ∧ m.src = msg.src ∧ m.rptCnt = msg.rptCnt ∧
      (∀ i < msg.rptCnt, m.rptLst i = msg.rptLst i ∧ ax25Repeated m i = ax25Repeated msg i) ∧
      m.len = msg.len ∧ m.info.bytes m.len = msg.info.bytes msg.len := by
  obtain ⟨hsent, ctx, m, hair, -, hout⟩ := outs_sendMsg stk tx hpos hcnt hinfo
    (by rw [length_msgBytes]; exact hmax) hhook hpass hesc
  refine ⟨ctx, m, ?_, ?_, ?_, hair.rptCnt, fun i hi => ?_, hair.len, hair.info⟩
  · rw [ax25Poll, hsent, outs_cons, hout]
  · rw [hair.dst, airCall_of_valid hdst]
  · rw [hair.src, airCall_of_valid hsrc]
  · obtain ⟨e1, e2⟩ := hair.entries i hi
    have h40 : ∀ s : UInt8, s ≤ 15 → (s &&& 0x40 != 0) = false := by decide +kernel
    rw [e1, e2, airCall_of_valid (hrpt i hi), airRepeated, h40 _ (hrpt i hi).2, Bool.or_false]
    exact ⟨rfl, rfl⟩

/-- A message of station N0CALL via RELAY-1 with a flag in its info. -/
def flagMsg : AX25Msg where
  src := ⟨#v[0x4e, 0x30, 0x43, 0x41, 0x4c, 0x4c], 0⟩
  dst := ⟨#v[0x41, 0x50, 0x52, 0x53, 0, 0], 0⟩
  rptLst := fun _ => ⟨#v[0x52, 0x45, 0x4c, 0x41, 0x59, 0], 1⟩
  rptCnt := 1
  rptFlags := 0
  ctrl := 0x03
  pid := 0xF0
  info := ⟨fun k => if k = 0 then 0x21 else 0x7E, 0⟩
  len := 2

theorem ax25SendMsg_round_trip_flagMsg :
    ∃ ctx m, (ax25Poll flagMsg (ax25Init true) (ax25SendMsg (ax25Init true) flagMsg).2 false).2 =
        (ax25PollChar flagMsg (ax25Init true) hdlcFlag).2 ++ [⟨ctx, some m⟩] ∧
      m.dst = flagMsg.dst ∧ m.src = flagMsg.src ∧ m.rptCnt = flagMsg.rptCnt ∧
      (∀ i < flagMsg.rptCnt, m.rptLst i = flagMsg.rptLst i ∧
        ax25Repeated m i = ax25Repeated flagMsg i) ∧
      m.len = flagMsg.len ∧ m.info.bytes m.len = flagMsg.info.bytes flagMsg.len :=
  ax25SendMsg_round_trip flagMsg (ax25Init true) (ax25Init true) flagMsg false
    ⟨⟨[0x41, 0x50, 0x52, 0x53], by decide, by decide, by decide +kernel, rfl⟩, by decide⟩
    ⟨⟨[0x4e, 0x30, 0x43, 0x41, 0x4c, 0x4c], by decide, by decide, by decide +kernel, rfl⟩, by decide⟩
    (fun _ _ => ⟨⟨[0x52, 0x45, 0x4c, 0x41, 0x59], by decide, by decide, by decide +kernel, rfl⟩,
      by show (1 : UInt8) ≤ 15; decide⟩)
    (by decide) (by decide) (by decide) (by decide) rfl rfl rfl

end TinyAprs
