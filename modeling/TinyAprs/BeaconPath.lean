/-
# Who hears a beacon

`beacon_send` takes the stored call data as an array of calls and passes on
as many of them as it has counted: the two it always sends, and one for each
path that is set. So a path that is set is sent if no path before it is
empty. On the air a frame sent this way is that of a message with these
addresses (`viaMsg`), and another station decodes it as such
(`outs_uiBytes`).
-/
import TinyAprs.Ax25Msg
import TinyAprs.BeaconSend
import TinyAprs.CallStore

namespace TinyAprs

open Mealy

/-! ### The frame -/

/-- The address field of `ax25_sendVia`. -/
def viaCalls : List AX25Call → List UInt8
  | [] => []
  | a :: path => callBytes a path.isEmpty false ++ viaCalls path

theorem ax25SendCalls_eq (path : List AX25Call) (ctx : AX25Ctx) :
    ax25SendCalls ctx path = ({ ctx with crcOut := crcCcitt ctx.crcOut (viaCalls path) },
      ax25Stuffing.encode (viaCalls path)) := by
  induction path generalizing ctx with
  | nil => rfl
  | cons a path ih =>
    simp only [ax25SendCalls, ax25SendCall, ax25Puts_eq, ih, viaCalls, crcCcitt_append, Stuffing.encode_append]

/-- What `ax25_sendVia` writes to the channel. -/
theorem ax25SendVia_air (ctx : AX25Ctx) (path : List AX25Call) (buf : List UInt8) :
    (ax25SendVia ctx path buf).2 = airFrame (viaCalls path ++ [ax25CtrlUi, ax25PidNolayer3] ++ buf) := by
  simp [ax25SendVia, ax25SendCrc, ax25SendCalls_eq, ax25Puts_eq, airFrame, withCrc, crcTrailer,
    Stuffing.encode_append, crcCcitt_append]

/-- The frame of a beacon under the stored call data. -/
def beaconFrame (ee : Eeprom) (info : List UInt8) : List UInt8 :=
  let c := settingsGetCallData ee
  viaCalls ([c.destCall, c.myCall, c.path1, c.path2].take (pathCount c)) ++ [ax25CtrlUi, ax25PidNolayer3] ++ info

theorem beaconSend_frame (t : Tnc) (payload : List UInt8) :
    (beaconSend t payload).2 = airFrame (beaconFrame t.eeprom payload) :=
  ax25SendVia_air t.modem _ payload

/-- The message of a frame that is sent via a path. -/
def viaMsg (dst src : AX25Call) (path : List AX25Call) (payload : List UInt8) : AX25Msg :=
  { zeroMsg with
    dst := dst
    src := src
    rptLst := fun i => path.getD i ⟨.replicate 6 0, 0⟩
    rptCnt := path.length
    info := ⟨fun k => payload.getD k 0, 0⟩
    len := payload.length }

theorem viaMsg_repeated (dst src : AX25Call) (path : List AX25Call) (payload : List UInt8) (i : ℕ) :
    ax25Repeated (viaMsg dst src path payload) i = false := by
  have h : (viaMsg dst src path payload).rptFlags = 0 := rfl
  rw [ax25Repeated, h, UInt8.zero_and]
  rfl

/-- The path from entry `pre.length` on. -/
theorem pathBytes_viaMsg (dst src : AX25Call) (payload : List UInt8) (pre path : List AX25Call) :
    pathBytes (viaMsg dst src (pre ++ path) payload) pre.length path.length = viaCalls path := by
  induction path generalizing pre with
  | nil => rfl
  | cons a path ih =>
    have hrest := ih (pre ++ [a])
    rw [List.append_assoc, List.singleton_append, List.length_append, List.length_singleton] at hrest
    have hcall : (viaMsg dst src (pre ++ a :: path) payload).rptLst pre.length = a := by
      simp [viaMsg]
    have hlast : (pre.length == (viaMsg dst src (pre ++ a :: path) payload).rptCnt - 1) = path.isEmpty := by
      have hcnt : (viaMsg dst src (pre ++ a :: path) payload).rptCnt = pre.length + (path.length + 1) := by
        simp [viaMsg]
      rw [hcnt, Bool.eq_iff_iff, beq_iff_eq, List.isEmpty_iff_length_eq_zero]
      omega
    rw [List.length_cons, pathBytes, hcall, hlast, viaMsg_repeated, hrest, viaCalls]

theorem viaMsg_info (dst src : AX25Call) (path : List AX25Call) (payload : List UInt8) :
    (viaMsg dst src path payload).info.bytes (viaMsg dst src path payload).len = payload := by
  refine List.ext_getElem (Cells.length_slice ..) fun k h1 h2 => ?_
  simp [viaMsg, Ptr.bytes, Cells.slice, h2]

theorem uiBytes_viaMsg (dst src : AX25Call) (path : List AX25Call) (payload : List UInt8) :
    uiBytes (viaMsg dst src path payload) =
      viaCalls (dst :: src :: path) ++ [ax25CtrlUi, ax25PidNolayer3] ++ payload := by
  have hpath : pathBytes (viaMsg dst src path payload) 0 path.length = viaCalls path :=
    pathBytes_viaMsg dst src payload [] path
  have hlast : ((viaMsg dst src path payload).rptCnt == 0) = path.isEmpty := by
    rw [Bool.eq_iff_iff, beq_iff_eq, List.isEmpty_iff_length_eq_zero]
    rfl
  rw [uiBytes, hlast, viaMsg_info]
  change callBytes dst false false ++ callBytes src path.isEmpty false ++
    pathBytes (viaMsg dst src path payload) 0 path.length ++ _ ++ payload = _
  rw [hpath]
  simp [viaCalls]

/-! ### Calls -/

/-- The same call, as a string, and the same SSID. -/
def SameCall (a b : AX25Call) : Prop := cstr a.call = cstr b.call ∧ a.ssid = b.ssid

/-- Upper-case letters and digits up to the first NUL, and an SSID of 0 to
15; the call may be empty. -/
def AlnumCall (a : AX25Call) : Prop := (∀ c ∈ cstr a.call, upperAlnum c = true) ∧ a.ssid ≤ 15

instance (a : AX25Call) : Decidable (AlnumCall a) := inferInstanceAs (Decidable (_ ∧ _))

def nonempty (a : AX25Call) : Bool := !(cstr a.call).isEmpty

theorem airCall_toList (a : AX25Call) : (airCall a).call.toList = (callChars a).map decodeChar := by
  refine List.ext_getElem (by simp) fun i h1 h2 => ?_
  simp [airCall]

theorem sameCall_air {a : AX25Call} (h : AlnumCall a) : SameCall (airCall a) a := by
  obtain ⟨hchars, hssid⟩ := h
  have hss : ∀ s : UInt8, s ≤ 15 → s &&& 0x0F = s := by decide +kernel
  refine ⟨?_, hss a.ssid hssid⟩
  have hsame : ((cstr a.call).map fun c => toupper c <<< 1).map decodeChar = cstr a.call := by
    rw [List.map_map]
    refine (List.map_congr_left fun c hc => ?_).trans (List.map_id _)
    exact decodeChar_toupper c (hchars c hc)
  have hpad : ∀ n, ((List.replicate n ((0x20 : UInt8) <<< 1)).map decodeChar).takeWhile (· != 0) = [] := by
    intro n
    cases n with
    | zero => rfl
    | succ n => rw [List.replicate_succ]; rfl
  have hfree : ∀ c ∈ cstr a.call, (c != 0) = true := by
    intro c hc
    exact upperAlnum_ne_zero c (hchars c hc)
  calc cstr (airCall a).call = ((callChars a).map decodeChar).takeWhile (· != 0) := by rw [cstr, airCall_toList]
    _ = (cstr a.call ++ (List.replicate (6 - (cstr a.call).length) ((0x20 : UInt8) <<< 1)).map decodeChar).takeWhile
        (· != 0) := by rw [callChars, List.map_append, hsame]
    _ = cstr a.call := by rw [List.takeWhile_append_of_pos hfree, hpad, List.append_nil]

/-- `beacon_send` counts the calls that are not empty: the first character
tells whether there is one. -/
theorem callSet_iff {a : AX25Call} (h : AlnumCall a) : callSet a = nonempty a := by
  have hset : ∀ c : UInt8, upperAlnum c = true → decide (c.toInt8 > 0) = true := by decide +kernel
  obtain ⟨hchars, -⟩ := h
  obtain ⟨⟨⟨l⟩, hl⟩, ssid⟩ := a
  match l, hl with
  | [c, c₁, c₂, c₃, c₄, c₅], hl =>
    by_cases hc : c = 0
    · subst hc
      rfl
    · have hstr : cstr (⟨⟨[c, c₁, c₂, c₃, c₄, c₅]⟩, hl⟩ : Vector UInt8 6) =
          c :: [c₁, c₂, c₃, c₄, c₅].takeWhile (· != 0) :=
        List.takeWhile_cons_of_pos (by simpa using hc)
      have hupper : upperAlnum c = true := hchars c (by rw [hstr]; exact List.mem_cons_self)
      calc callSet ⟨⟨⟨[c, c₁, c₂, c₃, c₄, c₅]⟩, hl⟩, ssid⟩
        _ = true := hset c hupper
        _ = nonempty ⟨⟨⟨[c, c₁, c₂, c₃, c₄, c₅]⟩, hl⟩, ssid⟩ := by rw [nonempty, hstr]; rfl

/-! ### What is heard -/

def AX25Msg.path (m : AX25Msg) : List AX25Call := (List.range m.rptCnt).map m.rptLst

/-- A beacon under the call data `c` is heard as it should be. -/
structure HeardAs (c : CallData) (payload : List UInt8) (m : AX25Msg) : Prop where
  dst : SameCall m.dst c.destCall
  src : SameCall m.src c.myCall
  path : List.Forall₂ SameCall m.path ([c.path1, c.path2].filter nonempty)
  fresh : ∀ i < m.rptCnt, ax25Repeated m i = false
  info : m.info.bytes m.len = payload

/-- What another station hears of a frame sent via a path. -/
theorem heard_via (stk : AX25Msg) {rx : AX25Ctx} (hhook : rx.hook = true) (hpass : rx.passThrough = false)
    (hesc : rx.escape = false) (error : Bool) (ctx : AX25Ctx) {dst src : AX25Call} {path : List AX25Call}
    {payload : List UInt8} (hdst : AlnumCall dst) (hsrc : AlnumCall src) (hcalls : ∀ a ∈ path, AlnumCall a)
    (hpath : path.length ≤ 2) (h1 : 1 ≤ payload.length) (h255 : payload.length ≤ 255) :
    ∃ ctx' m, (ax25Poll stk rx (ax25SendVia ctx (dst :: src :: path) payload).2 error).2 =
        (ax25PollChar stk rx hdlcFlag).2 ++ [⟨ctx', some m⟩] ∧
      SameCall m.dst dst ∧ SameCall m.src src ∧ List.Forall₂ SameCall m.path path ∧
      (∀ i < m.rptCnt, ax25Repeated m i = false) ∧ m.info.bytes m.len = payload := by
  have hlen : (uiBytes (viaMsg dst src path payload)).length = 14 + 7 * path.length + 2 + payload.length :=
    length_uiBytes _
  obtain ⟨ctx', m, hair, -, hout⟩ := outs_uiBytes stk (viaMsg dst src path payload) (show path.length ≤ 8 by omega)
    (by rw [hlen, show ax25MinFrameLen = 18 from rfl]; omega)
    (by rw [hlen, show configAx25FrameBufLen = 330 from rfl]; omega) hhook hpass hesc
  have hsent : (ax25SendVia ctx (dst :: src :: path) payload).2 =
      hdlcFlag :: (airFrame (uiBytes (viaMsg dst src path payload))).tail := by
    rw [ax25SendVia_air, uiBytes_viaMsg]
    rfl
  have hcnt : m.rptCnt = path.length := hair.rptCnt
  have h40 : ∀ s : UInt8, s ≤ 15 → (s &&& 0x40 != 0) = false := by decide +kernel
  have hentry : ∀ i < path.length, (viaMsg dst src path payload).rptLst i ∈ path := by
    intro i hi
    show path.getD i _ ∈ path
    rw [List.getD_eq_getElem?_getD, List.getElem?_eq_getElem hi, Option.getD_some]
    exact List.getElem_mem hi
  refine ⟨ctx', m, ?_, ?_, ?_, ?_, fun i hi => ?_, ?_⟩
  · rw [ax25Poll, hsent, outs_cons, hout]
  · rw [hair.dst]
    exact sameCall_air hdst
  · rw [hair.src]
    exact sameCall_air hsrc
  · refine List.forall₂_iff_get.mpr ⟨by simp [AX25Msg.path, hcnt], fun i hi hi' => ?_⟩
    have hget : m.path.get ⟨i, hi⟩ = m.rptLst i := by simp [AX25Msg.path]
    have hgetv : (viaMsg dst src path payload).rptLst i = path.get ⟨i, hi'⟩ := by simp [viaMsg, hi']
    rw [hget, (hair.entries i hi').1, hgetv]
    exact sameCall_air (hcalls _ (List.get_mem ..))
  · have hi : i < path.length := by omega
    rw [(hair.entries i hi).2, airRepeated, viaMsg_repeated, h40 _ (hcalls _ (hentry i hi)).2]
    rfl
  · rw [hair.info, viaMsg_info]

theorem beaconSend_eq (t : Tnc) (payload : List UInt8) : (beaconSend t payload).2 =
    (ax25SendVia t.modem ((settingsGetCallData t.eeprom).destCall :: (settingsGetCallData t.eeprom).myCall ::
      [(settingsGetCallData t.eeprom).path1, (settingsGetCallData t.eeprom).path2].take
        (pathCount (settingsGetCallData t.eeprom) - 2)) payload).2 := by
  have h2 : pathCount (settingsGetCallData t.eeprom) = pathCount (settingsGetCallData t.eeprom) - 2 + 2 := by
    rw [Nat.sub_add_cancel]
    unfold pathCount
    omega
  rw [beaconSend, h2]
  rfl

/-- The paths sent are those that are set, unless the second one is set alone. -/
theorem pathsSent_eq {c : CallData} (h1 : AlnumCall c.path1) (h2 : AlnumCall c.path2)
    (h : nonempty c.path1 = true ∨ nonempty c.path2 = false) :
    [c.path1, c.path2].take (pathCount c - 2) = [c.path1, c.path2].filter nonempty := by
  rw [pathCount, callSet_iff h1, callSet_iff h2]
  rcases h with h | h
  · cases hp2 : nonempty c.path2 with
    | true => simp [h, hp2]
    | false => simp [h, hp2]
  · cases hp1 : nonempty c.path1 with
    | true => simp [h, hp1]
    | false => simp [h, hp1]

/-- A second path without a first one is not heard: the first is sent in its
place, and it is empty. -/
theorem not_heardAs_of_gap {c : CallData} (h1 : AlnumCall c.path1) (h2 : AlnumCall c.path2)
    (hgap : nonempty c.path1 = false ∧ nonempty c.path2 = true) {m : AX25Msg}
    (hpath : List.Forall₂ SameCall m.path ([c.path1, c.path2].take (pathCount c - 2))) (payload : List UInt8) :
    ¬ HeardAs c payload m := by
  intro has
  obtain ⟨hn1, hn2⟩ := hgap
  have hsent : [c.path1, c.path2].take (pathCount c - 2) = [c.path1] := by
    rw [pathCount, callSet_iff h1, callSet_iff h2, hn1, hn2]
    rfl
  have hwant : [c.path1, c.path2].filter nonempty = [c.path2] := by simp [hn1, hn2]
  have hpath' := has.path
  rw [hsent] at hpath
  rw [hwant] at hpath'
  obtain ⟨a, hsame1, hm⟩ : ∃ a, SameCall a c.path1 ∧ m.path = [a] := by
    generalize m.path = l at hpath
    cases hpath with
    | cons hhead htail =>
      cases htail
      exact ⟨_, hhead, rfl⟩
  rw [hm] at hpath'
  have hsame2 : SameCall a c.path2 := by
    cases hpath' with
    | cons hhead htail => exact hhead
  rw [nonempty, ← hsame2.1, hsame1.1] at hn2
  rw [nonempty, hn2] at hn1
  exact absurd hn1 (by decide)

theorem last_call_inj {calls : List HookCall} {ctx ctx' : AX25Ctx} {m m' : AX25Msg}
    (h : calls ++ [⟨ctx, some m⟩] = calls ++ [⟨ctx', some m'⟩]) : m = m' := by
  have hlast := List.append_cancel_left h
  simp only [List.cons.injEq, HookCall.mk.injEq, Option.some.injEq] at hlast
  exact hlast.1.2

/-- What another station hears of a beacon: the paths sent, not those set. -/
theorem heard_beacon (t : Tnc) (payload : List UInt8) (h1 : 1 ≤ payload.length) (h255 : payload.length ≤ 255)
    {c : CallData} (hc : settingsGetCallData t.eeprom = c)
    (hcalls : ∀ a ∈ [c.destCall, c.myCall, c.path1, c.path2], AlnumCall a) (stk : AX25Msg) (rx : AX25Ctx)
    (hhook : rx.hook = true) (hpass : rx.passThrough = false) (hesc : rx.escape = false) (error : Bool) :
    ∃ ctx m, (ax25Poll stk rx (beaconSend t payload).2 error).2 =
        (ax25PollChar stk rx hdlcFlag).2 ++ [⟨ctx, some m⟩] ∧
      SameCall m.dst c.destCall ∧ SameCall m.src c.myCall ∧
      List.Forall₂ SameCall m.path ([c.path1, c.path2].take (pathCount c - 2)) ∧
      (∀ i < m.rptCnt, ax25Repeated m i = false) ∧ m.info.bytes m.len = payload := by
  have hpaths : ∀ a ∈ [c.path1, c.path2].take (pathCount c - 2), AlnumCall a := by
    intro a ha
    exact hcalls a (List.mem_cons_of_mem _ (List.mem_cons_of_mem _ (List.mem_of_mem_take ha)))
  rw [beaconSend_eq, hc]
  exact heard_via stk hhook hpass hesc error t.modem (hcalls _ (by simp)) (hcalls _ (by simp)) hpaths
    (by rw [List.length_take]; exact Nat.min_le_right ..) h1 h255

/-- **A beacon is heard under its call data, unless only the second path is
set.** For every EEPROM whose call data has upper-case alphanumeric calls
and SSIDs of 0 to 15, and every payload of 1 to 255 bytes: another station
decodes the beacon with its destination, its source, exactly the paths that are
not empty, none of them repeated, and the payload, if and only if the first
path is not empty or the second one is. -/
theorem beacon_addressed_iff (t : Tnc) (payload : List UInt8) (h1 : 1 ≤ payload.length)
    (h255 : payload.length ≤ 255) (c : CallData) (hc : settingsGetCallData t.eeprom = c)
    (hcalls : ∀ a ∈ [c.destCall, c.myCall, c.path1, c.path2], AlnumCall a) (stk : AX25Msg) (rx : AX25Ctx)
    (hhook : rx.hook = true) (hpass : rx.passThrough = false) (hesc : rx.escape = false) (error : Bool) :
    (∃ ctx m, (ax25Poll stk rx (beaconSend t payload).2 error).2 =
        (ax25PollChar stk rx hdlcFlag).2 ++ [⟨ctx, some m⟩] ∧ HeardAs c payload m) ↔
      nonempty c.path1 = true ∨ nonempty c.path2 = false := by
  have hp1 : AlnumCall c.path1 := hcalls _ (by simp)
  have hp2 : AlnumCall c.path2 := hcalls _ (by simp)
  obtain ⟨ctx, m, hheard, hdst, hsrc, hpath, hfresh, hinfo⟩ :=
    heard_beacon t payload h1 h255 hc hcalls stk rx hhook hpass hesc error
  constructor
  · rintro ⟨ctx', m', hheard', has⟩
    rw [hheard] at hheard'
    obtain rfl := last_call_inj hheard'
    by_contra hbad
    rw [not_or, Bool.not_eq_true, Bool.not_eq_false] at hbad
    exact not_heardAs_of_gap hp1 hp2 hbad hpath payload has
  · intro h
    rw [pathsSent_eq hp1 hp2 h] at hpath
    exact ⟨ctx, m, hheard, hdst, hsrc, hpath, hfresh, hinfo⟩

theorem beacon_addressed_iff_default :
    ∃ ctx m, (ax25Poll zeroMsg (ax25Init true) (beaconSend factoryTnc [0x21]).2 false).2 =
        (ax25PollChar zeroMsg (ax25Init true) hdlcFlag).2 ++ [⟨ctx, some m⟩] ∧
      HeardAs defaultCalldata [0x21] m :=
  (beacon_addressed_iff factoryTnc [0x21] (by decide) (by decide) defaultCalldata rfl (by decide +kernel) zeroMsg
    (ax25Init true) rfl rfl rfl false).mpr (by decide)

/-- Call data with a second path only. -/
def secondOnly : CallData := { defaultCalldata with path1 := ⟨.replicate 6 0, 0⟩ }

/-- Written by a KISS frame, such call data is stored, and its beacon goes
out via an empty call in place of the path. -/
theorem second_path_unheard : ∃ t, (StoreOp.kissCall (fun _ => 0) secondOnly.toBytes).apply factoryTnc = some t ∧
    settingsGetCallData t.eeprom = secondOnly ∧
    (∀ a ∈ [secondOnly.destCall, secondOnly.myCall, secondOnly.path1, secondOnly.path2], AlnumCall a) ∧
    nonempty secondOnly.destCall = true ∧ nonempty secondOnly.myCall = true ∧
    ¬ ∃ ctx m, (ax25Poll zeroMsg (ax25Init true) (beaconSend t [0x21]).2 false).2 =
        (ax25PollChar zeroMsg (ax25Init true) hdlcFlag).2 ++ [⟨ctx, some m⟩] ∧ HeardAs secondOnly [0x21] m := by
  obtain ⟨t, hstored, hcalls⟩ := (StoreOp.kissCall (fun _ => 0) secondOnly.toBytes).apply_calls factoryTnc
  have hc : settingsGetCallData t.eeprom = secondOnly := hcalls
  have halnum : ∀ a ∈ [secondOnly.destCall, secondOnly.myCall, secondOnly.path1, secondOnly.path2],
      AlnumCall a := by
    decide +kernel
  refine ⟨t, hstored, hc, halnum, by decide, by decide, ?_⟩
  rintro ⟨ctx', m', hheard', has⟩
  obtain ⟨ctx, m, hheard, -, -, hpath, -⟩ := heard_beacon t [0x21] (by decide) (by decide) hc halnum
    zeroMsg (ax25Init true) rfl rfl rfl false
  rw [hheard] at hheard'
  obtain rfl := last_call_inj hheard'
  exact not_heardAs_of_gap (halnum _ (by simp)) (halnum _ (by simp)) (by decide) hpath [0x21] has

end TinyAprs
