/-
# The configuration store behind the KISS line

To a host, a TNC in KISS mode is a store with two registers that can be read
back, the parameters and the call data, and a beacon text. `ConfigStore` is
that store: a frame is a `Request`, and a write with the right length
replaces its register. `kiss_handle_frame` implements it
(`kiss_config_store`): what it answers is what was written last, what it
refuses changes nothing, and the parameters survive a reboot.
-/
import Mathlib.Data.FinEnum
import TinyAprs.KissCmd

namespace TinyAprs

/-! ### The store -/

/-- What a frame asks for. -/
inductive Request
  | data (payload : List UInt8)
  | params (data : List UInt8)
  | text (data : List UInt8)
  | call (data : List UInt8)
  | magic (data : List UInt8)
  | nothing

/-- A config command's request, if the last byte is the checksum of those
before it. -/
def configRequest (c : UInt8) (data : List UInt8) (sum : UInt8) : Request :=
  if sum ≠ checksum data then .nothing
  else if c = kissCmdConfigParams then .params data
  else if c = kissCmdConfigText then .text data
  else if c = kissCmdConfigCall then .call data
  else if c = kissCmdConfigMagic then .magic data
  else .nothing

def request : List UInt8 → Request
  | c :: x :: rest =>
    if c = kissCmdData then .data (x :: rest)
    else configRequest c (x :: rest).dropLast ((x :: rest).getLast (List.cons_ne_nil x rest))
  | _ => .nothing

/-- The registers a host can read back. -/
structure ConfigStore where
  params : List UInt8
  call : List UInt8

/-- A frame writes a register, or none. -/
def ConfigStore.step (s : ConfigStore) (f : List UInt8) : ConfigStore :=
  match request f with
  | .params d => if d.length = sizeofSettingsData then { s with params := d } else s
  | .call d => if d.length = sizeofCallData then { s with call := d } else s
  | _ => s

/-- The parameters were written by the frame. -/
def WritesParams (f : List UInt8) : Prop := ∃ d, request f = .params d ∧ d.length = sizeofSettingsData

/-- The registers before any frame: `g_settings`, and the call data in the
EEPROM if its head byte is set, else the default. -/
def ConfigStore.init (t : Tnc) : ConfigStore where
  params := t.settings.toBytes
  call :=
    if t.eeprom nvCallDataHeadByte = nvSettingsHeadByteValue then
      eepromReadBlock t.eeprom nvCallData sizeofCallData
    else defaultCalldata.toBytes

def configFrame (cmd : UInt8) (data : List UInt8) : List UInt8 := cmd :: (data ++ [checksum data])

/-- The reply that carries the data. -/
def kissReply (cmd : UInt8) (data : List UInt8) : List UInt8 :=
  kissSendToSerial 0 cmd (data ++ [checksum data])

/-- A frame that must change nothing: a config frame with a wrong checksum,
parameters or call data of a wrong length, a port that is not 0, a command
that is not supported. -/
inductive Rejected : List UInt8 → Prop
  | checksum (cmd sum : UInt8) (data : List UInt8)
      (hcmd : cmd ∈ [kissCmdConfigParams, kissCmdConfigText, kissCmdConfigCall, kissCmdConfigMagic])
      (hsum : sum ≠ TinyAprs.checksum data) : Rejected (cmd :: (data ++ [sum]))
  | params (data : List UInt8) (h0 : data.length ≠ 0) (hlen : data.length ≠ sizeofSettingsData) :
      Rejected (configFrame kissCmdConfigParams data)
  | call (data : List UInt8) (h0 : data.length ≠ 0) (hlen : data.length ≠ sizeofCallData) :
      Rejected (configFrame kissCmdConfigCall data)
  | port (c : UInt8) (rest : List UInt8) (hport : c >>> 4 ≠ 0) : Rejected (c :: rest)
  | command (c : UInt8) (rest : List UInt8)
      (hcmd : c &&& 0x0f ∉ [kissCmdData, kissCmdConfigParams, kissCmdConfigText, kissCmdConfigCall,
        kissCmdConfigMagic]) : Rejected (c :: rest)

/-! ### A frame is its request -/

/-- How a request is handled. -/
def handleRequest (t : Tnc) (turns : List Turn) (buf : ℕ → UInt8) : Request → Option Effect
  | .data payload => kissSendToModem t turns buf payload
  | .params d => kissHandleConfigParamsCmd t buf d
  | .text d => kissHandleConfigTextCmd t buf d
  | .call d => kissHandleConfigCallCmd t buf d
  | .magic d => kissHandleConfigMagicCmd t buf d
  | .nothing => some (.reply t buf [])

theorem port_cases : ∀ c : UInt8,
    (c >>> 4 &&& 0x0f > 0 ∧ c ≠ kissCmdData ∧ c ≠ kissCmdConfigParams ∧ c ≠ kissCmdConfigText ∧
      c ≠ kissCmdConfigCall ∧ c ≠ kissCmdConfigMagic) ∨
    (¬ c >>> 4 &&& 0x0f > 0 ∧ c &&& 0x0f = c) := by
  decide +kernel

theorem port_pos : ∀ c : UInt8, c >>> 4 ≠ 0 → ¬ ¬ c >>> 4 &&& 0x0f > 0 := by
  decide +kernel

theorem verifyConfigData_eq {data : List UInt8} (hlen : data.length ≤ 255) (sum : UInt8) :
    verifyConfigData (data ++ [sum]) = some (sum == checksum data) := by
  have hne : (data ++ [sum]).length ≠ 0 := by simp
  have hl : (data ++ [sum]).length - 1 = data.length := by simp
  rw [verifyConfigData, if_neg hne, hl]
  simp [calcCrc_eq hlen]

theorem kissVerified_eq (t : Tnc) (buf : ℕ → UInt8) {data : List UInt8} (hlen : data.length ≤ 255)
    (sum : UInt8) (cmd : Tnc → (ℕ → UInt8) → List UInt8 → Option Effect) :
    kissVerified t buf (data ++ [sum]) cmd =
      if sum ≠ checksum data then some (.reply t buf []) else cmd t buf data := by
  rw [kissVerified, verifyConfigData_eq hlen]
  by_cases h : sum = checksum data
  · simp [h]
  · simp [h]

/-- A frame short enough for `readLen` is handled as its request. -/
theorem kissHandleFrame_eq (t : Tnc) (turns : List Turn) (h : Handed) (hsize : h.size ≤ 255) :
    kissHandleFrame t turns h = handleRequest t turns h.frame (request h.bytes) := by
  have hlen : h.bytes.length = h.size := Cells.length_slice _ _ _
  unfold kissHandleFrame
  match hb : h.bytes, hlen with
  | [], hlen => simp [← hlen, request, handleRequest]
  | [c], hlen => simp [← hlen, request, handleRequest]
  | c :: x :: rest, hlen =>
    simp only [List.length_cons] at hlen
    obtain ⟨data, sum, hds⟩ : ∃ data sum, x :: rest = data ++ [sum] :=
      ⟨_, _, (List.dropLast_concat_getLast (List.cons_ne_nil x rest)).symm⟩
    have hdata : data.length ≤ 255 := by
      have := congrArg List.length hds
      simp only [List.length_cons, List.length_append] at this
      omega
    have hreq : request (c :: x :: rest) =
        if c = kissCmdData then .data (x :: rest) else configRequest c data sum := by
      simp only [request, hds, List.dropLast_concat, List.getLast_append_singleton]
    rw [if_neg (by omega), if_neg (by omega), if_neg (by omega), hreq]
    simp only [List.getD_cons_zero, List.drop_succ_cons, List.drop_zero, hds]
    rcases port_cases c with ⟨hp, h0, h1, h2, h3, h4⟩ | ⟨hp, hc⟩
    · rw [if_pos hp, if_neg h0, configRequest]
      simp [h1, h2, h3, h4, handleRequest]
    · rw [if_neg hp, hc]
      simp only [kissVerified_eq t h.frame hdata sum, configRequest]
      split_ifs <;> rfl

/-! ### What each request does -/

theorem kissRespond_eq (cmd : UInt8) {data : List UInt8} (hlen : data.length ≤ 255) :
    kissRespond cmd data = some (kissReply cmd data) := by
  rw [kissRespond, calcCrc_eq hlen]
  simp [kissReply, kissSendToSerial, sendToSerial_eq, Stuffing.encode_append]

theorem kissSerialRespondOk_eq : kissSerialRespondOk = some (kissReply kissCmdConfigMagic []) :=
  kissRespond_eq kissCmdConfigMagic (by decide)

variable (t : Tnc) (turns : List Turn) (buf : ℕ → UInt8)

theorem paramsCmd_read : kissHandleConfigParamsCmd t buf [] =
    some (.reply t buf (kissReply kissCmdConfigParams t.settings.toBytes)) := by
  rw [kissHandleConfigParamsCmd, if_pos List.length_nil,
    kissRespond_eq _ t.settings.length_le]
  rfl

theorem callCmd_read : kissHandleConfigCallCmd t buf [] =
    some (.reply t buf (kissReply kissCmdConfigCall (settingsGetCallData t.eeprom).toBytes)) := by
  rw [kissHandleConfigCallCmd, if_pos List.length_nil,
    kissRespond_eq _ (settingsGetCallData t.eeprom).length_le]
  rfl

theorem paramsCmd_other {d : List UInt8} (h0 : d.length ≠ 0) (hlen : d.length ≠ sizeofSettingsData) :
    kissHandleConfigParamsCmd t buf d = some (.reply t buf []) := by
  rw [kissHandleConfigParamsCmd, if_neg h0, if_neg hlen]

theorem callCmd_other {d : List UInt8} (h0 : d.length ≠ 0) (hlen : d.length ≠ sizeofCallData) :
    kissHandleConfigCallCmd t buf d = some (.reply t buf []) := by
  rw [kissHandleConfigCallCmd, if_neg h0, if_neg hlen]

/-- Parameters are written to `g_settings` and saved. -/
theorem paramsCmd_write {d : List UInt8} (hlen : d.length = sizeofSettingsData) :
    ∃ ee, kissHandleConfigParamsCmd t buf d = some (.reply { t with settings := .ofBytes d, eeprom := ee } buf
        (kissReply kissCmdConfigMagic [])) ∧
      Saved (.ofBytes d) ee ∧ callArea ee = callArea t.eeprom ∧ textArea ee = textArea t.eeprom := by
  obtain ⟨ee, hsave, hspec⟩ := settingsSave_spec (.ofBytes d) t.eeprom
  have hset : (settingsSetParamsBytes t.settings d).2 = .ofBytes d := by
    rw [settingsSetParamsBytes, if_neg (not_not.mpr hlen)]
  refine ⟨ee, ?_, hspec⟩
  rw [kissHandleConfigParamsCmd, if_neg (by rw [hlen]; decide), if_pos hlen, hset]
  dsimp only
  rw [hsave, kissSerialRespondOk_eq]
  rfl

theorem callCmd_write {d : List UInt8} (hlen : d.length = sizeofCallData) :
    kissHandleConfigCallCmd t buf d = some (.reply
      { t with eeprom := settingsSetCallData t.eeprom (.ofBytes d) } buf (kissReply kissCmdConfigMagic [])) := by
  rw [kissHandleConfigCallCmd, if_neg (by rw [hlen]; decide), if_pos hlen, kissSerialRespondOk_eq]
  rfl

theorem textCmd_write {d : List UInt8} (h0 : d.length ≠ 0) :
    kissHandleConfigTextCmd t buf d = some (.reply
      { t with eeprom := settingsSetBeaconText t.eeprom d (UInt8.ofNat d.length) } buf
      (kissReply kissCmdConfigMagic [])) := by
  rw [kissHandleConfigTextCmd, if_neg h0, kissSerialRespondOk_eq]
  rfl

theorem textCmd_read : ∃ buf' serial, kissHandleConfigTextCmd t buf [] = some (.reply t buf' serial) := by
  rw [kissHandleConfigTextCmd, if_pos List.length_nil]
  dsimp only
  have hlt := (settingsGetBeaconText t.eeprom buf readerBufLen.toUInt8).1.toNat_lt
  split_ifs
  · rw [kissRespond_eq _ (by rw [Cells.length_slice]; omega)]
    exact ⟨_, _, rfl⟩
  · exact ⟨_, _, rfl⟩

theorem magicCmd_tnc {d : List UInt8} {e : Effect} (h : kissHandleConfigMagicCmd t buf d = some e) :
    e.tnc = t := by
  rw [kissHandleConfigMagicCmd, kissSerialRespondOk_eq, kissRespond_eq _ (by decide)] at h
  split_ifs at h <;> (obtain rfl := Option.some.inj h; rfl)

theorem sendToModem_settings {payload : List UInt8} {e : Effect}
    (h : kissSendToModem t turns buf payload = some e) :
    e.tnc.settings = t.settings ∧ e.tnc.eeprom = t.eeprom := by
  unfold kissSendToModem at h
  obtain ⟨⟨modem, serial, send⟩, -, h⟩ := Option.bind_eq_some_iff.mp h
  dsimp only at h
  split_ifs at h <;> (obtain rfl := Option.some.inj h; exact ⟨rfl, rfl⟩)

/-! ### Histories -/

/-- A frame handed over, and what the CSMA loop sees if it is for the radio. -/
abbrev Event : Type := Handed × List Turn

/-- The TNC after the frames; `none` if one of them does not come back. -/
def tncRun : Tnc → List Event → Option Tnc
  | t, [] => some t
  | t, x :: hist => do
    let e ← kissHandleFrame t x.2 x.1
    if e.reset then none else tncRun e.tnc hist

/-- The TNC holds the registers of the store. -/
structure Implements (t : Tnc) (s : ConfigStore) : Prop where
  params : t.settings.toBytes = s.params
  call : (settingsGetCallData t.eeprom).toBytes = s.call

theorem implements_init (t : Tnc) : Implements t (.init t) := by
  refine ⟨rfl, ?_⟩
  rw [settingsGetCallData, ConfigStore.init]
  dsimp only
  split_ifs
  · exact CallData.toBytes_ofBytes (Cells.length_slice _ _ _)
  · rfl

variable {t turns buf} {s : ConfigStore} {x : Handed} {e : Effect}

theorem Implements.congr (h : Implements t s) (hset : e.tnc.settings = t.settings)
    (hcall : callArea e.tnc.eeprom = callArea t.eeprom) : Implements e.tnc s :=
  ⟨by rw [hset, h.params], by rw [settingsGetCallData_congr hcall, h.call]⟩

theorem not_writesParams {f : List UInt8} (h : ∀ d, request f ≠ .params d) : ¬ WritesParams f :=
  fun ⟨d, hd, _⟩ => h d hd

/-- A frame that writes neither register leaves them alone. -/
theorem Implements.keep {f : List UInt8} (himp : Implements t s) (hset : e.tnc.settings = t.settings)
    (hpar : paramsArea e.tnc.eeprom = paramsArea t.eeprom)
    (hcall : callArea e.tnc.eeprom = callArea t.eeprom) (hstep : s.step f = s) (hno : ¬ WritesParams f) :
    Implements e.tnc (s.step f) ∧
      (WritesParams f ∨ Saved t.settings t.eeprom → Saved e.tnc.settings e.tnc.eeprom) := by
  rw [hstep]
  refine ⟨himp.congr hset hcall, fun hs => ?_⟩
  rw [hset]
  exact (hs.resolve_left hno).congr hpar

/-- Parameters that are written are saved; a read or a bad length leaves
them. -/
theorem Implements.stepParams (himp : Implements t s) {d : List UInt8} (hr : request x.bytes = .params d)
    (h : kissHandleConfigParamsCmd t x.frame d = some e) : Implements e.tnc (s.step x.bytes) ∧
      (WritesParams x.bytes ∨ Saved t.settings t.eeprom → Saved e.tnc.settings e.tnc.eeprom) := by
  by_cases hlen : d.length = sizeofSettingsData
  · obtain ⟨ee, hcmd, hsaved, hcall, -⟩ := paramsCmd_write t x.frame hlen
    obtain rfl := Option.some.inj (hcmd.symm.trans h)
    rw [ConfigStore.step, hr]
    dsimp only
    rw [if_pos hlen]
    refine ⟨⟨SettingsData.toBytes_ofBytes hlen, ?_⟩, fun _ => hsaved⟩
    exact (congrArg CallData.toBytes (settingsGetCallData_congr hcall)).trans himp.call
  · have htnc : e.tnc = t := by
      by_cases h0 : d.length = 0
      · obtain rfl := List.length_eq_zero_iff.mp h0
        exact congrArg Effect.tnc (Option.some.inj (h.symm.trans (paramsCmd_read t x.frame)))
      · exact congrArg Effect.tnc (Option.some.inj (h.symm.trans (paramsCmd_other t x.frame h0 hlen)))
    refine himp.keep (by rw [htnc]) (by rw [htnc]) (by rw [htnc]) ?_ ?_
    · rw [ConfigStore.step, hr]
      exact if_neg hlen
    · rintro ⟨d', hd, hlen'⟩
      rw [hr] at hd
      cases hd
      exact hlen hlen'

/-- A text is stored beside the parameters and the call data. -/
theorem Implements.stepText (himp : Implements t s) {d : List UInt8} (hr : request x.bytes = .text d)
    (h : kissHandleConfigTextCmd t x.frame d = some e) : Implements e.tnc (s.step x.bytes) ∧
      (WritesParams x.bytes ∨ Saved t.settings t.eeprom → Saved e.tnc.settings e.tnc.eeprom) := by
  have hno : ¬ WritesParams x.bytes := not_writesParams (by simp [hr])
  by_cases h0 : d.length = 0
  · obtain rfl := List.length_eq_zero_iff.mp h0
    obtain ⟨buf', serial, hcmd⟩ := textCmd_read t x.frame
    obtain rfl := Option.some.inj (hcmd.symm.trans h)
    exact himp.keep rfl rfl rfl (by rw [ConfigStore.step, hr]) hno
  · obtain rfl := Option.some.inj ((textCmd_write t x.frame h0).symm.trans h)
    obtain ⟨hpar, hcall⟩ := settingsSetBeaconText_spec t.eeprom d (UInt8.ofNat d.length)
    exact himp.keep rfl hpar hcall (by rw [ConfigStore.step, hr]) hno

/-- Call data that is written is read back; a read or a bad length leaves
it. -/
theorem Implements.stepCall (himp : Implements t s) {d : List UInt8} (hr : request x.bytes = .call d)
    (h : kissHandleConfigCallCmd t x.frame d = some e) : Implements e.tnc (s.step x.bytes) ∧
      (WritesParams x.bytes ∨ Saved t.settings t.eeprom → Saved e.tnc.settings e.tnc.eeprom) := by
  have hno : ¬ WritesParams x.bytes := not_writesParams (by simp [hr])
  by_cases hlen : d.length = sizeofCallData
  · obtain rfl := Option.some.inj ((callCmd_write t x.frame hlen).symm.trans h)
    obtain ⟨hget, hpar, -⟩ := settingsSetCallData_spec t.eeprom (.ofBytes d)
    rw [ConfigStore.step, hr]
    dsimp only
    rw [if_pos hlen]
    refine ⟨⟨himp.params, ?_⟩, fun hs => (hs.resolve_left hno).congr hpar⟩
    exact hget.trans (CallData.toBytes_ofBytes hlen)
  · have htnc : e.tnc = t := by
      by_cases h0 : d.length = 0
      · obtain rfl := List.length_eq_zero_iff.mp h0
        exact congrArg Effect.tnc (Option.some.inj (h.symm.trans (callCmd_read t x.frame)))
      · exact congrArg Effect.tnc (Option.some.inj (h.symm.trans (callCmd_other t x.frame h0 hlen)))
    refine himp.keep (by rw [htnc]) (by rw [htnc]) (by rw [htnc]) ?_ hno
    rw [ConfigStore.step, hr]
    exact if_neg hlen

/-- One frame: the registers follow the store, and parameters once written
stay saved. -/
theorem Implements.step (himp : Implements t s) (hsize : x.size ≤ 255)
    (h : kissHandleFrame t turns x = some e) : Implements e.tnc (s.step x.bytes) ∧
      (WritesParams x.bytes ∨ Saved t.settings t.eeprom → Saved e.tnc.settings e.tnc.eeprom) := by
  rw [kissHandleFrame_eq t turns x hsize] at h
  cases hr : request x.bytes with
  | data payload =>
    rw [hr] at h
    obtain ⟨hset, hee⟩ := sendToModem_settings t turns x.frame h
    exact himp.keep hset (by rw [hee]) (by rw [hee]) (by rw [ConfigStore.step, hr])
      (not_writesParams (by simp [hr]))
  | params d =>
    rw [hr] at h
    exact himp.stepParams hr h
  | text d =>
    rw [hr] at h
    exact himp.stepText hr h
  | call d =>
    rw [hr] at h
    exact himp.stepCall hr h
  | magic d =>
    rw [hr] at h
    have htnc := magicCmd_tnc t x.frame h
    exact himp.keep (by rw [htnc]) (by rw [htnc]) (by rw [htnc]) (by rw [ConfigStore.step, hr])
      (not_writesParams (by simp [hr]))
  | nothing =>
    rw [hr] at h
    obtain rfl := Option.some.inj h
    exact himp.keep rfl rfl rfl (by rw [ConfigStore.step, hr]) (not_writesParams (by simp [hr]))

def ConfigStore.run (s : ConfigStore) (hist : List Event) : ConfigStore :=
  hist.foldl (fun s x => s.step x.1.bytes) s

/-- A history: the registers follow the store, and parameters once written
stay saved. -/
theorem Implements.run : ∀ (hist : List Event) {t t' : Tnc} {s : ConfigStore}, Implements t s →
    (∀ x ∈ hist, x.1.size ≤ 255) → tncRun t hist = some t' → Implements t' (s.run hist) ∧
      ((∃ x ∈ hist, WritesParams x.1.bytes) ∨ Saved t.settings t.eeprom → Saved t'.settings t'.eeprom)
  | [], t, t', s, himp, _, hrun => by
    obtain rfl := Option.some.inj hrun
    exact ⟨himp, fun h => h.resolve_left (by simp)⟩
  | x :: hist, t, t', s, himp, hsize, hrun => by
    obtain ⟨e, he, hrun⟩ := Option.bind_eq_some_iff.mp hrun
    split_ifs at hrun with hreset
    obtain ⟨himp', hsaved⟩ := himp.step (hsize x List.mem_cons_self) he
    obtain ⟨hfin, hsaved'⟩ :=
      Implements.run hist himp' (fun y hy => hsize y (List.mem_cons_of_mem x hy)) hrun
    refine ⟨hfin, fun h => hsaved' ?_⟩
    rcases h with ⟨y, hy, hw⟩ | h
    · rcases List.mem_cons.mp hy with rfl | hy
      · exact Or.inr (hsaved (Or.inl hw))
      · exact Or.inl ⟨y, hy, hw⟩
    · exact Or.inr (hsaved (Or.inr h))

/-! ### What a host sees -/

/-- What the TNC answers to the next frame, when the store holds `s`. -/
structure Serves (t : Tnc) (s : ConfigStore) : Prop where
  /-- A read of the parameters is answered with them and their checksum. -/
  readParams : ∀ turns x, x.bytes = configFrame kissCmdConfigParams [] →
    kissHandleFrame t turns x = some (.reply t x.frame (kissReply kissCmdConfigParams s.params))
  /-- So is a read of the call data. -/
  readCall : ∀ turns x, x.bytes = configFrame kissCmdConfigCall [] →
    kissHandleFrame t turns x = some (.reply t x.frame (kissReply kissCmdConfigCall s.call))
  /-- A refused frame changes nothing and is not answered. -/
  rejected : ∀ turns x, x.size ≤ 255 → Rejected x.bytes →
    kissHandleFrame t turns x = some (.reply t x.frame [])
  /-- A write of the parameters leaves the other areas alone. -/
  writeParams : ∀ turns x d, x.bytes = configFrame kissCmdConfigParams d → d.length = sizeofSettingsData →
    ∃ e, kissHandleFrame t turns x = some e ∧ e.reset = false ∧
      callArea e.tnc.eeprom = callArea t.eeprom ∧ textArea e.tnc.eeprom = textArea t.eeprom
  /-- So does a write of the call data. -/
  writeCall : ∀ turns x d, x.bytes = configFrame kissCmdConfigCall d → d.length = sizeofCallData →
    ∃ e, kissHandleFrame t turns x = some e ∧ e.reset = false ∧ e.tnc.settings = t.settings ∧
      paramsArea e.tnc.eeprom = paramsArea t.eeprom ∧ textArea e.tnc.eeprom = textArea t.eeprom
  /-- So does a write of the beacon text. -/
  writeText : ∀ turns x d, x.size ≤ 255 → x.bytes = configFrame kissCmdConfigText d → d ≠ [] →
    ∃ e, kissHandleFrame t turns x = some e ∧ e.reset = false ∧ e.tnc.settings = t.settings ∧
      paramsArea e.tnc.eeprom = paramsArea t.eeprom ∧ callArea e.tnc.eeprom = callArea t.eeprom

theorem request_concat {c : UInt8} (hc : c ≠ kissCmdData) (data : List UInt8) (sum : UInt8) :
    request (c :: (data ++ [sum])) = configRequest c data sum := by
  obtain ⟨y, rest, hyr⟩ : ∃ y rest, data ++ [sum] = y :: rest := by
    cases data with
    | nil => exact ⟨sum, [], rfl⟩
    | cons y data => exact ⟨y, data ++ [sum], rfl⟩
  have h1 : (y :: rest).dropLast = data := by rw [← hyr, List.dropLast_concat]
  have h2 : (y :: rest).getLast (List.cons_ne_nil y rest) = sum := by
    simp only [← hyr, List.getLast_append_singleton]
  rw [hyr, request, if_neg hc, h1, h2]

theorem request_params (d : List UInt8) : request (configFrame kissCmdConfigParams d) = .params d := by
  rw [configFrame, request_concat (by decide), configRequest, if_neg (by simp), if_pos rfl]

theorem request_text (d : List UInt8) : request (configFrame kissCmdConfigText d) = .text d := by
  rw [configFrame, request_concat (by decide), configRequest, if_neg (by simp), if_neg (by decide),
    if_pos rfl]

theorem request_call (d : List UInt8) : request (configFrame kissCmdConfigCall d) = .call d := by
  rw [configFrame, request_concat (by decide), configRequest, if_neg (by simp), if_neg (by decide),
    if_neg (by decide), if_pos rfl]

theorem size_of_bytes {x : Handed} {f : List UInt8} (h : x.bytes = f) : x.size = f.length := by
  rw [← h]
  exact (Cells.length_slice _ _ _).symm

theorem request_rejected {f : List UInt8} (h : Rejected f) :
    (request f = .nothing) ∨
      (∃ d, request f = .params d ∧ d.length ≠ 0 ∧ d.length ≠ sizeofSettingsData) ∨
      (∃ d, request f = .call d ∧ d.length ≠ 0 ∧ d.length ≠ sizeofCallData) := by
  have hnone : ∀ (c : UInt8) (rest : List UInt8), c ∉ [kissCmdData, kissCmdConfigParams, kissCmdConfigText,
      kissCmdConfigCall, kissCmdConfigMagic] → request (c :: rest) = .nothing := by
    intro c rest hc
    simp only [List.mem_cons, List.not_mem_nil, or_false, not_or] at hc
    cases rest with
    | nil => rfl
    | cons y rest =>
      rw [request, if_neg hc.1, configRequest]
      simp [hc]
  cases h with
  | checksum cmd sum data hcmd hsum =>
    have hne : cmd ≠ kissCmdData := by
      rintro rfl
      exact absurd hcmd (by decide)
    left
    rw [request_concat hne, configRequest, if_pos hsum]
  | params data h0 hlen => exact Or.inr (Or.inl ⟨data, request_params data, h0, hlen⟩)
  | call data h0 hlen => exact Or.inr (Or.inr ⟨data, request_call data, h0, hlen⟩)
  | port c rest hport =>
    refine Or.inl (hnone c rest ?_)
    rcases port_cases c with hc | hc
    · simpa using hc.2
    · exact absurd hc.1 (port_pos c hport)
  | command c rest hcmd =>
    refine Or.inl (hnone c rest ?_)
    rcases port_cases c with hc | hc
    · simpa using hc.2
    · rwa [hc.2] at hcmd

theorem Implements.serves (himp : Implements t s) : Serves t s where
  readParams turns x hx := by
    rw [kissHandleFrame_eq t turns x (by rw [size_of_bytes hx]; decide), hx, request_params, ← himp.params]
    exact paramsCmd_read t x.frame
  readCall turns x hx := by
    rw [kissHandleFrame_eq t turns x (by rw [size_of_bytes hx]; decide), hx, request_call, ← himp.call]
    exact callCmd_read t x.frame
  rejected turns x hsize hrej := by
    rw [kissHandleFrame_eq t turns x hsize]
    rcases request_rejected hrej with hr | ⟨d, hr, h0, hlen⟩ | ⟨d, hr, h0, hlen⟩
    · rw [hr]; rfl
    · rw [hr]; exact paramsCmd_other t x.frame h0 hlen
    · rw [hr]; exact callCmd_other t x.frame h0 hlen
  writeParams turns x d hx hlen := by
    have hsize : x.size ≤ 255 := by
      rw [size_of_bytes hx, configFrame, List.length_cons, List.length_append, hlen, List.length_singleton]
      decide
    obtain ⟨ee, hcmd, -, hcall, htext⟩ := paramsCmd_write t x.frame hlen
    rw [kissHandleFrame_eq t turns x hsize, hx, request_params]
    exact ⟨_, hcmd, rfl, hcall, htext⟩
  writeCall turns x d hx hlen := by
    have hsize : x.size ≤ 255 := by
      rw [size_of_bytes hx, configFrame, List.length_cons, List.length_append, hlen, List.length_singleton]
      decide
    obtain ⟨-, hpar, htext⟩ := settingsSetCallData_spec t.eeprom (.ofBytes d)
    rw [kissHandleFrame_eq t turns x hsize, hx, request_call]
    exact ⟨_, callCmd_write t x.frame hlen, rfl, rfl, hpar, htext⟩
  writeText turns x d hsize hx hd := by
    obtain ⟨hpar, hcall⟩ := settingsSetBeaconText_spec t.eeprom d (UInt8.ofNat d.length)
    rw [kissHandleFrame_eq t turns x hsize, hx, request_text]
    exact ⟨_, textCmd_write t x.frame (mt List.length_eq_zero_iff.mp hd), rfl, rfl, hpar, hcall⟩

/-- **The KISS configuration store.** After every history of frames that come
back, the TNC serves what was written last, and parameters that were written
are there after a reboot. -/
theorem kiss_config_store (t₀ t : Tnc) (hist : List Event) (hsize : ∀ x ∈ hist, x.1.size ≤ 255)
    (hrun : tncRun t₀ hist = some t) :
    Serves t ((ConfigStore.init t₀).run hist) ∧
      ((∃ x ∈ hist, WritesParams x.1.bytes) →
        ∀ g, settingsLoad g t.eeprom = some (true, t.settings, t.eeprom)) := by
  obtain ⟨himp, hsaved⟩ := (implements_init t₀).run hist hsize hrun
  exact ⟨himp.serves, fun hw g => (hsaved (Or.inl hw)).load g⟩

/-- A TNC as it leaves the factory. -/
def factoryTnc : Tnc := ⟨gSettings, fun _ => 0xFF, ax25Init true⟩

/-- A frame in a buffer of zeros. -/
def Handed.ofList (f : List UInt8) : Handed := ⟨fun i => f.getD i 0, f.length⟩

theorem bytes_ofList (f : List UInt8) : (Handed.ofList f).bytes = f := by
  refine List.ext_getElem (Cells.length_slice _ _ _) fun i _ hi => ?_
  simp [Handed.bytes, Handed.ofList, Cells.slice, hi]

/-- A host that sets the run mode to 0 and sends a frame with a bad checksum. -/
def hostSession : List Event :=
  [(.ofList (configFrame kissCmdConfigParams { gSettings with runMode := 0 }.toBytes), []),
    (.ofList [kissCmdConfigCall, 0x41, 0x41], [])]

theorem kiss_config_store_hostSession : ∃ t, tncRun factoryTnc hostSession = some t ∧
    Serves t ((ConfigStore.init factoryTnc).run hostSession) ∧
    ((ConfigStore.init factoryTnc).run hostSession).params = { gSettings with runMode := 0 }.toBytes := by
  have hsome : (tncRun factoryTnc hostSession).isSome := by decide +kernel
  obtain ⟨t, ht⟩ := Option.isSome_iff_exists.mp hsome
  exact ⟨t, ht, (kiss_config_store factoryTnc t hostSession (by decide) ht).1, by decide +kernel⟩

end TinyAprs
