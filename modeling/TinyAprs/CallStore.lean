/-
# The call data, through the console and the KISS line

The call data lies in its own area of the EEPROM, behind a head byte; while
that byte is not set, the default in flash stands for it. It is read as a
whole (`settings_get_call_data`), or only its second call, by the offset of
that call (`settings_get_mycall`). It is written by `AT+CALL`, by `AT+PATH`
(both read the whole, change a part and write the whole back) and by a KISS
frame. `StoreOp` is what can happen to the settings, from either side;
`StoreOp.onCalls` is what that means for the call data as a value, and
`call_store_agrees` is that the EEPROM holds exactly this value, after any
operations from any contents.
-/
import Mathlib.Data.List.GetD
import TinyAprs.Console
import TinyAprs.KissStore

namespace TinyAprs

/-! ### The operations -/

/-- What the console commands see of a TNC. -/
def Tnc.store (t : Tnc) : Store := ⟨t.settings, t.eeprom⟩

/-- A TNC after a console command. -/
def Tnc.withStore (t : Tnc) (s : Store) : Tnc := { t with settings := s.settings, eeprom := s.eeprom }

/-- What is done to the settings: the console commands with their values, the
KISS commands with the reader's buffer and their data, and the functions of
`settings.c` that save, load and clear. -/
inductive StoreOp
  | call (value : List UInt8)
  | path (value : List UInt8)
  | symbol (value : List UInt8)
  | beacon (value : List UInt8)
  | text (value : List UInt8)
  | kissCall (buf : ℕ → UInt8) (data : List UInt8)
  | kissParams (buf : ℕ → UInt8) (data : List UInt8)
  | kissText (buf : ℕ → UInt8) (data : List UInt8)
  | save
  | load
  | clear

/-- The TNC after the operation; `none` if it does not come back. -/
def StoreOp.apply (t : Tnc) : StoreOp → Option Tnc
  | .call value => some (t.withStore (cmdSettingsMycall t.store value))
  | .path value => some (t.withStore (cmdSettingsPath t.store value))
  | .symbol value => (cmdSettingsSymbol t.store value).map t.withStore
  | .beacon value => (cmdSettingsBeaconInterval t.store value).map t.withStore
  | .text value => some (t.withStore (cmdSettingsBeaconText t.store value))
  | .kissCall buf data => (kissHandleConfigCallCmd t buf data).map Effect.tnc
  | .kissParams buf data => (kissHandleConfigParamsCmd t buf data).map Effect.tnc
  | .kissText buf data => (kissHandleConfigTextCmd t buf data).map Effect.tnc
  | .save => t.store.save.map t.withStore
  | .load => (settingsLoad t.settings t.eeprom).map fun r => { t with settings := r.2.1, eeprom := r.2.2 }
  | .clear => some { t with eeprom := settingsClear t.eeprom }

def storeRun : Tnc → List StoreOp → Option Tnc
  | t, [] => some t
  | t, op :: ops => do
    let t ← op.apply t
    storeRun t ops

/-! ### The call data as a value -/

/-- The parameters' head byte is set, and their checksum is wrong. -/
def BadChecksum (ee : Eeprom) : Prop :=
  ee nvSetHeadByte = nvSettingsHeadByteValue ∧ ee nvSetCrcByte ≠ checksum (paramsBlock ee)

instance (ee : Eeprom) : Decidable (BadChecksum ee) := inferInstanceAs (Decidable (_ ∧ _))

/-- The two calls `AT+PATH` asks for, if it asks for any; the second may be
left out, and is empty then. Lengths have 8 bits. -/
def pathOf (value : List UInt8) : Option (AX25Call × AX25Call) := do
  if valueLen value = 0 then none
  else
    let (path1, rest) ← strtok value
    if path1.length % 256 = 0 then none
    else
      some (ax25callFromString path1, match strtok rest with
        | some (path2, _) => if path2.length % 256 > 0 then ax25callFromString path2 else ⟨.replicate 6 0, 0⟩
        | none => ⟨.replicate 6 0, 0⟩)

/-- What an operation makes of the call data: `AT+CALL` replaces `myCall`,
`AT+PATH` the path, a KISS frame of the right length the whole; `settings_clear`,
and a `settings_load` with a wrong checksum, put the default in its place; the
others leave it. -/
def StoreOp.onCalls (ee : Eeprom) (c : CallData) : StoreOp → CallData
  | .call value => if valueLen value > 0 then { c with myCall := ax25callFromString value } else c
  | .path value =>
    match pathOf value with
    | some (path1, path2) => { c with path1 := path1, path2 := path2 }
    | none => c
  | .kissCall _ data => if data.length = sizeofCallData then .ofBytes data else c
  | .load => if BadChecksum ee then defaultCalldata else c
  | .clear => defaultCalldata
  | .symbol _ | .beacon _ | .text _ | .kissParams _ _ | .kissText _ _ | .save => c

/-! ### Reading -/

@[simp] theorem AX25Call.ofBytes_toBytes (a : AX25Call) : AX25Call.ofBytes a.toBytes = a := by
  obtain ⟨call, ssid⟩ := a
  have hlen : call.toList.length = 6 := by simp
  have hcall : (Vector.ofFn fun i : Fin 6 => (call.toList ++ [ssid]).getD i 0) = call := by
    refine Vector.ext fun i hi => ?_
    rw [Vector.getElem_ofFn, List.getD_append _ _ _ _ (by rw [hlen]; exact hi)]
    simp [hi]
  have hssid : (call.toList ++ [ssid]).getD 6 0 = ssid := by
    rw [List.getD_append_right _ _ _ _ (by rw [hlen]), hlen]
    rfl
  rw [AX25Call.ofBytes, AX25Call.toBytes]
  dsimp only
  rw [hcall, hssid]

@[simp] theorem CallData.ofBytes_toBytes (c : CallData) : CallData.ofBytes c.toBytes = c := by
  obtain ⟨dest, my, path1, path2⟩ := c
  simp [CallData.ofBytes, CallData.toBytes, List.drop_append, List.take_of_length_le,
    List.drop_eq_nil_of_le, sizeofAX25Call]

theorem getCallData_set (ee : Eeprom) (c : CallData) : settingsGetCallData (settingsSetCallData ee c) = c := by
  have h := congrArg CallData.ofBytes (settingsSetCallData_spec ee c).1
  rwa [CallData.ofBytes_toBytes, CallData.ofBytes_toBytes] at h

/-- The offset of `settings_get_mycall` is that of the field. -/
theorem settingsGetMycall_eq (ee : Eeprom) : settingsGetMycall ee = (settingsGetCallData ee).myCall := by
  rw [settingsGetMycall, settingsGetCallData]
  split_ifs with hhead
  · rw [CallData.ofBytes]
    dsimp only
    rw [eepromReadBlock, eepromReadBlock]
    exact congrArg AX25Call.ofBytes (Cells.take_drop_slice ee nvCallData 7 7 14).symm
  · rfl

/-! ### One operation -/

theorem cmdSettingsPath_eq (s : Store) (value : List UInt8) : cmdSettingsPath s value =
    match pathOf value with
    | some (path1, path2) => { s with eeprom := settingsSetCallData s.eeprom
                                        { settingsGetCallData s.eeprom with path1 := path1, path2 := path2 } }
    | none => s := by
  unfold cmdSettingsPath pathOf
  dsimp only
  by_cases hlen : valueLen value = 0
  · rw [if_neg (by omega), if_pos hlen]
  · rw [if_pos (by omega), if_neg hlen]
    rcases strtok value with _ | ⟨path1, rest⟩
    · rfl
    · by_cases h1 : path1.length % 256 = 0
      · simp [h1]
      · have hpos := Nat.pos_of_ne_zero h1
        cases h2 : strtok rest <;> simp [h1, hpos, h2]

theorem save_calls (s : Store) : ∃ s', s.save = some s' ∧ callArea s'.eeprom = callArea s.eeprom := by
  obtain ⟨ee, hsave, -, hcall, -⟩ := settingsSave_spec s.settings s.eeprom
  refine ⟨{ s with eeprom := ee }, ?_, hcall⟩
  rw [Store.save, hsave]
  rfl

theorem getCallData_clear (ee : Eeprom) : settingsGetCallData (settingsClear ee) = defaultCalldata :=
  if_neg (by decide : (0xFF : UInt8) ≠ nvSettingsHeadByteValue)

/-- `settings_load` clears the call data exactly when the checksum is wrong. -/
theorem settingsLoad_calls (g : SettingsData) (ee : Eeprom) : ∃ r, settingsLoad g ee = some r ∧
    r.2.2 = if BadChecksum ee then settingsClear ee else ee := by
  refine ⟨_, settingsLoad_eq g ee, ?_⟩
  by_cases hhead : ee nvSetHeadByte = nvSettingsHeadByteValue
  · rw [if_neg (not_not.mpr hhead)]
    by_cases hsum : ee nvSetCrcByte = checksum (paramsBlock ee)
    · rw [if_neg (not_not.mpr hsum), if_neg fun hbad => hbad.2 hsum]
    · rw [if_pos hsum, if_pos ⟨hhead, hsum⟩]
  · rw [if_pos hhead, if_neg fun hbad => hhead hbad.1]

/-- An operation that writes beside the call data leaves it. -/
theorem calls_of_area {o : Option Tnc} {t t' : Tnc} (h : o = some t')
    (harea : callArea t'.eeprom = callArea t.eeprom) :
    ∃ t', o = some t' ∧ settingsGetCallData t'.eeprom = settingsGetCallData t.eeprom :=
  ⟨t', h, settingsGetCallData_congr harea⟩

/-- A KISS params command returns, and leaves the call data and the modem. -/
theorem kissParams_spec (t : Tnc) (buf : ℕ → UInt8) (data : List UInt8) :
    ∃ e, kissHandleConfigParamsCmd t buf data = some e ∧ e.tnc.modem = t.modem ∧
      callArea e.tnc.eeprom = callArea t.eeprom := by
  by_cases hlen : data.length = sizeofSettingsData
  · obtain ⟨ee, hcmd, -, hcall, -⟩ := paramsCmd_write t buf hlen
    exact ⟨_, hcmd, rfl, hcall⟩
  · by_cases h0 : data.length = 0
    · obtain rfl := List.length_eq_zero_iff.mp h0
      exact ⟨_, paramsCmd_read t buf, rfl, rfl⟩
    · exact ⟨_, paramsCmd_other t buf h0 hlen, rfl, rfl⟩

/-- A KISS text command returns, and leaves the call data and the modem. -/
theorem kissText_spec (t : Tnc) (buf : ℕ → UInt8) (data : List UInt8) :
    ∃ e, kissHandleConfigTextCmd t buf data = some e ∧ e.tnc.modem = t.modem ∧
      callArea e.tnc.eeprom = callArea t.eeprom := by
  by_cases h0 : data.length = 0
  · obtain rfl := List.length_eq_zero_iff.mp h0
    obtain ⟨buf', serial, hcmd⟩ := textCmd_read t buf
    exact ⟨_, hcmd, rfl, rfl⟩
  · exact ⟨_, textCmd_write t buf h0, rfl, (settingsSetBeaconText_spec t.eeprom data _).2⟩

/-- A KISS call command returns, and sets the call data if the length is
right. -/
theorem kissCall_spec (t : Tnc) (buf : ℕ → UInt8) (data : List UInt8) :
    ∃ e, kissHandleConfigCallCmd t buf data = some e ∧ e.tnc.modem = t.modem ∧
      settingsGetCallData e.tnc.eeprom =
        if data.length = sizeofCallData then .ofBytes data else settingsGetCallData t.eeprom := by
  by_cases hlen : data.length = sizeofCallData
  · refine ⟨_, callCmd_write t buf hlen, rfl, ?_⟩
    rw [if_pos hlen]
    exact getCallData_set t.eeprom (.ofBytes data)
  · rw [if_neg hlen]
    by_cases h0 : data.length = 0
    · obtain rfl := List.length_eq_zero_iff.mp h0
      exact ⟨_, callCmd_read t buf, rfl, rfl⟩
    · exact ⟨_, callCmd_other t buf h0 hlen, rfl, rfl⟩

/-- A command that saves, or does nothing, leaves the call data. -/
theorem StoreOp.saving {t : Tnc} {p : Prop} [Decidable p] {s : Store} (hs : s.eeprom = t.eeprom) :
    ∃ t', (if p then s.save else some t.store).map t.withStore = some t' ∧
      settingsGetCallData t'.eeprom = settingsGetCallData t.eeprom := by
  obtain ⟨s', hsave, hcall⟩ := save_calls s
  rw [hs] at hcall
  split_ifs with hp
  · exact calls_of_area (by rw [hsave]; rfl) hcall
  · exact ⟨_, rfl, rfl⟩

/-- An operation returns, and leaves the call data it means to. -/
theorem StoreOp.apply_calls (t : Tnc) (op : StoreOp) : ∃ t', op.apply t = some t' ∧
    settingsGetCallData t'.eeprom = op.onCalls t.eeprom (settingsGetCallData t.eeprom) := by
  cases op with
  | call value =>
    refine ⟨_, rfl, ?_⟩
    rw [StoreOp.onCalls, cmdSettingsMycall]
    split_ifs with hlen
    · exact getCallData_set t.eeprom _
    · rfl
  | path value =>
    refine ⟨_, rfl, ?_⟩
    rw [StoreOp.onCalls, cmdSettingsPath_eq]
    rcases pathOf value with _ | ⟨path1, path2⟩
    · rfl
    · exact getCallData_set t.eeprom _
  | symbol value => exact saving rfl
  | beacon value => exact saving rfl
  | text value =>
    refine ⟨_, rfl, ?_⟩
    rw [cmdSettingsBeaconText]
    split_ifs with hlen
    · exact settingsGetCallData_congr (settingsSetBeaconText_spec t.eeprom value _).2
    · rfl
  | kissCall buf data =>
    obtain ⟨e, hcmd, -, hcalls⟩ := kissCall_spec t buf data
    exact ⟨e.tnc, by rw [StoreOp.apply, hcmd]; rfl, hcalls⟩
  | kissParams buf data =>
    obtain ⟨e, hcmd, -, harea⟩ := kissParams_spec t buf data
    exact calls_of_area (by rw [StoreOp.apply, hcmd]; rfl) harea
  | kissText buf data =>
    obtain ⟨e, hcmd, -, harea⟩ := kissText_spec t buf data
    exact calls_of_area (by rw [StoreOp.apply, hcmd]; rfl) harea
  | save =>
    obtain ⟨s', hsave, harea⟩ := save_calls t.store
    exact calls_of_area (by rw [StoreOp.apply, hsave]; rfl) harea
  | load =>
    obtain ⟨r, hload, hee⟩ := settingsLoad_calls t.settings t.eeprom
    refine ⟨_, by rw [StoreOp.apply, hload]; rfl, ?_⟩
    show settingsGetCallData r.2.2 = _
    rw [StoreOp.onCalls, hee]
    split_ifs with hbad
    · exact getCallData_clear t.eeprom
    · rfl
  | clear => exact ⟨_, rfl, getCallData_clear t.eeprom⟩

/-! ### Any operations -/

theorem storeRun_isSome (ops : List StoreOp) (t : Tnc) : ∃ t', storeRun t ops = some t' := by
  induction ops generalizing t with
  | nil => exact ⟨t, rfl⟩
  | cons op ops ih =>
    obtain ⟨t₁, happly, -⟩ := op.apply_calls t
    obtain ⟨t', hrun⟩ := ih t₁
    exact ⟨t', by rw [storeRun, happly]; exact hrun⟩

/-- **The call data is one value, whoever reads or writes it.** After any
operations on a TNC with any EEPROM, `settings_get_mycall` returns the
`myCall` of `settings_get_call_data`; and whatever operation is next, the call
data read after it is the call data read before it, the default in flash
included, with the change the operation stands for: only `myCall` for
`AT+CALL`, only the path for `AT+PATH`, the default for a clear or a load with
a wrong checksum, and none for the operations on parameters and text. -/
theorem call_store_agrees (t : Tnc) (ops : List StoreOp) : ∃ t', storeRun t ops = some t' ∧
    settingsGetMycall t'.eeprom = (settingsGetCallData t'.eeprom).myCall ∧
    ∀ op : StoreOp, ∃ t'', op.apply t' = some t'' ∧
      settingsGetCallData t''.eeprom = op.onCalls t'.eeprom (settingsGetCallData t'.eeprom) := by
  obtain ⟨t', hrun⟩ := storeRun_isSome ops t
  exact ⟨t', hrun, settingsGetMycall_eq t'.eeprom, fun op => op.apply_calls t'⟩

end TinyAprs
