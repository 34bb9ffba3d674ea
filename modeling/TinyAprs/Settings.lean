/-
# Settings in RAM and EEPROM

The model of `settings.c`: `g_settings`, the call data and the beacon text,
and the EEPROM they are kept in, which is a byte array. The three areas of
the EEPROM lie one behind the other, each with its own head byte; only the
parameters have a checksum. A structure and its bytes in memory are the same
(`SettingsData.toBytes`, `CallData.toBytes`): the AVR pads nothing and is
little-endian.
-/
import TinyAprs.Ax25

namespace TinyAprs

/-! ### The checksum -/

/-- The loop of `calc_crc`: `i` has 8 bits, so for more than 255 bytes it
starts again from 0 and the loop never ends. After 256 rounds `i` is back
where it was. -/
def calcCrcLoop (data : List UInt8) : ℕ → UInt8 → UInt8 → Option UInt8
  | 0, _, _ => none
  | n + 1, i, sum =>
    if i.toNat < data.length then calcCrcLoop data n (i + 1) (sum + data.getD i.toNat 0)
    else some (~~~ sum)

/-- `calc_crc`; `none` when it does not return. -/
def calcCrc (data : List UInt8) : Option UInt8 := calcCrcLoop data 256 0 0

def checksum (data : List UInt8) : UInt8 := ~~~ data.foldl (· + ·) 0

theorem calcCrcLoop_eq (data : List UInt8) (hlen : data.length ≤ 255) : ∀ (n : ℕ) (i sum : UInt8),
    i.toNat ≤ data.length → data.length < i.toNat + n →
    calcCrcLoop data n i sum = some (~~~ (data.drop i.toNat).foldl (· + ·) sum)
  | 0, i, sum, _, h => by omega
  | n + 1, i, sum, hi, h => by
    unfold calcCrcLoop
    split_ifs with hlt
    · have hi' : (i + 1).toNat = i.toNat + 1 := Cells.toNat_succ (by omega)
      rw [calcCrcLoop_eq data hlen n (i + 1) _ (by omega) (by omega), hi',
        List.drop_eq_getElem_cons hlt, List.foldl_cons, List.getD_eq_getElem?_getD,
        List.getElem?_eq_getElem hlt, Option.getD_some]
    · rw [List.drop_eq_nil_of_le (by omega), List.foldl_nil]

theorem calcCrc_eq {data : List UInt8} (hlen : data.length ≤ 255) : calcCrc data = some (checksum data) := by
  rw [calcCrc, calcCrcLoop_eq data hlen 256 0 0 (Nat.zero_le _) (by show data.length < 0 + 256; omega)]
  rfl

/-! ### The data -/

/-- `BeaconParams` -/
structure BeaconParams where
  symbol : UInt8 × UInt8
  interval : UInt16
  type : UInt8
deriving DecidableEq, Repr

/-- `RfParams` -/
structure RfParams where
  txdelay : UInt8
  txtail : UInt8
  persistence : UInt8
  slotTime : UInt8
  duplex : UInt8
deriving DecidableEq, Repr

/-- `SettingsData` -/
structure SettingsData where
  runMode : UInt8
  beacon : BeaconParams
  rf : RfParams
deriving DecidableEq, Repr

/-- `RF_DUPLEX_HALF` -/
def rfDuplexHalf : UInt8 := 0
/-- `RF_DUPLEX_FULL` -/
def rfDuplexFull : UInt8 := 1

/-- `g_settings` at power-up, in a build with `MOD_KISS`. -/
def gSettings : SettingsData where
  runMode := 1
  beacon := ⟨(0x2f, 0x3e), 0, 0⟩
  rf := ⟨50, 5, 63, 10, rfDuplexHalf⟩

/-- The bytes of a `uint16_t`. -/
def u16Bytes (x : UInt16) : List UInt8 := [UInt8.ofNat (x.toNat % 256), UInt8.ofNat (x.toNat / 256)]

/-- The `uint16_t` of two bytes. -/
def u16Of (lo hi : UInt8) : UInt16 := UInt16.ofNat (lo.toNat + 256 * hi.toNat)

/-- `sizeof(SettingsData)` -/
abbrev sizeofSettingsData : ℕ := 11

/-- `g_settings` as bytes. -/
def SettingsData.toBytes (s : SettingsData) : List UInt8 :=
  [s.runMode, s.beacon.symbol.1, s.beacon.symbol.2] ++ u16Bytes s.beacon.interval ++
    [s.beacon.type, s.rf.txdelay, s.rf.txtail, s.rf.persistence, s.rf.slotTime, s.rf.duplex]

/-- Bytes copied over `g_settings`. -/
def SettingsData.ofBytes (bs : List UInt8) : SettingsData where
  runMode := bs.getD 0 0
  beacon := ⟨(bs.getD 1 0, bs.getD 2 0), u16Of (bs.getD 3 0) (bs.getD 4 0), bs.getD 5 0⟩
  rf := ⟨bs.getD 6 0, bs.getD 7 0, bs.getD 8 0, bs.getD 9 0, bs.getD 10 0⟩

/-- The bytes of an `AX25Call`. -/
def AX25Call.toBytes (a : AX25Call) : List UInt8 := a.call.toList ++ [a.ssid]

/-- Bytes copied over an `AX25Call`. -/
def AX25Call.ofBytes (bs : List UInt8) : AX25Call := ⟨Vector.ofFn fun i => bs.getD i 0, bs.getD 6 0⟩

/-- `CallData` -/
structure CallData where
  destCall : AX25Call
  myCall : AX25Call
  path1 : AX25Call
  path2 : AX25Call
deriving DecidableEq, Repr

/-- `sizeof(AX25Call)` -/
abbrev sizeofAX25Call : ℕ := 7
/-- `sizeof(CallData)` -/
abbrev sizeofCallData : ℕ := 28

def CallData.toBytes (c : CallData) : List UInt8 :=
  c.destCall.toBytes ++ c.myCall.toBytes ++ c.path1.toBytes ++ c.path2.toBytes

/-- Bytes copied over the call data. -/
def CallData.ofBytes (bs : List UInt8) : CallData where
  destCall := .ofBytes (bs.take 7)
  myCall := .ofBytes ((bs.drop 7).take 7)
  path1 := .ofBytes ((bs.drop 14).take 7)
  path2 := .ofBytes ((bs.drop 21).take 7)

/-- `default_calldata` -/
def defaultCalldata : CallData where
  myCall := ⟨#v[0x4e, 0x4f, 0x43, 0x41, 0x4c, 0x4c], 0⟩
  destCall := ⟨#v[0x41, 0x50, 0x54, 0x42, 0x30, 0x31], 0⟩
  path1 := ⟨#v[0x57, 0x49, 0x44, 0x45, 0x31, 0], 1⟩
  path2 := ⟨#v[0x57, 0x49, 0x44, 0x45, 0x32, 0], 2⟩

/-- `DEFAULT_BEACON_TEXT`: `!3014.00N/12009.00E>TinyAPRS Rocks!` -/
def defaultBeaconText : List UInt8 :=
  [0x21, 0x33, 0x30, 0x31, 0x34, 0x2e, 0x30, 0x30, 0x4e, 0x2f, 0x31, 0x32, 0x30, 0x30, 0x39, 0x2e, 0x30,
    0x30, 0x45, 0x3e, 0x54, 0x69, 0x6e, 0x79, 0x41, 0x50, 0x52, 0x53, 0x20, 0x52, 0x6f, 0x63, 0x6b,
    0x73, 0x21]

theorem u16Bytes_of (lo hi : UInt8) : u16Bytes (u16Of lo hi) = [lo, hi] := by
  have hlo := lo.toNat_lt
  have hhi := hi.toNat_lt
  have h : (u16Of lo hi).toNat = lo.toNat + 256 * hi.toNat := by
    rw [u16Of, UInt16.toNat_ofNat']
    exact Nat.mod_eq_of_lt (by omega)
  rw [u16Bytes, h, Nat.add_mul_mod_self_left, Nat.mod_eq_of_lt (by omega),
    Nat.add_mul_div_left _ _ (by decide), Nat.div_eq_of_lt (by omega), Nat.zero_add]
  simp

theorem u16Of_bytes (x : UInt16) :
    u16Of (UInt8.ofNat (x.toNat % 256)) (UInt8.ofNat (x.toNat / 256)) = x := by
  have hx := x.toNat_lt
  have h1 : (UInt8.ofNat (x.toNat % 256)).toNat = x.toNat % 256 := by
    rw [UInt8.toNat_ofNat']; omega
  have h2 : (UInt8.ofNat (x.toNat / 256)).toNat = x.toNat / 256 := by
    rw [UInt8.toNat_ofNat']; omega
  rw [u16Of, h1, h2, Nat.mod_add_div]
  simp

@[simp] theorem SettingsData.length_toBytes (s : SettingsData) : s.toBytes.length = sizeofSettingsData :=
  rfl

theorem SettingsData.length_le (s : SettingsData) : s.toBytes.length ≤ 255 := by
  rw [SettingsData.length_toBytes]
  decide

theorem calcCrc_params (s : SettingsData) : calcCrc s.toBytes = some (checksum s.toBytes) :=
  calcCrc_eq s.length_le

@[simp] theorem SettingsData.ofBytes_toBytes (s : SettingsData) : SettingsData.ofBytes s.toBytes = s := by
  obtain ⟨r, ⟨sym, i, ty⟩, rf⟩ := s
  simp [SettingsData.ofBytes, SettingsData.toBytes, u16Bytes, u16Of_bytes]

theorem SettingsData.toBytes_ofBytes {bs : List UInt8} (h : bs.length = sizeofSettingsData) :
    (SettingsData.ofBytes bs).toBytes = bs := by
  match bs, h with
  | [_, _, _, lo, hi, _, _, _, _, _, _], _ => simp [SettingsData.ofBytes, SettingsData.toBytes, u16Bytes_of]

theorem AX25Call.toBytes_ofBytes {bs : List UInt8} (h : bs.length = sizeofAX25Call) :
    (AX25Call.ofBytes bs).toBytes = bs := by
  match bs, h with
  | [_, _, _, _, _, _, _], _ => rfl

@[simp] theorem AX25Call.length_toBytes (a : AX25Call) : a.toBytes.length = sizeofAX25Call := by
  simp [AX25Call.toBytes]

@[simp] theorem CallData.length_toBytes (c : CallData) : c.toBytes.length = sizeofCallData := by
  rw [CallData.toBytes, List.length_append, List.length_append, List.length_append,
    AX25Call.length_toBytes, AX25Call.length_toBytes, AX25Call.length_toBytes, AX25Call.length_toBytes]
  rfl

theorem CallData.length_le (c : CallData) : c.toBytes.length ≤ 255 := by
  rw [CallData.length_toBytes]
  decide

theorem CallData.toBytes_ofBytes {bs : List UInt8} (h : bs.length = sizeofCallData) :
    (CallData.ofBytes bs).toBytes = bs := by
  have hcut : ∀ n, n + 7 ≤ 28 → ((bs.drop n).take 7).length = sizeofAX25Call := by
    intro n hn
    rw [List.length_take, List.length_drop, h]
    show min 7 (28 - n) = 7
    omega
  have h0 := hcut 0 (by omega)
  rw [List.drop_zero] at h0
  rw [CallData.toBytes, CallData.ofBytes]
  dsimp only
  rw [AX25Call.toBytes_ofBytes h0, AX25Call.toBytes_ofBytes (hcut 7 (by omega)),
    AX25Call.toBytes_ofBytes (hcut 14 (by omega)), AX25Call.toBytes_ofBytes (hcut 21 (by omega))]
  rw [← List.take_add, ← List.take_add, ← List.take_add]
  exact List.take_of_length_le (by rw [h])

/-! ### The EEPROM -/

/-- The EEPROM, byte by byte. -/
abbrev Eeprom : Type := ℕ → UInt8

/-- `SETTINGS_BEACON_TEXT_MAX_LEN` -/
abbrev settingsBeaconTextMaxLen : ℕ := 128
/-- `NV_SETTINGS_HEAD_BYTE_VALUE` -/
def nvSettingsHeadByteValue : UInt8 := 0x88
/-- `NV_BEACON_TEXT_HEAD_BYTE_VALUE` -/
def nvBeaconTextHeadByteValue : UInt8 := 0x99

abbrev nvSetHeadByte : ℕ := 0
abbrev nvSettings : ℕ := 1
abbrev nvSetCrcByte : ℕ := 12
abbrev nvCallDataHeadByte : ℕ := 13
abbrev nvCallData : ℕ := 14
abbrev nvBeaconTextHeadByte : ℕ := 42
abbrev nvBeaconText : ℕ := 43

/-- `eeprom_update_byte` -/
def eepromUpdateByte (ee : Eeprom) (p : ℕ) (x : UInt8) : Eeprom := Function.update ee p x

/-- `eeprom_update_block` -/
def eepromUpdateBlock (ee : Eeprom) (src : List UInt8) (dst : ℕ) : Eeprom := Cells.write ee dst src

/-- `eeprom_read_block` -/
def eepromReadBlock (ee : Eeprom) (src n : ℕ) : List UInt8 := Cells.slice ee src n

/-- `settings_set_params_bytes`: the result, and `g_settings` after it. -/
def settingsSetParamsBytes (g : SettingsData) (bytes : List UInt8) : Bool × SettingsData :=
  if bytes.length ≠ sizeofSettingsData then (false, g) else (true, .ofBytes bytes)

/-- `settings_clear` -/
def settingsClear (ee : Eeprom) : Eeprom :=
  let ee := eepromUpdateByte ee nvSetHeadByte 0xFF
  let ee := eepromUpdateByte ee nvCallDataHeadByte 0xFF
  let ee := eepromUpdateByte ee nvBeaconTextHeadByte 0xFF
  eepromUpdateByte ee nvSetCrcByte 0xFF

/-- `settings_load`: the result, `g_settings` and the EEPROM after it. -/
def settingsLoad (g : SettingsData) (ee : Eeprom) : Option (Bool × SettingsData × Eeprom) :=
  if ee nvSetHeadByte ≠ nvSettingsHeadByteValue then some (false, g, ee)
  else do
    let g := SettingsData.ofBytes (eepromReadBlock ee nvSettings sizeofSettingsData)
    let crc ← calcCrc g.toBytes
    if ee nvSetCrcByte ≠ crc then some (false, g, settingsClear ee) else some (true, g, ee)

/-- `settings_save` -/
def settingsSave (g : SettingsData) (ee : Eeprom) : Option Eeprom := do
  let ee := eepromUpdateBlock ee g.toBytes nvSettings
  let ee := eepromUpdateByte ee nvSetHeadByte nvSettingsHeadByteValue
  let sum ← calcCrc g.toBytes
  some (eepromUpdateByte ee nvSetCrcByte sum)

/-- `settings_set_call_data` -/
def settingsSetCallData (ee : Eeprom) (callData : CallData) : Eeprom :=
  eepromUpdateByte (eepromUpdateBlock ee callData.toBytes nvCallData) nvCallDataHeadByte
    nvSettingsHeadByteValue

/-- `settings_get_call_data` -/
def settingsGetCallData (ee : Eeprom) : CallData :=
  if ee nvCallDataHeadByte = nvSettingsHeadByteValue then
    .ofBytes (eepromReadBlock ee nvCallData sizeofCallData)
  else defaultCalldata

/-- `settings_get_mycall` -/
def settingsGetMycall (ee : Eeprom) : AX25Call :=
  if ee nvCallDataHeadByte = nvSettingsHeadByteValue then
    .ofBytes (eepromReadBlock ee (nvCallData + sizeofAX25Call) sizeofAX25Call)
  else defaultCalldata.myCall

/-- `bytesToRead` of `settings_get_beacon_text`, a `uint8_t`. -/
def bytesToRead (bufLen : UInt8) : ℕ :=
  (min ((bufLen.toNat : ℤ) - 1) settingsBeaconTextMaxLen % 256).toNat

/-- `settings_get_beacon_text`: the length, and the buffer after it. The
default text has no conversion for `snprintf_P` to do. -/
def settingsGetBeaconText (ee : Eeprom) (buf : ℕ → UInt8) (bufLen : UInt8) : UInt8 × (ℕ → UInt8) :=
  let buf := Function.update buf 0 0
  if ee nvBeaconTextHeadByte ≠ nvBeaconTextHeadByteValue then
    (UInt8.ofNat defaultBeaconText.length,
      if bufLen = 0 then buf else Cells.write buf 0 (defaultBeaconText.take (bufLen.toNat - 1) ++ [0]))
  else
    let n := bytesToRead bufLen
    let buf := Cells.write buf 0 (eepromReadBlock ee nvBeaconText n)
    -- the loop stops at a NUL, or at `n`
    let i := ((Cells.slice buf 0 n).takeWhile (· != 0)).length
    (UInt8.ofNat i, Function.update buf i 0)

/-- `settings_set_beacon_text` -/
def settingsSetBeaconText (ee : Eeprom) (data : List UInt8) (dataLen : UInt8) : Eeprom :=
  let bytesToWrite := min dataLen.toNat (settingsBeaconTextMaxLen - 1)
  let ee := eepromUpdateBlock ee (data.take bytesToWrite) nvBeaconText
  let ee := eepromUpdateByte ee (nvBeaconText + bytesToWrite) 0
  eepromUpdateByte ee nvBeaconTextHeadByte nvBeaconTextHeadByteValue

/-! ### The areas -/

/-- The parameters' area: head byte, parameters, checksum. -/
def paramsArea (ee : Eeprom) : List UInt8 := Cells.slice ee nvSetHeadByte 13
/-- The call data's area: head byte and call data. -/
def callArea (ee : Eeprom) : List UInt8 := Cells.slice ee nvCallDataHeadByte 29
/-- The beacon text's area: head byte and text. -/
def textArea (ee : Eeprom) : List UInt8 := Cells.slice ee nvBeaconTextHeadByte 129

/-- The EEPROM holds `g`, as `settings_save` leaves it. -/
structure Saved (g : SettingsData) (ee : Eeprom) : Prop where
  head : ee nvSetHeadByte = nvSettingsHeadByteValue
  params : eepromReadBlock ee nvSettings sizeofSettingsData = g.toBytes
  crc : ee nvSetCrcByte = checksum g.toBytes

theorem slice_updateByte (ee : Eeprom) {p off n : ℕ} (x : UInt8) (h : p < off ∨ off + n ≤ p) :
    Cells.slice (eepromUpdateByte ee p x) off n = Cells.slice ee off n := by
  refine Cells.slice_congr fun k hk => ?_
  exact Function.update_of_ne (by omega) _ _

theorem slice_updateBlock (ee : Eeprom) {src : List UInt8} {dst off n : ℕ}
    (h : off + n ≤ dst ∨ dst + src.length ≤ off) :
    Cells.slice (eepromUpdateBlock ee src dst) off n = Cells.slice ee off n :=
  Cells.slice_write_of_disjoint src ee h

/-- The parameters' block, as `settings_load` reads it. -/
def paramsBlock (ee : Eeprom) : List UInt8 := eepromReadBlock ee nvSettings sizeofSettingsData

@[simp] theorem length_paramsBlock (ee : Eeprom) : (paramsBlock ee).length = sizeofSettingsData :=
  Cells.length_slice _ _ _

/-- `settings_load` returns: it looks at the head byte, then at the checksum. -/
theorem settingsLoad_eq (g : SettingsData) (ee : Eeprom) : settingsLoad g ee = some (
    if ee nvSetHeadByte ≠ nvSettingsHeadByteValue then (false, g, ee)
    else if ee nvSetCrcByte ≠ checksum (paramsBlock ee) then (false, .ofBytes (paramsBlock ee), settingsClear ee)
    else (true, .ofBytes (paramsBlock ee), ee)) := by
  have hcrc : calcCrc (SettingsData.ofBytes (paramsBlock ee)).toBytes = some (checksum (paramsBlock ee)) := by
    rw [calcCrc_params, SettingsData.toBytes_ofBytes (length_paramsBlock ee)]
  rw [settingsLoad]
  split_ifs with hhead hsum
  · rfl
  · show (calcCrc (SettingsData.ofBytes (paramsBlock ee)).toBytes).bind _ = _
    rw [hcrc]
    exact if_pos hsum
  · show (calcCrc (SettingsData.ofBytes (paramsBlock ee)).toBytes).bind _ = _
    rw [hcrc]
    exact if_neg hsum

/-- Parameters that are saved, saved again or not, are loaded. -/
theorem Saved.load {g : SettingsData} {ee : Eeprom} (h : Saved g ee) (g₀ : SettingsData) :
    settingsLoad g₀ ee = some (true, g, ee) := by
  have hblock : paramsBlock ee = g.toBytes := h.params
  rw [settingsLoad_eq, if_neg (not_not.mpr h.head), hblock, if_neg (not_not.mpr h.crc),
    SettingsData.ofBytes_toBytes]

theorem Saved.congr {g : SettingsData} {ee ee' : Eeprom} (h : Saved g ee)
    (harea : paramsArea ee' = paramsArea ee) : Saved g ee' := by
  have e : ∀ k < 13, ee' k = ee k := by
    intro k hk
    have h1 : (paramsArea ee')[k]? = some (ee' k) := by simp [paramsArea, Cells.slice, hk]
    have h2 : (paramsArea ee)[k]? = some (ee k) := by simp [paramsArea, Cells.slice, hk]
    rw [harea, h2] at h1
    exact (Option.some.inj h1).symm
  refine ⟨(e 0 (by omega)).trans h.head, ?_, (e 12 (by omega)).trans h.crc⟩
  rw [← h.params]
  refine Cells.slice_congr fun k hk => e _ ?_
  change k < 11 at hk
  show 1 + k < 13
  omega

/-- `settings_save` returns, saves, and writes the parameters' area only. -/
theorem settingsSave_spec (g : SettingsData) (ee : Eeprom) : ∃ ee', settingsSave g ee = some ee' ∧
    Saved g ee' ∧ callArea ee' = callArea ee ∧ textArea ee' = textArea ee := by
  have hlen : g.toBytes.length = 11 := rfl
  refine ⟨_, by rw [settingsSave, calcCrc_params]; rfl, ⟨rfl, ?_, rfl⟩, ?_, ?_⟩
  · rw [eepromReadBlock, slice_updateByte _ _ (by right; decide), slice_updateByte _ _ (by left; decide)]
    exact Cells.at_write g.toBytes ee nvSettings
  · rw [callArea, slice_updateByte _ _ (by left; decide), slice_updateByte _ _ (by left; decide),
      slice_updateBlock _ (by right; rw [hlen]; decide), callArea]
  · rw [textArea, slice_updateByte _ _ (by left; decide), slice_updateByte _ _ (by left; decide),
      slice_updateBlock _ (by right; rw [hlen]; decide), textArea]

/-- The call data read is the call data set, and only its area is written. -/
theorem settingsSetCallData_spec (ee : Eeprom) (c : CallData) :
    (settingsGetCallData (settingsSetCallData ee c)).toBytes = c.toBytes ∧
      paramsArea (settingsSetCallData ee c) = paramsArea ee ∧
      textArea (settingsSetCallData ee c) = textArea ee := by
  have hlen : c.toBytes.length = 28 := c.length_toBytes
  refine ⟨?_, ?_, ?_⟩
  · have hhead : settingsSetCallData ee c nvCallDataHeadByte = nvSettingsHeadByteValue := rfl
    have hread : eepromReadBlock (settingsSetCallData ee c) nvCallData sizeofCallData = c.toBytes := by
      rw [eepromReadBlock, settingsSetCallData, slice_updateByte _ _ (by left; decide), eepromUpdateBlock,
        ← c.length_toBytes]
      exact Cells.at_write c.toBytes ee nvCallData
    rw [settingsGetCallData, if_pos hhead, hread, CallData.toBytes_ofBytes c.length_toBytes]
  · rw [paramsArea, settingsSetCallData, slice_updateByte _ _ (by right; decide),
      slice_updateBlock _ (by left; decide), paramsArea]
  · rw [textArea, settingsSetCallData, slice_updateByte _ _ (by left; decide),
      slice_updateBlock _ (by right; rw [hlen]), textArea]

theorem settingsSetBeaconText_spec (ee : Eeprom) (data : List UInt8) (n : UInt8) :
    paramsArea (settingsSetBeaconText ee data n) = paramsArea ee ∧
      callArea (settingsSetBeaconText ee data n) = callArea ee := by
  refine ⟨?_, ?_⟩
  · rw [paramsArea, settingsSetBeaconText, slice_updateByte _ _ (by right; decide),
      slice_updateByte _ _ (Or.inr (Nat.le_add_right_of_le (by decide))),
      slice_updateBlock _ (by left; decide), paramsArea]
  · rw [callArea, settingsSetBeaconText, slice_updateByte _ _ (by right; decide),
      slice_updateByte _ _ (Or.inr (Nat.le_add_right_of_le (by decide))),
      slice_updateBlock _ (by left; decide), callArea]

theorem settingsGetCallData_congr {ee ee' : Eeprom} (h : callArea ee' = callArea ee) :
    settingsGetCallData ee' = settingsGetCallData ee := by
  have h : ee' nvCallDataHeadByte :: Cells.slice ee' nvCallData sizeofCallData =
      ee nvCallDataHeadByte :: Cells.slice ee nvCallData sizeofCallData := by
    rw [← Cells.slice_succ_cons, ← Cells.slice_succ_cons]
    exact h
  rw [List.cons.injEq] at h
  have hread : eepromReadBlock ee' nvCallData sizeofCallData = eepromReadBlock ee nvCallData sizeofCallData :=
    h.2
  rw [settingsGetCallData, settingsGetCallData, h.1, hread]

/-! ### A load that fails -/

/-- A failed `settings_load` leaves `g_settings` as it was, and the next one
fails too and changes nothing. -/
def FailsHarmlessly (g : SettingsData) (ee : Eeprom) : Prop :=
  ∀ g' ee', settingsLoad g ee = some (false, g', ee') →
    g' = g ∧ settingsLoad g' ee' = some (false, g', ee')

theorem settingsClear_head (ee : Eeprom) : settingsClear ee nvSetHeadByte ≠ nvSettingsHeadByteValue := by
  have h : settingsClear ee nvSetHeadByte = 0xFF := rfl
  rw [h]
  decide

theorem load_headless {ee : Eeprom} (hhead : ee nvSetHeadByte ≠ nvSettingsHeadByteValue) (g : SettingsData) :
    settingsLoad g ee = some (false, g, ee) := by
  rw [settingsLoad_eq, if_pos hhead]

/-- **A failed load is harmless, unless its checksum is wrong.** The block is
copied over `g_settings` before its checksum is looked at: a load that fails
leaves `g_settings` alone exactly when the head byte is wrong already, or the
block is what `g_settings` holds. The load after it fails in any case. -/
theorem load_failsHarmlessly_iff (g : SettingsData) (ee : Eeprom) :
    FailsHarmlessly g ee ↔
      ee nvSetHeadByte ≠ nvSettingsHeadByteValue ∨ ee nvSetCrcByte = checksum (paramsBlock ee) ∨
        paramsBlock ee = g.toBytes := by
  have hload := settingsLoad_eq g ee
  by_cases hhead : ee nvSetHeadByte = nvSettingsHeadByteValue
  · rw [if_neg (not_not.mpr hhead)] at hload
    by_cases hsum : ee nvSetCrcByte = checksum (paramsBlock ee)
    · rw [if_neg (not_not.mpr hsum)] at hload
      refine ⟨fun _ => Or.inr (Or.inl hsum), fun _ g' ee' h => ?_⟩
      rw [hload] at h
      cases h
    · rw [if_pos hsum] at hload
      constructor
      · intro h
        have hg := (h _ _ hload).1
        right
        right
        rw [← hg, SettingsData.toBytes_ofBytes (length_paramsBlock ee)]
      · rintro (h | h | h) g' ee' hfail
        · exact absurd hhead h
        · exact absurd h hsum
        · rw [hload, h, SettingsData.ofBytes_toBytes] at hfail
          cases hfail
          exact ⟨rfl, load_headless (settingsClear_head ee) _⟩
  · refine ⟨fun _ => Or.inl hhead, fun _ g' ee' h => ?_⟩
    rw [load_headless hhead g] at h
    cases h
    exact ⟨rfl, load_headless hhead g⟩

/-- The default settings as they are saved, with the run mode gone bad. -/
def wornEeprom : Eeprom := fun p =>
  if p = nvSetHeadByte then nvSettingsHeadByteValue
  else if p = nvSettings then 3
  else (gSettings.toBytes ++ [checksum gSettings.toBytes]).getD (p - nvSettings) 0xFF

/-- The load at boot fails, and leaves the bad run mode in force. -/
theorem worn_settings_loaded :
    (settingsLoad gSettings wornEeprom).map (fun r => (r.1, r.2.1.runMode)) = some (false, 3) ∧
      gSettings.runMode = 1 ∧ ¬ FailsHarmlessly gSettings wornEeprom := by
  have hload : settingsLoad gSettings wornEeprom =
      some (false, .ofBytes (paramsBlock wornEeprom), settingsClear wornEeprom) := by
    rw [settingsLoad_eq, if_neg (by decide), if_pos (by decide)]
  refine ⟨by decide, rfl, fun h => ?_⟩
  have hmode := congrArg SettingsData.runMode (h _ _ hload).1
  exact absurd hmode (by decide)

end TinyAprs
