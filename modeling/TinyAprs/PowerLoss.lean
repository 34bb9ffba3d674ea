/-
# Power loss while the settings are saved

`settings_save` writes the parameters, then the head byte, then the checksum,
each byte on its own, and nothing marks the old record as invalid meanwhile.
The EEPROM driver may write the bytes of a block in any order, and leaves out
those that do not change, which makes no difference to what is stored. If
power is lost in between, the next `settings_load` finds a mixture. A console
command that saves changes one byte of the parameters (`AT+MODE`) or two
(`AT+SYMBOL`, `AT+BEACON`), and for so few the sum does what it is for
(`Torn.torn_sum`): a mixture is loaded only if it is the old or the new record
as a whole (`power_loss_safe`).
-/
import Mathlib.Data.UInt
import Mathlib.Tactic.IntervalCases
import TinyAprs.Lib.Torn
import TinyAprs.Main

namespace TinyAprs

/-! ### The byte writes -/

def SettingsData.byte (g : SettingsData) (i : ℕ) : UInt8 := g.toBytes.getD i 0

/-- The byte writes of `settings_save`, the block's in the given order. -/
def saveWrites (order : List ℕ) (g : SettingsData) : Option (List (ℕ × UInt8)) := do
  let sum ← calcCrc g.toBytes
  some (Torn.cellWrites nvSettings g.byte order ++
    [(nvSetHeadByte, nvSettingsHeadByteValue), (nvSetCrcByte, sum)])

/-- What `cmd_switch_mode` calls `settings_save` with, if it does. -/
def switchSaves (b : Board) (value : List UInt8) (len : ℕ) : Option SettingsData :=
  if len > 0 ∧ ¬ (atoi value = promote b.currentMode.val ∧ atoi value = promote b.tnc.settings.runMode) then
    match modeCase (atoi value) with
    | some m => if m.val ≠ b.tnc.settings.runMode then some (b.tnc.settings.setRunMode m.val) else none
    | none => none
  else none

/-- What `settings_save` is called with by the console commands that save, if
it is. -/
def savedBy (b : Board) (value : List UInt8) : Command → Option SettingsData
  | .symbol =>
    if valueLen value ≥ 2 then some (b.tnc.settings.setSymbol (value.getD 0 0) (value.getD 1 0)) else none
  | .beacon =>
    if valueLen value > 0 then some (b.tnc.settings.setInterval ((atoi value).toUInt16 &&& 0xffff)) else none
  | .mode => switchSaves b value (valueLen value)
  | _ => none

/-- The byte writes of a command. -/
def commandWrites (order : List ℕ) (b : Board) (value : List UInt8) (c : Command) :
    Option (List (ℕ × UInt8)) :=
  match savedBy b value c with
  | some g => saveWrites order g
  | none => some []

variable {order : List ℕ} (horder : order.Perm (List.range sizeofSettingsData))

include horder

theorem order_lt {i : ℕ} : i ∈ order ↔ i < sizeofSettingsData := by
  rw [horder.mem_iff, List.mem_range]

omit horder in
theorem saveWrites_eq (order : List ℕ) (g : SettingsData) : saveWrites order g =
    some (Torn.cellWrites nvSettings g.byte order ++
      [(nvSetHeadByte, nvSettingsHeadByteValue), (nvSetCrcByte, checksum g.toBytes)]) := by
  rw [saveWrites, calcCrc_params]
  rfl

theorem apply_block (g : SettingsData) (ee : Eeprom) :
    Torn.apply ee (Torn.cellWrites nvSettings g.byte order) = eepromUpdateBlock ee g.toBytes nvSettings := by
  funext p
  by_cases hp : p < nvSettings ∨ nvSettings + sizeofSettingsData ≤ p
  · rw [Torn.apply_cells_outside ee g.byte (fun i hi => (order_lt horder).mp hi) hp]
    exact (Cells.write_of_outside g.toBytes ee hp).symm
  · obtain ⟨i, rfl⟩ : ∃ i, p = nvSettings + i := ⟨p - nvSettings, by omega⟩
    have hi : i < sizeofSettingsData := by omega
    rw [Torn.apply_cells, if_pos ((order_lt horder).mpr hi), eepromUpdateBlock,
      (Cells.at_write g.toBytes ee nvSettings).get hi]
    exact List.getD_eq_getElem _ _ hi

/-- All the writes are `settings_save`. -/
theorem settingsSave_writes (g : SettingsData) (ee : Eeprom) :
    settingsSave g ee = (saveWrites order g).map (Torn.apply ee) := by
  rw [saveWrites_eq, Option.map_some, Torn.apply_append, apply_block horder, settingsSave,
    calcCrc_params]
  rfl

/-! ### What is loaded -/

omit horder

theorem toBytes_eq_slice (g : SettingsData) : g.toBytes = Cells.slice g.byte 0 sizeofSettingsData := rfl

theorem sum_slice (m : ℕ → UInt8) (off n : ℕ) :
    (Cells.slice m off n).foldl (· + ·) 0 = ∑ i ∈ Finset.range n, m (off + i) := by
  induction n with
  | zero => rfl
  | succ n ih =>
    rw [Cells.slice_succ, List.foldl_append, ih, Finset.sum_range_succ]
    rfl

theorem checksum_inj {l l' : List UInt8} (h : checksum l = checksum l') :
    l.foldl (· + ·) 0 = l'.foldl (· + ·) 0 := by
  have := congrArg (fun x => ~~~ x) h
  simpa [checksum] using this

/-- The records differ in two bytes at most. -/
def DifferInTwo (g g' : SettingsData) : Prop :=
  ∃ a b, ∀ i < sizeofSettingsData, i ≠ a → i ≠ b → g'.byte i = g.byte i

theorem block_eq {m : Eeprom} {g : SettingsData} (h : ∀ i < sizeofSettingsData, m (nvSettings + i) = g.byte i) :
    paramsBlock m = g.toBytes := by
  rw [toBytes_eq_slice]
  refine List.map_congr_left fun i hi => ?_
  rw [h i (List.mem_range.mp hi), Nat.zero_add]

/-- A block that is a record as a whole is loaded as that, or not at all. -/
theorem load_block {m : Eeprom} {g : SettingsData} (hblock : paramsBlock m = g.toBytes) (g₀ : SettingsData) :
    ∃ r, settingsLoad g₀ m = some r ∧ (r.1 = true → r.2.1 = g) := by
  refine ⟨_, settingsLoad_eq g₀ m, ?_⟩
  split_ifs
  · exact fun h => (nomatch h)
  · exact fun h => (nomatch h)
  · intro _
    show SettingsData.ofBytes (paramsBlock m) = g
    rw [hblock, SettingsData.ofBytes_toBytes]

/-- A block that is a mixture, with the checksum of the old record. -/
theorem load_mixture {g g' : SettingsData} (hdiff : DifferInTwo g g') {m : Eeprom}
    (hmix : ∀ i < sizeofSettingsData, m (nvSettings + i) = g.byte i ∨ m (nvSettings + i) = g'.byte i)
    (hcrc : m nvSetCrcByte = checksum g.toBytes) (g₀ : SettingsData) :
    ∃ r, settingsLoad g₀ m = some r ∧ (r.1 = true → r.2.1 = g ∨ r.2.1 = g') := by
  by_cases hsum : m nvSetCrcByte = checksum (paramsBlock m)
  · -- the checksum is right: the mixture has the sum of the old record
    have hsums : ∑ i ∈ Finset.range sizeofSettingsData, m (nvSettings + i) =
        ∑ i ∈ Finset.range sizeofSettingsData, g.byte i := by
      have h := checksum_inj (hsum.symm.trans hcrc)
      rw [toBytes_eq_slice, sum_slice] at h
      rw [← sum_slice]
      refine h.trans (Finset.sum_congr rfl fun i _ => ?_)
      rw [Nat.zero_add]
    obtain ⟨a, b, hsame⟩ := hdiff
    have htorn := Torn.torn_sum (s := Finset.range sizeofSettingsData)
      (fun i hi => hsame i (Finset.mem_range.mp hi)) (fun i hi => hmix i (Finset.mem_range.mp hi)) hsums
    rcases htorn with h | h
    · obtain ⟨r, hr, hload⟩ := load_block (block_eq fun i hi => h i (Finset.mem_range.mpr hi)) g₀
      exact ⟨r, hr, fun htrue => Or.inl (hload htrue)⟩
    · obtain ⟨r, hr, hload⟩ := load_block (block_eq fun i hi => h i (Finset.mem_range.mpr hi)) g₀
      exact ⟨r, hr, fun htrue => Or.inr (hload htrue)⟩
  · refine ⟨_, settingsLoad_eq g₀ m, ?_⟩
    rw [if_pos hsum]
    split_ifs
    · exact fun h => (nomatch h)
    · exact fun h => (nomatch h)

include horder

/-- The cut falls into the block: the head byte and the checksum are the old
ones. -/
theorem load_cutBlock {g g' : SettingsData} (hdiff : DifferInTwo g g') {ee : Eeprom}
    (hstart : Saved g ee ∨ ee nvSetHeadByte ≠ nvSettingsHeadByteValue) (k : ℕ) (g₀ : SettingsData) :
    ∃ r, settingsLoad g₀ (Torn.apply ee (Torn.cellWrites nvSettings g'.byte (order.take k))) = some r ∧
      (r.1 = true → r.2.1 = g ∨ r.2.1 = g') := by
  have hlt : ∀ i ∈ order.take k, i < sizeofSettingsData := fun i hi =>
    (order_lt horder).mp (List.mem_of_mem_take hi)
  have hhead : Torn.apply ee (Torn.cellWrites nvSettings g'.byte (order.take k)) nvSetHeadByte =
      ee nvSetHeadByte := Torn.apply_cells_outside ee g'.byte hlt (by decide)
  have hcrc : Torn.apply ee (Torn.cellWrites nvSettings g'.byte (order.take k)) nvSetCrcByte =
      ee nvSetCrcByte := Torn.apply_cells_outside ee g'.byte hlt (by decide)
  rcases hstart with hsaved | hno
  · refine load_mixture hdiff (fun i hi => ?_) (hcrc.trans hsaved.crc) g₀
    rw [Torn.apply_cells]
    split_ifs
    · exact Or.inr rfl
    · have hat : Cells.At ee nvSettings g.toBytes := hsaved.params
      exact Or.inl ((hat.get hi).trans (List.getD_eq_getElem _ _ hi).symm)
  · exact ⟨_, load_headless (by rw [hhead]; exact hno) g₀, fun h => (nomatch h)⟩

/-- The cut falls behind the block: it is the new one as a whole. -/
theorem load_cutTail {g' : SettingsData} (ee : Eeprom) {tail : List (ℕ × UInt8)}
    (htail : ∀ w ∈ tail, w.1 = nvSetHeadByte ∨ w.1 = nvSetCrcByte) (g₀ : SettingsData) :
    ∃ r, settingsLoad g₀ (Torn.apply ee (Torn.cellWrites nvSettings g'.byte order ++ tail)) = some r ∧
      (r.1 = true → r.2.1 = g') := by
  refine load_block (block_eq fun i hi => ?_) g₀
  rw [Torn.apply_append, Torn.apply_of_notMem tail, Torn.apply_cells, if_pos ((order_lt horder).mpr hi)]
  intro w hw
  have hi' : i < 11 := hi
  rcases htail w hw with h | h
  · rw [h]
    show 0 ≠ 1 + i
    omega
  · rw [h]
    show 12 ≠ 1 + i
    omega

/-- However many of the writes of `settings_save` are done. -/
theorem load_cut {g g' : SettingsData} (hdiff : DifferInTwo g g') {ee : Eeprom}
    (hstart : Saved g ee ∨ ee nvSetHeadByte ≠ nvSettingsHeadByteValue) {ws : List (ℕ × UInt8)}
    (hws : saveWrites order g' = some ws) (k : ℕ) (g₀ : SettingsData) :
    ∃ r, settingsLoad g₀ (Torn.apply ee (ws.take k)) = some r ∧
      (r.1 = true → r.2.1 = g ∨ r.2.1 = g') := by
  obtain rfl := Option.some.inj ((saveWrites_eq order g').symm.trans hws)
  by_cases hk : k ≤ (Torn.cellWrites nvSettings g'.byte order).length
  · rw [List.take_append_of_le_length hk, Torn.cellWrites, ← List.map_take]
    exact load_cutBlock horder hdiff hstart k g₀
  · rw [List.take_append, List.take_of_length_le (by omega)]
    have htail : ∀ j, ∀ w ∈ [(nvSetHeadByte, nvSettingsHeadByteValue), (nvSetCrcByte, checksum g'.toBytes)].take j,
        w.1 = nvSetHeadByte ∨ w.1 = nvSetCrcByte := by
      intro j w hw
      have hmem := List.mem_of_mem_take hw
      simp only [List.mem_cons, List.not_mem_nil, or_false] at hmem
      rcases hmem with rfl | rfl
      · exact Or.inl rfl
      · exact Or.inr rfl
    obtain ⟨r, hr, hload⟩ := load_cutTail horder ee (htail _) g₀
    exact ⟨r, hr, fun htrue => Or.inr (hload htrue)⟩

/-! ### The commands -/

omit horder

theorem differ_symbol (g : SettingsData) (c₀ c₁ : UInt8) : DifferInTwo g (g.setSymbol c₀ c₁) := by
  refine ⟨1, 2, fun i hi h1 h2 => ?_⟩
  change i < 11 at hi
  interval_cases i <;> first | rfl | contradiction

theorem differ_interval (g : SettingsData) (n : UInt16) : DifferInTwo g (g.setInterval n) := by
  refine ⟨3, 4, fun i hi h1 h2 => ?_⟩
  change i < 11 at hi
  interval_cases i <;> first | rfl | contradiction

theorem differ_runMode (g : SettingsData) (m : UInt8) : DifferInTwo g (g.setRunMode m) := by
  refine ⟨0, 0, fun i hi h1 h2 => ?_⟩
  change i < 11 at hi
  interval_cases i <;> first | rfl | contradiction

/-- What the command leaves: the record that `settings_save` was called with,
saved, which differs in two bytes at most; or everything as it was. -/
def SavesTwo (b b' : Board) : Option SettingsData → Prop
  | some g => b'.tnc.settings = g ∧ settingsSave g b.tnc.eeprom = some b'.tnc.eeprom ∧
      DifferInTwo b.tnc.settings g
  | none => b'.tnc.settings = b.tnc.settings ∧ b'.tnc.eeprom = b.tnc.eeprom

theorem save_saves (b b₁ : Board) (hee : b₁.tnc.eeprom = b.tnc.eeprom) {g : SettingsData}
    (hdiff : DifferInTwo b.tnc.settings g) :
    ∃ s, Store.save { b₁.tnc.store with settings := g } = some s ∧ SavesTwo b (b₁.withStore s) (some g) := by
  obtain ⟨ee, hsave, -⟩ := settingsSave_spec g b.tnc.eeprom
  refine ⟨⟨g, ee⟩, ?_, rfl, hsave, hdiff⟩
  rw [← hee] at hsave
  rw [Store.save]
  dsimp only [Tnc.store]
  rw [hsave]
  rfl

/-- A command that changes the settings and saves them, if its value is long
enough. -/
theorem command_saving (b : Board) {p : Prop} [Decidable p] {g : SettingsData}
    (hdiff : DifferInTwo b.tnc.settings g) : ∃ b',
      (if p then Store.save { b.tnc.store with settings := g } else some b.tnc.store).map (b.withStore ·, false) =
        some (b', false) ∧
      SavesTwo b b' (if p then some g else none) := by
  obtain ⟨s, hs, hsaves⟩ := save_saves b b rfl hdiff
  split_ifs with hp
  · exact ⟨b.withStore s, congrArg (Option.map _) hs, hsaves⟩
  · exact ⟨b, rfl, rfl, rfl⟩

theorem symbol_saves (b : Board) (value : List UInt8) : ∃ b',
    b.command (.run .symbol value) = some (b', false) ∧ SavesTwo b b' (savedBy b value .symbol) :=
  command_saving b (differ_symbol b.tnc.settings (value.getD 0 0) (value.getD 1 0))

theorem beacon_saves (b : Board) (value : List UInt8) : ∃ b',
    b.command (.run .beacon value) = some (b', false) ∧ SavesTwo b b' (savedBy b value .beacon) :=
  command_saving b (differ_interval b.tnc.settings ((atoi value).toUInt16 &&& 0xffff))

/-- `cmd_switch_mode` returns, and saves what it is said to. -/
theorem switch_saves (b : Board) (value : List UInt8) (len : ℕ) :
    ∃ b', cmdSwitchMode b value len = some b' ∧ SavesTwo b b' (switchSaves b value len) := by
  unfold cmdSwitchMode switchSaves
  dsimp only
  by_cases hlen : len > 0
  · by_cases hsame : atoi value = promote b.currentMode.val ∧ atoi value = promote b.tnc.settings.runMode
    · rw [if_pos hlen, if_pos hsame, if_neg fun h => h.2 hsame]
      exact ⟨b, rfl, rfl, rfl⟩
    · rw [if_pos hlen, if_neg hsame, if_pos ⟨hlen, hsame⟩]
      cases hm : modeCase (atoi value) with
      | none => exact ⟨b, rfl, rfl, rfl⟩
      | some m =>
        obtain ⟨hmode, hset, hee⟩ := b.enter_spec (ne_testBeacon_of_modeCase hm)
        dsimp only
        rw [hmode, hset]
        split_ifs with hrun
        · obtain ⟨s, hs, hsaves⟩ := save_saves b (b.enter m) hee (differ_runMode b.tnc.settings m.val)
          refine ⟨(b.enter m).withStore s, ?_, hsaves⟩
          rw [Board.saveRunMode, hmode, hset, hs]
          rfl
        · exact ⟨b.enter m, rfl, hset, hee⟩
  · rw [if_neg hlen, if_neg fun h => hlen h.1]
    exact ⟨b, rfl, rfl, rfl⟩

theorem mode_saves (b : Board) (value : List UInt8) : ∃ b',
    b.command (.run .mode value) = some (b', false) ∧ SavesTwo b b' (savedBy b value .mode) := by
  obtain ⟨b', hb', hsaves⟩ := switch_saves b value (valueLen value)
  exact ⟨b', congrArg (Option.map _) hb', hsaves⟩

theorem command_saves (b : Board) {c : Command} (hc : c ∈ [Command.mode, .symbol, .beacon]) (value : List UInt8) :
    ∃ b', b.command (.run c value) = some (b', false) ∧ SavesTwo b b' (savedBy b value c) := by
  simp only [List.mem_cons, List.not_mem_nil, or_false] at hc
  rcases hc with rfl | rfl | rfl
  · exact mode_saves b value
  · exact symbol_saves b value
  · exact beacon_saves b value

/-- **Power loss while a console command saves the settings.** On a board
whose settings are saved in the EEPROM, or whose EEPROM has no head byte yet,
let `AT+MODE`, `AT+SYMBOL` or `AT+BEACON` be cut off after any number of its
byte writes, with the bytes of the block written in any order. Then
`settings_load` at the next start fails, or restores exactly the settings
before the command or exactly those after it. -/
theorem power_loss_safe (b : Board)
    (hstart : Saved b.tnc.settings b.tnc.eeprom ∨ b.tnc.eeprom nvSetHeadByte ≠ nvSettingsHeadByteValue)
    {c : Command} (hc : c ∈ [Command.mode, .symbol, .beacon]) (value : List UInt8) {order : List ℕ}
    (horder : order.Perm (List.range sizeofSettingsData)) :
    ∃ b' ws, b.command (.run c value) = some (b', false) ∧ commandWrites order b value c = some ws ∧
      b'.tnc.eeprom = Torn.apply b.tnc.eeprom ws ∧
      ∀ (k : ℕ) (g₀ : SettingsData), ∃ r, settingsLoad g₀ (Torn.apply b.tnc.eeprom (ws.take k)) = some r ∧
        (r.1 = false ∨ r.2.1 = b.tnc.settings ∨ r.2.1 = b'.tnc.settings) := by
  obtain ⟨b', hcmd, hsaves⟩ := command_saves b hc value
  unfold commandWrites
  cases hg : savedBy b value c with
  | none =>
    -- nothing is written: the EEPROM is the one before the command
    rw [hg] at hsaves
    refine ⟨b', [], hcmd, rfl, hsaves.2, fun k g₀ => ?_⟩
    rw [List.take_nil, Torn.apply_nil]
    rcases hstart with hsaved | hno
    · exact ⟨_, hsaved.load g₀, Or.inr (Or.inl rfl)⟩
    · exact ⟨_, load_headless hno g₀, Or.inl rfl⟩
  | some g =>
    rw [hg] at hsaves
    obtain ⟨hset, hsave, hdiff⟩ := hsaves
    obtain ⟨ws, hws⟩ : ∃ ws, saveWrites order g = some ws := ⟨_, saveWrites_eq order g⟩
    rw [settingsSave_writes horder, hws] at hsave
    refine ⟨b', ws, hcmd, hws, (Option.some.inj hsave).symm, fun k g₀ => ?_⟩
    obtain ⟨r, hr, hload⟩ := load_cut horder hdiff hstart hws k g₀
    refine ⟨r, hr, ?_⟩
    rw [hset]
    cases hok : r.1 with
    | true => exact Or.inr (hload hok)
    | false => exact Or.inl rfl

def newBoard : Board where
  currentMode := .cfg
  start := 0
  tnc := ⟨gSettings, blankEeprom, ax25Init true⟩
  side := serialBoot
  digi := digiInit
  beacon := beaconInit
  tracker := trackerInit

theorem power_loss_safe_first : newBoard.tnc.eeprom nvSetHeadByte ≠ nvSettingsHeadByteValue ∧
    ∃ b' ws, newBoard.command (.run .mode [0x33]) = some (b', false) ∧
      commandWrites (List.range sizeofSettingsData) newBoard [0x33] .mode = some ws ∧
      b'.tnc.eeprom = Torn.apply newBoard.tnc.eeprom ws ∧
      ∀ (k : ℕ) (g₀ : SettingsData), ∃ r,
        settingsLoad g₀ (Torn.apply newBoard.tnc.eeprom (ws.take k)) = some r ∧
        (r.1 = false ∨ r.2.1 = newBoard.tnc.settings ∨ r.2.1 = b'.tnc.settings) :=
  ⟨by decide, power_loss_safe newBoard (Or.inr (by decide)) (by decide) [0x33] (List.Perm.refl _)⟩

end TinyAprs
