/-
# The loops with an 8-bit index

`calc_crc` and the search for the `=` in `console_parse_command` count with a
`uint8_t` up to a bound of 16 bits: for more than 255 bytes they never end
(`calcCrc_eq_none_iff`). What keeps the bound is elsewhere: `readLen` has 8
bits too, although the buffer has 330 bytes, and every length that is passed
on comes from it or is a constant. Here are the calls of the two loops that an
event makes (`Board.crcCalls`, `Board.parseCalls`), and that in every run they
all end (`loops_end`): an event does not come back only while a data frame
waits for the channel.
-/
import TinyAprs.PowerLoss

namespace TinyAprs

/-! ### The calls of `calc_crc` -/

/-- By `settings_load`. -/
def loadCrcs (ee : Eeprom) : List (List UInt8) :=
  if ee nvSetHeadByte = nvSettingsHeadByteValue then [(SettingsData.ofBytes (paramsBlock ee)).toBytes] else []

/-- By `settings_save`, if it is called. -/
def saveCrcs (g : Option SettingsData) : List (List UInt8) := g.toList.map SettingsData.toBytes

/-- By `verify_config_data`. -/
def verifyCrcs (frame : List UInt8) : List (List UInt8) :=
  if frame.length = 0 then [] else [frame.take (frame.length - 1)]

/-- By `KISS_SERIAL_RESPOND_OK`. -/
def okCrcs : List (List UInt8) := [[]]

/-- By `kiss_handle_config_params_cmd`. -/
def paramsCrcs (t : Tnc) (data : List UInt8) : List (List UInt8) :=
  if data.length = 0 then [t.settings.toBytes]
  else if data.length = sizeofSettingsData then saveCrcs (some (.ofBytes data)) ++ okCrcs
  else []

/-- By `kiss_handle_config_text_cmd`. -/
def textCrcs (t : Tnc) (buf : ℕ → UInt8) (data : List UInt8) : List (List UInt8) :=
  if data.length = 0 then
    let r := settingsGetBeaconText t.eeprom buf readerBufLen.toUInt8
    if r.1 > 0 then [Cells.slice r.2 0 r.1.toNat] else []
  else okCrcs

/-- By `kiss_handle_config_call_cmd`. -/
def callCrcs (t : Tnc) (data : List UInt8) : List (List UInt8) :=
  if data.length = 0 then [(settingsGetCallData t.eeprom).toBytes]
  else if data.length = sizeofCallData then okCrcs
  else []

/-- By `kiss_handle_config_magic_cmd`, and by `settings_load` after the reset
that one of the commands is. -/
def magicCrcs (t : Tnc) (data : List UInt8) : List (List UInt8) :=
  if data = [0x0B, 0x00, 0x00, 0x07] then okCrcs ++ loadCrcs t.eeprom
  else if data = [0x0B, 0x0A, 0x0B, 0x0E] then
    [[0x01, 0x00, (versBuild >>> 8 &&& 0xff).toUInt8, (versBuild &&& 0xff).toUInt8]]
  else []

/-- By a config command: the check, and the command's own if it passes. -/
def verifiedCrcs (payload : List UInt8) (cmd : List UInt8 → List (List UInt8)) : List (List UInt8) :=
  verifyCrcs payload ++
    if verifyConfigData payload = some true then cmd (payload.take (payload.length - 1)) else []

/-- By `kiss_handle_frame`. -/
def frameCrcs (t : Tnc) (h : Handed) : List (List UInt8) :=
  let c := h.bytes.getD 0 0
  let payload := h.bytes.drop 1
  if h.size < 2 then []
  else if c >>> 4 &&& 0x0f > 0 then []
  else if c &&& 0x0f = kissCmdData then []
  else if c &&& 0x0f = kissCmdConfigParams then verifiedCrcs payload (paramsCrcs t)
  else if c &&& 0x0f = kissCmdConfigText then verifiedCrcs payload (textCrcs t h.frame)
  else if c &&& 0x0f = kissCmdConfigCall then verifiedCrcs payload (callCrcs t)
  else if c &&& 0x0f = kissCmdConfigMagic then verifiedCrcs payload (magicCrcs t)
  else []

/-- By the command of a line. -/
def Board.commandCrcs (b : Board) : Line → List (List UInt8)
  | .run .reset value =>
    let r := cmdSettingsReset b.tnc.store value
    if r.2 then loadCrcs r.1.eeprom else []
  | .run .kiss _ => saveCrcs (switchSaves b [0x31] 1)
  | .run c value => saveCrcs (savedBy b value c)
  | _ => []

/-- The line that `console_poll` reads, if one is complete. -/
def Board.lineRead (b : Board) : List (List UInt8) :=
  let r := serialreaderReadline b.side
  if r.2 > 0 then [r.1.line r.2] else []

/-- By `console_poll`. -/
def Board.consoleCrcs (b : Board) : List (List UInt8) :=
  b.lineRead.flatMap fun line =>
    match consoleParseCommand line with
    | some l => { b with side := (serialreaderReadline b.side).1 }.commandCrcs l
    | none => []

/-- The data that an event calls `calc_crc` with. -/
def Board.crcCalls (b : Board) : BoardEvent → List (List UInt8)
  | .rx _ _ => []
  | .poll _ _ => []
  | .check now =>
    if b.currentMode.val ≠ b.tnc.settings.runMode ∧ b.start ≠ 0 ∧ now - b.start > msToTicks 10000 then
      saveCrcs (switchSaves b (cString [b.tnc.settings.runMode + 48]) 1)
    else []
  | .turn x =>
    match b.currentMode with
    | .cfg => b.consoleCrcs
    | .digi => b.consoleCrcs
    | .kiss => (kissPoll (b.handle x.turns) b.side x.now).2.flatMap (frameCrcs b.tnc)
    | .tracker => []
    | .testBeacon => []

/-- The lines that an event calls `console_parse_command` with. -/
def Board.parseCalls (b : Board) : BoardEvent → List (List UInt8)
  | .turn _ => if b.currentMode = .cfg ∨ b.currentMode = .digi then b.lineRead else []
  | _ => []

/-! ### The loop of `calc_crc` -/

theorem calcCrcLoop_none {data : List UInt8} (hlen : 255 < data.length) (n : ℕ) (i sum : UInt8) :
    calcCrcLoop data n i sum = none := by
  induction n generalizing i sum with
  | zero => rfl
  | succ n ih =>
    have hi : i.toNat < data.length := Nat.lt_of_le_of_lt (Nat.le_of_lt_succ i.toNat_lt) hlen
    unfold calcCrcLoop
    rw [if_pos hi]
    exact ih (i + 1) _

/-- The index passes every bound of 8 bits, and none above. -/
theorem calcCrc_eq_none_iff (data : List UInt8) : calcCrc data = none ↔ 255 < data.length := by
  refine ⟨fun h => ?_, fun h => calcCrcLoop_none h 256 0 0⟩
  by_contra hlen
  rw [calcCrc_eq (Nat.le_of_not_lt hlen)] at h
  cases h

/-- All of the data is short enough for `calc_crc`. -/
def Short (calls : List (List UInt8)) : Prop := ∀ d ∈ calls, d.length ≤ 255

theorem short_nil : Short [] := fun _ h => absurd h List.not_mem_nil

theorem short_one {d : List UInt8} (h : d.length ≤ 255) : Short [d] := by
  intro x hx
  obtain rfl := List.mem_singleton.mp hx
  exact h

theorem Short.append {xs ys : List (List UInt8)} (hx : Short xs) (hy : Short ys) : Short (xs ++ ys) := by
  intro d hd
  rcases List.mem_append.mp hd with h | h
  · exact hx d h
  · exact hy d h

theorem short_flatMap {α : Type*} {l : List α} {f : α → List (List UInt8)} (h : ∀ a ∈ l, Short (f a)) :
    Short (l.flatMap f) := by
  intro d hd
  obtain ⟨a, ha, hd⟩ := List.mem_flatMap.mp hd
  exact h a ha d hd

theorem short_settings (g : SettingsData) : Short [g.toBytes] :=
  short_one g.length_le

theorem short_load (ee : Eeprom) : Short (loadCrcs ee) := by
  unfold loadCrcs
  split_ifs
  · exact short_settings _
  · exact short_nil

theorem short_save (g : Option SettingsData) : Short (saveCrcs g) := by
  cases g with
  | none => exact short_nil
  | some g => exact short_settings g

theorem short_ok : Short okCrcs := short_one (Nat.zero_le _)

theorem short_params (t : Tnc) (data : List UInt8) : Short (paramsCrcs t data) := by
  unfold paramsCrcs
  split_ifs
  · exact short_settings _
  · exact (short_save _).append short_ok
  · exact short_nil

theorem short_text (t : Tnc) (buf : ℕ → UInt8) (data : List UInt8) : Short (textCrcs t buf data) := by
  have hlt := (settingsGetBeaconText t.eeprom buf readerBufLen.toUInt8).1.toNat_lt
  unfold textCrcs
  dsimp only
  split_ifs
  · -- the length of the text is a `uint8_t`
    exact short_one (by rw [Cells.length_slice]; omega)
  · exact short_nil
  · exact short_ok

theorem short_call (t : Tnc) (data : List UInt8) : Short (callCrcs t data) := by
  unfold callCrcs
  split_ifs
  · exact short_one (CallData.length_le _)
  · exact short_ok
  · exact short_nil

theorem short_magic (t : Tnc) (data : List UInt8) : Short (magicCrcs t data) := by
  unfold magicCrcs
  split_ifs
  · exact short_ok.append (short_load _)
  · exact short_one (by decide)
  · exact short_nil

theorem short_verified {payload : List UInt8} (hlen : payload.length ≤ 256)
    {cmd : List UInt8 → List (List UInt8)} (hcmd : ∀ d, Short (cmd d)) : Short (verifiedCrcs payload cmd) := by
  unfold verifiedCrcs verifyCrcs
  refine Short.append ?_ ?_
  · split_ifs
    · exact short_nil
    · exact short_one (by rw [List.length_take]; omega)
  · split_ifs
    · exact hcmd _
    · exact short_nil

/-- A frame that `readLen` could count. -/
theorem short_frame (t : Tnc) {h : Handed} (hsize : h.size ≤ 255) : Short (frameCrcs t h) := by
  have hlen : (h.bytes.drop 1).length ≤ 256 := by
    rw [List.length_drop, Handed.bytes, Cells.length_slice]
    omega
  unfold frameCrcs
  dsimp only
  split_ifs
  · exact short_nil
  · exact short_nil
  · exact short_nil
  · exact short_verified hlen (short_params t)
  · exact short_verified hlen (short_text t h.frame)
  · exact short_verified hlen (short_call t)
  · exact short_verified hlen (short_magic t)
  · exact short_nil

/-! ### A frame -/

/-- A frame does not come back because one of the loops does not. -/
def Hangs (calls : List (List UInt8)) : Prop := ∃ d ∈ calls, calcCrc d = none

theorem Short.not_hangs {calls : List (List UInt8)} (h : Short calls) : ¬ Hangs calls := by
  rintro ⟨d, hd, hnone⟩
  have hlen := h d hd
  rw [calcCrc_eq_none_iff] at hnone
  omega

theorem hangs_append {xs ys : List (List UInt8)} : Hangs (xs ++ ys) ↔ Hangs xs ∨ Hangs ys := by
  unfold Hangs
  simp only [List.mem_append, or_and_right, exists_or]

theorem verify_hangs_iff (frame : List UInt8) : verifyConfigData frame = none ↔ Hangs (verifyCrcs frame) := by
  unfold verifyConfigData verifyCrcs
  split_ifs with h0
  · exact ⟨fun h => (nomatch h), fun h => absurd h short_nil.not_hangs⟩
  · dsimp only
    cases hcrc : calcCrc (frame.take (frame.length - 1)) with
    | none => exact ⟨fun _ => ⟨_, List.mem_singleton_self _, hcrc⟩, fun _ => rfl⟩
    | some sum =>
      refine ⟨fun h => (nomatch h), ?_⟩
      rintro ⟨d, hd, hnone⟩
      obtain rfl := List.mem_singleton.mp hd
      rw [hcrc] at hnone
      cases hnone

/-- The commands themselves return: it is the check that may not. -/
theorem verified_hangs_iff (t : Tnc) (buf : ℕ → UInt8) (payload : List UInt8)
    {cmd : Tnc → (ℕ → UInt8) → List UInt8 → Option Effect} {calls : List UInt8 → List (List UInt8)}
    (hcmd : ∀ d, ∃ e, cmd t buf d = some e) (hcalls : ∀ d, Short (calls d)) :
    kissVerified t buf payload cmd = none ↔ Hangs (verifiedCrcs payload calls) := by
  have hrest : Short (if verifyConfigData payload = some true then calls (payload.take (payload.length - 1))
      else []) := by
    split_ifs
    · exact hcalls _
    · exact short_nil
  have hcut : Hangs (verifiedCrcs payload calls) ↔ Hangs (verifyCrcs payload) := by
    unfold verifiedCrcs
    rw [hangs_append]
    exact or_iff_left hrest.not_hangs
  rw [hcut, ← verify_hangs_iff]
  unfold kissVerified
  cases hv : verifyConfigData payload with
  | none => exact ⟨fun _ => rfl, fun _ => rfl⟩
  | some ok =>
    refine ⟨fun h => ?_, fun h => (nomatch h)⟩
    cases ok with
    | true =>
      obtain ⟨e, he⟩ := hcmd (payload.take (payload.length - 1))
      exact absurd (he.symm.trans h) (by simp)
    | false => cases h

theorem magicCmd_returns (t : Tnc) (buf : ℕ → UInt8) (d : List UInt8) :
    ∃ e, kissHandleConfigMagicCmd t buf d = some e := by
  rw [kissHandleConfigMagicCmd, kissSerialRespondOk_eq, kissRespond_eq _ (by decide)]
  split_ifs
  · exact ⟨_, rfl⟩
  · exact ⟨_, rfl⟩
  · exact ⟨_, rfl⟩

theorem sendToModem_none_iff (t : Tnc) (turns : List Turn) (rbuf : ℕ → UInt8) (buf : List UInt8) :
    kissSendToModem t turns rbuf buf = none ↔ kissChannel t turns = none := by
  unfold kissSendToModem
  cases kissChannel t turns with
  | none => exact ⟨fun _ => rfl, fun _ => rfl⟩
  | some r =>
    refine ⟨fun h => ?_, fun h => (nomatch h)⟩
    rcases r with ⟨modem, serial, send⟩
    cases send <;> cases h

/-- A frame of any size comes back, unless a checksum loop does not end or the
frame waits for the channel. -/
theorem frame_hangs_iff (t : Tnc) (turns : List Turn) (h : Handed) :
    kissHandleFrame t turns h = none ↔
      Hangs (frameCrcs t h) ∨ (h.isData = true ∧ kissChannel t turns = none) := by
  -- a frame that is ignored is no data frame
  have hignore : h.isData ≠ true → ∀ e : Effect,
      (some e = none ↔ Hangs [] ∨ (h.isData = true ∧ kissChannel t turns = none)) := by
    intro hno e
    refine ⟨fun h => (nomatch h), ?_⟩
    rintro (hh | hh)
    · exact absurd hh short_nil.not_hangs
    · exact absurd hh.1 hno
  rw [ne_eq, isData_iff] at hignore
  rw [isData_iff]
  unfold kissHandleFrame frameCrcs
  dsimp only
  by_cases hs : h.size < 2
  · have := hignore (by omega) (.reply t h.frame [])
    rw [if_pos hs, if_pos hs, ite_self, ite_self]
    exact this
  · rw [if_neg (by omega), if_neg (by omega), if_neg hs, if_neg hs]
    by_cases hp : h.bytes.getD 0 0 >>> 4 &&& 0x0f > 0
    · rw [if_pos hp, if_pos hp]
      exact hignore (fun hd => hd.2.1 hp) _
    · rw [if_neg hp, if_neg hp]
      by_cases hd : h.bytes.getD 0 0 &&& 0x0f = kissCmdData
      · rw [if_pos hd, if_pos hd, sendToModem_none_iff, or_iff_right short_nil.not_hangs]
        exact ⟨fun hch => ⟨⟨by omega, hp, hd⟩, hch⟩, And.right⟩
      · rw [if_neg hd, if_neg hd, or_iff_left fun hdata => hd hdata.1.2.2]
        split_ifs
        · refine verified_hangs_iff t h.frame _ (fun d => ?_) (short_params t)
          exact (kissParams_spec t h.frame d).imp fun _ he => he.1
        · refine verified_hangs_iff t h.frame _ (fun d => ?_) (short_text t h.frame)
          exact (kissText_spec t h.frame d).imp fun _ he => he.1
        · refine verified_hangs_iff t h.frame _ (fun d => ?_) (short_call t)
          exact (kissCall_spec t h.frame d).imp fun _ he => he.1
        · exact verified_hangs_iff t h.frame _ (magicCmd_returns t h.frame) (short_magic t)
        · exact ⟨fun hh => (nomatch hh), fun hh => absurd hh short_nil.not_hangs⟩

/-! ### Every event -/

theorem readline_le (s : SerialSide) : (serialreaderReadline s).2 ≤ 255 := by
  have hchar : ∀ (r : SerialReader) (c : UInt8), (readlineChar r c).2 ≤ 255 := by
    intro r c
    unfold readlineChar
    dsimp only
    split_ifs <;> first | exact Nat.le_of_lt_succ (UInt8.toNat_lt _) | exact Nat.zero_le _
  unfold serialreaderReadline
  split
  · exact Nat.zero_le _
  · exact hchar _ _

theorem length_lineRead (b : Board) : ∀ line ∈ b.lineRead, line.length ≤ 255 := by
  intro line hline
  unfold Board.lineRead at hline
  dsimp only at hline
  split_ifs at hline
  · obtain rfl := List.mem_singleton.mp hline
    rw [SerialSide.line, Cells.length_slice]
    exact readline_le b.side
  · exact absurd hline List.not_mem_nil

theorem short_command (b : Board) (line : Line) : Short (b.commandCrcs line) := by
  unfold Board.commandCrcs
  split
  · dsimp only
    split_ifs
    · exact short_load _
    · exact short_nil
  · exact short_save _
  · exact short_save _
  · exact short_nil

theorem short_console (b : Board) : Short b.consoleCrcs := by
  refine short_flatMap fun line _ => ?_
  split
  · exact short_command _ _
  · exact short_nil

/-- Every call of `calc_crc` has 255 bytes at most. -/
theorem short_event (b : Board) (ev : BoardEvent) : Short (b.crcCalls ev) := by
  cases ev with
  | rx _ _ => exact short_nil
  | poll _ _ => exact short_nil
  | check now =>
    unfold Board.crcCalls
    dsimp only
    split_ifs
    · exact short_save _
    · exact short_nil
  | turn x =>
    unfold Board.crcCalls
    cases b.currentMode with
    | cfg => exact short_console b
    | digi => exact short_console b
    | kiss => exact short_flatMap fun h hh => short_frame b.tnc (kissPoll_size _ _ _ h hh)
    | tracker => exact short_nil
    | testBeacon => exact short_nil

theorem short_lines (b : Board) (ev : BoardEvent) : ∀ line ∈ b.parseCalls ev, line.length ≤ 255 := by
  intro line hline
  cases ev with
  | turn x =>
    unfold Board.parseCalls at hline
    dsimp only at hline
    split_ifs at hline
    · exact length_lineRead b line hline
    · exact absurd hline List.not_mem_nil
  | _ => exact absurd hline List.not_mem_nil

/-! ### Every event comes back -/

theorem init_returns (ee : Eeprom) : ∃ b, Board.init ee = some b := by
  unfold Board.init
  rw [settingsLoad_eq]
  exact ⟨_, rfl⟩

theorem command_returns (b : Board) (line : Line) : ∃ r, b.command line = some r := by
  cases line with
  | test command => exact ⟨_, rfl⟩
  | info => exact ⟨_, rfl⟩
  | invalid => exact ⟨_, rfl⟩
  | unknown => exact ⟨_, rfl⟩
  | run c value =>
    cases c with
    | call => exact ⟨_, rfl⟩
    | path => exact ⟨_, rfl⟩
    | text => exact ⟨_, rfl⟩
    | symbol =>
      obtain ⟨b', hb', -⟩ := symbol_saves b value
      exact ⟨_, hb'⟩
    | beacon =>
      obtain ⟨b', hb', -⟩ := beacon_saves b value
      exact ⟨_, hb'⟩
    | mode =>
      obtain ⟨b', hb', -⟩ := mode_saves b value
      exact ⟨_, hb'⟩
    | kiss =>
      obtain ⟨b', hb', -⟩ := switch_saves b [0x31] 1
      exact ⟨_, congrArg (Option.map _) hb'⟩
    | reset =>
      obtain ⟨b', hb'⟩ := init_returns (cmdSettingsReset b.tnc.store value).1.eeprom
      unfold Board.command
      dsimp only
      split_ifs
      · exact ⟨_, congrArg (Option.map _) hb'⟩
      · exact ⟨_, rfl⟩

theorem console_returns (b : Board) (t : PollTime) : ∃ b', b.consoleTurn t = some b' := by
  have hpoll : ∃ r, consolePoll b = some r := by
    unfold consolePoll
    dsimp only
    split_ifs with hline
    · have hlen : ((serialreaderReadline b.side).1.line (serialreaderReadline b.side).2).length ≤ 255 := by
        rw [SerialSide.line, Cells.length_slice]
        exact readline_le b.side
      obtain ⟨line, hparse⟩ := Option.isSome_iff_exists.mp (consoleParseCommand_isSome hlen)
      rw [hparse]
      exact command_returns _ line
    · exact ⟨_, rfl⟩
  obtain ⟨r, hr⟩ := hpoll
  unfold Board.consoleTurn
  rw [hr]
  exact ⟨_, rfl⟩

/-- The KISS line has handed over a data frame, and the channel is not free
yet. -/
def Waits (b : Board) (ev : BoardEvent) : Prop :=
  ∃ x, ev = .turn x ∧ b.currentMode = .kiss ∧ kissChannel b.tnc x.turns = none ∧
    ∃ h ∈ (kissPoll (b.handle x.turns) b.side x.now).2, h.isData = true

theorem kissTurn_returns (b : Board) (now : Int32) (turns : List Turn) (hnone : b.kissTurn now turns = none) :
    kissChannel b.tnc turns = none ∧ ∃ h ∈ (kissPoll (b.handle turns) b.side now).2, h.isData = true := by
  have hsize := kissPoll_size (b.handle turns) b.side now
  unfold Board.kissTurn at hnone
  dsimp only at hnone
  cases hframes : (kissPoll (b.handle turns) b.side now).2 with
  | nil =>
    rw [hframes] at hnone
    cases hnone
  | cons h hs =>
    rw [hframes] at hnone hsize
    have hshort := short_frame b.tnc (hsize h List.mem_cons_self)
    cases hframe : kissHandleFrame b.tnc turns h with
    | none =>
      rcases (frame_hangs_iff b.tnc turns h).mp hframe with hh | ⟨hdata, hch⟩
      · exact absurd hh hshort.not_hangs
      · exact ⟨hch, h, List.mem_cons_self, hdata⟩
    | some e =>
      obtain ⟨b', hb'⟩ := init_returns e.tnc.eeprom
      dsimp only at hnone
      rw [hframe] at hnone
      change (if e.reset = true then Board.init e.tnc.eeprom else some _) = none at hnone
      split_ifs at hnone
      rw [hb'] at hnone
      cases hnone

theorem check_returns (b : Board) (now : Int32) : ∃ b', checkRunMode b now = some b' := by
  unfold checkRunMode
  split_ifs
  · exact ⟨_, rfl⟩
  · exact ⟨_, rfl⟩
  · obtain ⟨b', hb', -⟩ := switch_saves b (cString [b.tnc.settings.runMode + 48]) 1
    exact ⟨b', hb'⟩
  · exact ⟨_, rfl⟩

/-- An event that does not come back waits for the channel. -/
theorem step_returns (b : Board) (ev : BoardEvent) (hnone : (boardStep (some b) ev).1 = none) : Waits b ev := by
  cases ev with
  | rx _ _ => cases hnone
  | poll _ _ => cases hnone
  | check now =>
    obtain ⟨b', hb'⟩ := check_returns b now
    exact absurd (hb'.symm.trans hnone) (by simp)
  | turn x =>
    change (b.turn x).1 = none at hnone
    unfold Board.turn at hnone
    obtain ⟨b', hb'⟩ := console_returns b x.times
    cases hmode : b.currentMode with
    | cfg =>
      rw [hmode] at hnone
      exact absurd (hb'.symm.trans hnone) (by simp)
    | digi =>
      rw [hmode] at hnone
      exact absurd (hb'.symm.trans hnone) (by simp)
    | tracker =>
      rw [hmode] at hnone
      cases hnone
    | kiss =>
      rw [hmode] at hnone
      obtain ⟨hch, hdata⟩ := kissTurn_returns b x.now x.turns hnone
      exact ⟨x, rfl, hmode, hch, hdata⟩
    | testBeacon =>
      rw [hmode] at hnone
      cases hnone

/-- **No input hangs the loops with an 8-bit index.** The board starts with
any EEPROM; and in every state that any events lead to, whatever the serial
port receives, the next event calls `calc_crc` and `console_parse_command`
with at most 255 bytes and each of these calls returns. The event itself comes
back too, unless it is a data frame that waits for the channel. -/
theorem loops_end (ee : Eeprom) : (∃ b, Board.init ee = some b) ∧ Short (loadCrcs ee) ∧
    ∀ (es : List BoardEvent) (b : Board), boardRun ee es = some b → ∀ ev : BoardEvent,
      (∀ d ∈ b.crcCalls ev, d.length ≤ 255 ∧ (calcCrc d).isSome = true) ∧
      (∀ line ∈ b.parseCalls ev, line.length ≤ 255 ∧ (consoleParseCommand line).isSome = true) ∧
      ((boardStep (some b) ev).1 = none → Waits b ev) := by
  refine ⟨init_returns ee, short_load ee, fun es b _ ev => ⟨fun d hd => ?_, fun line hline => ?_, ?_⟩⟩
  · have hlen := short_event b ev d hd
    exact ⟨hlen, by rw [calcCrc_eq hlen]; rfl⟩
  · have hlen := short_lines b ev line hline
    exact ⟨hlen, consoleParseCommand_isSome hlen⟩
  · exact step_returns b ev

/-- A round with nothing but the serial port. -/
def quietInput : Input := ⟨0, [], ⟨0, 0⟩, none⟩

/-- A line of one character, up to its end. -/
def questionMark : List BoardEvent := [.rx 0 0x3f, .turn quietInput, .rx 0 0x0d]

theorem loops_end_line :
    (boardRun blankEeprom questionMark).map (fun b => b.parseCalls (.turn quietInput)) = some [[0x3f]] ∧
    ∀ b, boardRun blankEeprom questionMark = some b →
      (∀ d ∈ b.crcCalls (.turn quietInput), d.length ≤ 255 ∧ (calcCrc d).isSome = true) ∧
      (∀ line ∈ b.parseCalls (.turn quietInput),
        line.length ≤ 255 ∧ (consoleParseCommand line).isSome = true) ∧
      ((boardStep (some b) (.turn quietInput)).1 = none → Waits b (.turn quietInput)) :=
  ⟨by decide, fun b hb => (loops_end blankEeprom).2.2 questionMark b hb (.turn quietInput)⟩

end TinyAprs
