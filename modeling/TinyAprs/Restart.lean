/-
# A restart changes no setting

`g_settings` lives in RAM, and the EEPROM has a copy of it behind a head byte and
a checksum; calls and beacon text are read from the EEPROM whenever they are
needed. Every command that changes `g_settings` saves it, and the others write
beside it, so at every point of every run the copy is what a restart would load:
either the settings as they are, or none while they are still the defaults
(`Persisted`). The one way out of it is an EEPROM that already has a head byte
and a wrong checksum: `settings_load` then takes over what it has read and
clears the EEPROM.
-/
import TinyAprs.ModeSafe

namespace TinyAprs

open Mealy

/-! ### What a restart loads -/

/-- The settings are the defaults and nothing is stored, or they are stored. -/
def Persisted (g : SettingsData) (ee : Eeprom) : Prop :=
  (ee nvSetHeadByte ≠ nvSettingsHeadByteValue ∧ g = gSettings) ∨ Saved g ee

theorem Persisted.load {g : SettingsData} {ee : Eeprom} (h : Persisted g ee) :
    ∃ r, settingsLoad gSettings ee = some (r, g, ee) := by
  rcases h with ⟨hhead, rfl⟩ | hsaved
  · exact ⟨false, by rw [settingsLoad_eq, if_pos hhead]⟩
  · exact ⟨true, hsaved.load gSettings⟩

theorem Persisted.congr {g : SettingsData} {ee ee' : Eeprom} (h : Persisted g ee)
    (harea : paramsArea ee' = paramsArea ee) : Persisted g ee' := by
  rcases h with ⟨hhead, hg⟩ | hsaved
  · have hcell : ee' nvSetHeadByte = ee nvSetHeadByte := (List.cons.inj harea).1
    exact Or.inl ⟨hcell ▸ hhead, hg⟩
  · exact Or.inr (hsaved.congr harea)

theorem Persisted.not_bad {g : SettingsData} {ee : Eeprom} (h : Persisted g ee) : ¬ BadChecksum ee := by
  rintro ⟨hhead, hcrc⟩
  rcases h with ⟨hne, -⟩ | hsaved
  · exact hne hhead
  · have hblock : paramsBlock ee = g.toBytes := hsaved.params
    exact hcrc (by rw [hblock, hsaved.crc])

/-- What a board starts with, unless the checksum is wrong. -/
theorem persisted_load {ee : Eeprom} (h : ¬ BadChecksum ee) {r : Bool × SettingsData × Eeprom}
    (hr : settingsLoad gSettings ee = some r) : Persisted r.2.1 r.2.2 := by
  rw [settingsLoad_eq] at hr
  obtain rfl := Option.some.inj hr
  by_cases hhead : ee nvSetHeadByte = nvSettingsHeadByteValue
  · have hcrc : ee nvSetCrcByte = checksum (paramsBlock ee) := by
      by_contra hcrc
      exact h ⟨hhead, hcrc⟩
    rw [if_neg (not_not.mpr hhead), if_neg (not_not.mpr hcrc)]
    have hbytes := SettingsData.toBytes_ofBytes (length_paramsBlock ee)
    exact Or.inr ⟨hhead, hbytes.symm, hcrc.trans (congrArg checksum hbytes.symm)⟩
  · rw [if_pos hhead]
    exact Or.inl ⟨hhead, rfl⟩

theorem persisted_save {s s' : Store} (h : s.save = some s') : Persisted s'.settings s'.eeprom := by
  obtain ⟨ee, hsave, hsaved, -⟩ := settingsSave_spec s.settings s.eeprom
  rw [Store.save, hsave] at h
  obtain rfl := Option.some.inj h
  exact Or.inr hsaved

/-! ### The board -/

/-- The board's settings are persisted. -/
def Board.Keeps (b : Board) : Prop := Persisted b.tnc.settings b.tnc.eeprom

theorem Board.init_keeps {ee : Eeprom} (h : ¬ BadChecksum ee) {b : Board} (hb : Board.init ee = some b) : b.Keeps := by
  obtain ⟨r, hload, hb⟩ := Option.bind_eq_some_iff.mp hb
  obtain rfl := Option.some.inj hb
  exact persisted_load h hload

theorem Board.Keeps.saving {b b' : Board} (h : b.Keeps) {p : Prop} [Decidable p] {s : Store}
    (hb : (if p then s.save else some b.tnc.store).map b.withStore = some b') : b'.Keeps := by
  obtain ⟨s', hs', rfl⟩ := Option.map_eq_some_iff.mp hb
  split_ifs at hs'
  · exact persisted_save hs'
  · obtain rfl := Option.some.inj hs'
    exact h

theorem Board.Keeps.switchMode {b b' : Board} (h : b.Keeps) {value : List UInt8} {len : ℕ}
    (hb : cmdSwitchMode b value len = some b') : b'.Keeps := by
  unfold cmdSwitchMode at hb
  dsimp only at hb
  split_ifs at hb with hlen hsame
  · obtain rfl := Option.some.inj hb
    exact h
  · cases hm : modeCase (atoi value) with
    | none =>
      rw [hm] at hb
      obtain rfl := Option.some.inj hb
      exact h
    | some m =>
      obtain ⟨-, hset, hee⟩ := b.enter_spec (ne_testBeacon_of_modeCase hm)
      rw [hm] at hb
      dsimp only at hb
      split_ifs at hb with hrun
      · obtain ⟨s, hs, rfl⟩ := Option.map_eq_some_iff.mp hb
        exact persisted_save hs
      · obtain rfl := Option.some.inj hb
        rw [Board.Keeps, hset, hee]
        exact h
  · obtain rfl := Option.some.inj hb
    exact h

theorem Board.Keeps.checkRunMode {b b' : Board} (h : b.Keeps) {now : Int32}
    (hb : TinyAprs.checkRunMode b now = some b') : b'.Keeps := by
  unfold TinyAprs.checkRunMode at hb
  split_ifs at hb
  · obtain rfl := Option.some.inj hb
    exact h
  · obtain rfl := Option.some.inj hb
    exact h
  · exact h.switchMode hb
  · obtain rfl := Option.some.inj hb
    exact h

/-- Settings that are left alone, with the EEPROM written beside them. -/
theorem Board.Keeps.withStore {b : Board} (h : b.Keeps) {s : Store} (hset : s.settings = b.tnc.settings)
    (harea : paramsArea s.eeprom = paramsArea b.tnc.eeprom) : (b.withStore s).Keeps := by
  show Persisted s.settings s.eeprom
  rw [hset]
  exact Persisted.congr h harea

theorem cmdSettingsMycall_beside (s : Store) (value : List UInt8) :
    (cmdSettingsMycall s value).settings = s.settings ∧
      paramsArea (cmdSettingsMycall s value).eeprom = paramsArea s.eeprom := by
  unfold cmdSettingsMycall
  split_ifs
  · exact ⟨rfl, (settingsSetCallData_spec s.eeprom _).2.1⟩
  · exact ⟨rfl, rfl⟩

theorem cmdSettingsPath_beside (s : Store) (value : List UInt8) :
    (cmdSettingsPath s value).settings = s.settings ∧
      paramsArea (cmdSettingsPath s value).eeprom = paramsArea s.eeprom := by
  rw [cmdSettingsPath_eq]
  rcases pathOf value with _ | ⟨path1, path2⟩
  · exact ⟨rfl, rfl⟩
  · exact ⟨rfl, (settingsSetCallData_spec s.eeprom _).2.1⟩

theorem cmdSettingsBeaconText_beside (s : Store) (value : List UInt8) :
    (cmdSettingsBeaconText s value).settings = s.settings ∧
      paramsArea (cmdSettingsBeaconText s value).eeprom = paramsArea s.eeprom := by
  unfold cmdSettingsBeaconText
  split_ifs
  · exact ⟨rfl, (settingsSetBeaconText_spec s.eeprom value _).1⟩
  · exact ⟨rfl, rfl⟩

theorem sendFixedText_store (t : Tnc) :
    (sendFixedText t).1.settings = t.settings ∧ (sendFixedText t).1.eeprom = t.eeprom := by
  unfold sendFixedText
  dsimp only
  split_ifs
  · exact ⟨rfl, rfl⟩
  · exact ⟨rfl, rfl⟩

theorem beaconSendTest_store : ∀ (n : ℕ) (t : Tnc),
    (beaconSendTestMessageImmediate t n).1.settings = t.settings ∧
      (beaconSendTestMessageImmediate t n).1.eeprom = t.eeprom
  | 0, _ => ⟨rfl, rfl⟩
  | n + 1, t => by
    obtain ⟨hset, hee⟩ := beaconSendTest_store n (sendFixedText t).1
    obtain ⟨hset', hee'⟩ := sendFixedText_store t
    exact ⟨hset.trans hset', hee.trans hee'⟩

/-- `AT+RESET` starts the board again, with the EEPROM cleared or as it is. -/
theorem Board.Keeps.reset {b : Board} (h : b.Keeps) {value : List UInt8} {r : Board × Bool}
    (hr : b.command (.run .reset value) = some r) : r.1.Keeps := by
  rw [Board.command, cmdSettingsReset] at hr
  by_cases hreset : valueLen value > 0 ∧ (value.getD 0 0 = 0x31 ∨ value.getD 0 0 = 0x32)
  · rw [if_pos hreset] at hr
    obtain ⟨b', hb', rfl⟩ := Option.map_eq_some_iff.mp hr
    refine Board.init_keeps ?_ hb'
    split_ifs
    · exact fun hbad => settingsClear_head b.tnc.eeprom hbad.1
    · exact Persisted.not_bad h
  · rw [if_neg hreset] at hr
    obtain rfl := Option.some.inj hr
    exact h

theorem Board.Keeps.command {b : Board} (h : b.Keeps) {line : Line} {r : Board × Bool}
    (hr : b.command line = some r) : r.1.Keeps := by
  cases line with
  | test command =>
    obtain rfl := Option.some.inj hr
    obtain ⟨hset, hee⟩ := beaconSendTest_store (testRepeats command) b.tnc
    show Persisted (cmdTestSend b.tnc command).1.settings (cmdTestSend b.tnc command).1.eeprom
    rw [cmdTestSend, hset, hee]
    exact h
  | info | invalid | unknown =>
    obtain rfl := Option.some.inj hr
    exact h
  | run c value =>
    cases c with
    | call =>
      obtain rfl := Option.some.inj hr
      exact h.withStore (cmdSettingsMycall_beside b.tnc.store value).1 (cmdSettingsMycall_beside b.tnc.store value).2
    | path =>
      obtain rfl := Option.some.inj hr
      exact h.withStore (cmdSettingsPath_beside b.tnc.store value).1 (cmdSettingsPath_beside b.tnc.store value).2
    | text =>
      obtain rfl := Option.some.inj hr
      exact h.withStore (cmdSettingsBeaconText_beside b.tnc.store value).1
        (cmdSettingsBeaconText_beside b.tnc.store value).2
    | symbol | beacon =>
      obtain ⟨s, hs, rfl⟩ := Option.map_eq_some_iff.mp hr
      exact h.saving (Option.map_eq_some_iff.mpr ⟨s, hs, rfl⟩)
    | mode | kiss =>
      obtain ⟨b', hb', rfl⟩ := Option.map_eq_some_iff.mp hr
      exact h.switchMode hb'
    | reset => exact h.reset hr

theorem Board.Keeps.consolePoll {b : Board} (h : b.Keeps) {r : Board × Bool}
    (hr : TinyAprs.consolePoll b = some r) : r.1.Keeps := by
  have hside : { b with side := (serialreaderReadline b.side).1 }.Keeps := h
  unfold TinyAprs.consolePoll at hr
  dsimp only at hr
  split_ifs at hr with hline
  · obtain ⟨line, -, hr⟩ := Option.bind_eq_some_iff.mp hr
    exact hside.command hr
  · obtain rfl := Option.some.inj hr
    exact hside

theorem Board.Keeps.consoleTurn {b b' : Board} (h : b.Keeps) {t : PollTime} (hb : b.consoleTurn t = some b') :
    b'.Keeps := by
  unfold Board.consoleTurn at hb
  obtain ⟨⟨b₁, restarted⟩, hpoll, hb⟩ := Option.bind_eq_some_iff.mp hb
  have hkeeps : b₁.Keeps := h.consolePoll hpoll
  obtain rfl := Option.some.inj hb
  cases restarted with
  | true => exact hkeeps
  | false =>
    show Persisted (if _ then _ else _ : Tnc).settings (if _ then _ else _ : Tnc).eeprom
    obtain ⟨hset, hee⟩ := sendFixedText_store b₁.tnc
    split_ifs
    · rw [hset, hee]
      exact hkeeps
    · exact hkeeps

theorem Board.Keeps.trackerPoll {b : Board} (h : b.Keeps) (fix : Option (Fix × List UInt8)) :
    (TinyAprs.trackerPoll b fix).Keeps := by
  unfold TinyAprs.trackerPoll
  rcases fix with _ | ⟨f, payload⟩
  · exact h
  · dsimp only
    split_ifs
    · exact h
    · exact h
    · exact h

theorem Board.Keeps.hooks {clock : Clock} (calls : List HookCall) {b : Board} (h : b.Keeps) :
    (calls.foldl (fun b call => b.hook clock call) b).Keeps := by
  induction calls generalizing b with
  | nil => exact h
  | cons call calls ih =>
    refine ih ?_
    show (b.hook clock call).Keeps
    unfold Board.hook
    split
    · exact h
    · exact h

theorem Board.Keeps.poll {b : Board} (h : b.Keeps) (heard : List Heard) (error : Bool) : (b.poll heard error).1.Keeps := by
  have hheard : (final Board.hear b heard).Keeps :=
    final_inv Board.hear Board.Keeps (fun b x hb => Board.Keeps.hooks _ hb) b heard h
  exact hheard

/-- A request to the KISS line saves the settings it changes, and writes beside
them otherwise. -/
theorem handleRequest_persisted {t : Tnc} {turns : List Turn} {buf : ℕ → UInt8} {q : Request} {e : Effect}
    (h : Persisted t.settings t.eeprom) (he : handleRequest t turns buf q = some e) :
    Persisted e.tnc.settings e.tnc.eeprom := by
  cases q with
  | data payload =>
    obtain ⟨hset, hee⟩ := sendToModem_settings t turns buf he
    rw [hset, hee]
    exact h
  | params d =>
    by_cases hlen : d.length = sizeofSettingsData
    · obtain ⟨ee, hcmd, hsaved, -⟩ := paramsCmd_write t buf hlen
      obtain rfl := Option.some.inj (hcmd.symm.trans he)
      exact Or.inr hsaved
    · by_cases h0 : d.length = 0
      · obtain rfl := List.length_eq_zero_iff.mp h0
        obtain rfl := Option.some.inj ((paramsCmd_read t buf).symm.trans he)
        exact h
      · obtain rfl := Option.some.inj ((paramsCmd_other t buf h0 hlen).symm.trans he)
        exact h
  | text d =>
    by_cases h0 : d.length = 0
    · obtain rfl := List.length_eq_zero_iff.mp h0
      obtain ⟨buf', serial, hcmd⟩ := textCmd_read t buf
      obtain rfl := Option.some.inj (hcmd.symm.trans he)
      exact h
    · obtain rfl := Option.some.inj ((textCmd_write t buf h0).symm.trans he)
      exact h.congr (settingsSetBeaconText_spec t.eeprom d _).1
  | call d =>
    by_cases hlen : d.length = sizeofCallData
    · obtain rfl := Option.some.inj ((callCmd_write t buf hlen).symm.trans he)
      exact h.congr (settingsSetCallData_spec t.eeprom _).2.1
    · by_cases h0 : d.length = 0
      · obtain rfl := List.length_eq_zero_iff.mp h0
        obtain rfl := Option.some.inj ((callCmd_read t buf).symm.trans he)
        exact h
      · obtain rfl := Option.some.inj ((callCmd_other t buf h0 hlen).symm.trans he)
        exact h
  | magic d =>
    rw [magicCmd_tnc t buf he]
    exact h
  | nothing =>
    obtain rfl := Option.some.inj he
    exact h

theorem Board.Keeps.kissTurn {b b' : Board} (h : b.Keeps) {now : Int32} {turns : List Turn}
    (hb : b.kissTurn now turns = some b') : b'.Keeps := by
  have hsize := kissPoll_size (b.handle turns) b.side now
  unfold Board.kissTurn at hb
  dsimp only at hb
  cases hframes : (kissPoll (b.handle turns) b.side now).2 with
  | nil =>
    rw [hframes] at hb
    obtain rfl := Option.some.inj hb
    exact h
  | cons x xs =>
    rw [hframes] at hb hsize
    obtain ⟨e, he, hb⟩ := Option.bind_eq_some_iff.mp hb
    rw [kissHandleFrame_eq _ _ _ (hsize x List.mem_cons_self)] at he
    have hkeeps := handleRequest_persisted h he
    split_ifs at hb
    · exact Board.init_keeps hkeeps.not_bad hb
    · obtain rfl := Option.some.inj hb
      exact hkeeps

/-! ### Every run -/

theorem boardStep_keeps (o : Option Board) (ev : BoardEvent) (h : ∀ b, o = some b → b.Keeps) :
    ∀ b, (boardStep o ev).1 = some b → b.Keeps := by
  intro b' hb'
  cases o with
  | none => exact nomatch hb'
  | some b =>
    have hb := h b rfl
    cases ev with
    | rx ucsr0a udr0 =>
      obtain rfl := Option.some.inj hb'
      exact hb
    | poll heard error =>
      obtain rfl := Option.some.inj hb'
      exact hb.poll heard error
    | check now => exact hb.checkRunMode hb'
    | turn x =>
      change (b.turn x).1 = some b' at hb'
      unfold Board.turn at hb'
      cases hmode : b.currentMode with
      | cfg | digi =>
        rw [hmode] at hb'
        exact hb.consoleTurn hb'
      | tracker =>
        rw [hmode] at hb'
        obtain rfl := Option.some.inj hb'
        exact hb.trackerPoll x.fix
      | kiss =>
        rw [hmode] at hb'
        exact hb.kissTurn hb'
      | testBeacon =>
        rw [hmode] at hb'
        obtain rfl := Option.some.inj hb'
        exact hb

/-- **A restart changes no setting.** At every point of every run, from an EEPROM
that has no settings or settings with the right checksum: if the board loses its
power there, it comes back with the settings it had, and the EEPROM, with the
calls and the beacon text, is as it was. -/
theorem restart_keeps_settings (ee : Eeprom) (hee : ¬ BadChecksum ee) (es : List BoardEvent) (b : Board)
    (hb : boardRun ee es = some b) :
    ∃ b', Board.init b.tnc.eeprom = some b' ∧ b'.tnc.settings = b.tnc.settings ∧ b'.tnc.eeprom = b.tnc.eeprom := by
  have hkeeps : b.Keeps := final_inv boardStep (fun o => ∀ b, o = some b → b.Keeps) boardStep_keeps (Board.init ee) es
    (fun b hb => Board.init_keeps hee hb) b hb
  obtain ⟨r, hload⟩ := Persisted.load hkeeps
  rw [Board.init, hload]
  exact ⟨_, rfl, rfl, rfl⟩

/-- `AT+MODE=3` is typed, and read. -/
def modeTyped : List BoardEvent :=
  ([0x41, 0x54, 0x2b, 0x4d, 0x4f, 0x44, 0x45, 0x3d, 0x33, 0x0d].map fun c => .rx 0 c) ++
    List.replicate 10 (.turn ⟨0, [], ⟨0, 0⟩, none⟩)

/-- A new board starts in the mode it was sent to. -/
theorem restart_keeps_settings_typed : ∃ b b', boardRun blankEeprom modeTyped = some b ∧
    Board.init b.tnc.eeprom = some b' ∧ b'.tnc.settings = b.tnc.settings ∧ b'.tnc.settings.runMode = 3 := by
  have hrun : (boardRun blankEeprom modeTyped).map (fun b => b.tnc.settings.runMode) = some 3 := by decide +kernel
  obtain ⟨b, hb, hmode⟩ := Option.map_eq_some_iff.mp hrun
  obtain ⟨b', hb', hset, -⟩ := restart_keeps_settings blankEeprom (by decide) modeTyped b hb
  exact ⟨b, b', hb, hb', hset, by rw [hset, hmode]⟩

end TinyAprs
