/-
# AT+MODE

`cmd_switch_mode` with what it prints, in any firmware: the cases of its
switch are those of the modules that are there (`Build`). The value goes
through `atoi`, which makes a number of any text, modulo 2^16, and it is that
number that is checked. So a value that is not the number of a mode is
rejected, without a change to the board, only if `atoi` makes no such number
of it (`mode_switch_iff`).
-/
import TinyAprs.ConsoleParse
import TinyAprs.Lib.Decimal
import TinyAprs.Main

namespace TinyAprs

open Decimal

/-! ### The command -/

/-- The modes that are compiled in. -/
def Build.has (build : Build) : RunMode → Bool
  | .cfg => true
  | .kiss => build.kiss
  | .tracker => build.tracker
  | .digi => build.digi
  | .testBeacon => false

/-- The cases of the switch that are compiled in. -/
def Build.modeCase (build : Build) (i : Int16) : Option RunMode := (TinyAprs.modeCase i).filter build.has

/-- What `cmd_switch_mode` prints. -/
inductive ModeReply
  | nothing
  /-- `Enter .. mode` -/
  | enter (m : RunMode)
  /-- `Invalid mode .., [0|1|2|3] is accepted` -/
  | invalid (value : List UInt8)
  /-- `Current mode ../..` -/
  | current (currentMode : RunMode) (runMode : UInt8)
deriving DecidableEq, Repr

/-- The board is in the mode of this number, and it is the one saved. -/
def Board.InMode (b : Board) (i : Int16) : Prop :=
  i = promote b.currentMode.val ∧ i = promote b.tnc.settings.runMode

instance (b : Board) (i : Int16) : Decidable (b.InMode i) := inferInstanceAs (Decidable (_ ∧ _))

/-- `cmd_switch_mode`, with its reply. -/
def Build.cmdSwitchMode (build : Build) (b : Board) (value : List UInt8) (len : ℕ) : Option (Board × ModeReply) :=
  if len > 0 then
    let i := atoi value
    -- already in this mode, bail out
    if b.InMode i then some (b, .nothing)
    else match build.modeCase i with
      | none => some (b, .invalid value)
      | some m =>
        let b := b.enter m
        if b.currentMode.val ≠ b.tnc.settings.runMode then b.saveRunMode.map (·, .enter m) else some (b, .enter m)
  -- no parameters, just dump the mode
  else some (b, .current b.currentMode b.tnc.settings.runMode)

/-- With all modules, this is the command of the main loop. -/
theorem cmdSwitchMode_all (b : Board) (value : List UInt8) (len : ℕ) :
    (Build.all.cmdSwitchMode b value len).map Prod.fst = cmdSwitchMode b value len := by
  have hcase : Build.all.modeCase (atoi value) = modeCase (atoi value) := by
    rw [Build.modeCase]
    unfold modeCase
    split_ifs <;> rfl
  unfold Build.cmdSwitchMode cmdSwitchMode
  dsimp only
  rw [hcase]
  by_cases hlen : len > 0
  · rw [if_pos hlen, if_pos hlen]
    by_cases hin : b.InMode (atoi value)
    · rw [if_pos hin, if_pos (show _ ∧ _ from hin)]
      rfl
    · rw [if_neg hin, if_neg (show ¬(_ ∧ _) from hin)]
      cases modeCase (atoi value) with
      | none => rfl
      | some m =>
        dsimp only
        split_ifs
        · rw [Option.map_map]
          exact Option.map_id'
        · rfl
  · rw [if_neg hlen, if_neg hlen]
    rfl

/-! ### What it does -/

theorem Board.saveRunMode_spec (b : Board) : ∃ b', b.saveRunMode = some b' ∧ b'.currentMode = b.currentMode ∧
    b'.tnc.settings = b.tnc.settings.setRunMode b.currentMode.val := by
  obtain ⟨ee, hsave, -⟩ := settingsSave_spec (b.tnc.settings.setRunMode b.currentMode.val) b.tnc.eeprom
  refine ⟨b.withStore ⟨b.tnc.settings.setRunMode b.currentMode.val, ee⟩, ?_, rfl, rfl⟩
  rw [saveRunMode, Store.save]
  dsimp only [Tnc.store]
  rw [hsave]
  rfl

theorem Build.modeCase_iff (build : Build) {i : Int16} {m : RunMode} :
    build.modeCase i = some m ↔ build.has m = true ∧ i = promote m.val := by
  rw [modeCase, Option.filter_eq_some_iff, and_comm]
  refine and_congr_right fun hhas => ?_
  constructor
  · intro h
    unfold TinyAprs.modeCase at h
    split_ifs at h with h0 h1 h2 h3
    · cases h
      exact h0
    · cases h
      exact h1
    · cases h
      exact h2
    · cases h
      exact h3
  · rintro rfl
    cases m with
    | testBeacon => exact absurd hhas Bool.false_ne_true
    | cfg | kiss | tracker | digi => rfl

/-- What can happen: the mode is shown, it is the one the board is in, the
number is none of a mode, or the mode is entered and saved. -/
theorem Build.cmdSwitchMode_cases (build : Build) (b : Board) (value : List UInt8) :
    ∃ b' r, build.cmdSwitchMode b value value.length = some (b', r) ∧
      (value = [] ∧ b' = b ∧ r = .current b.currentMode b.tnc.settings.runMode ∨
        value ≠ [] ∧ b.InMode (atoi value) ∧ b' = b ∧ r = .nothing ∨
        value ≠ [] ∧ ¬b.InMode (atoi value) ∧ build.modeCase (atoi value) = none ∧ b' = b ∧ r = .invalid value ∨
        ∃ m, value ≠ [] ∧ ¬b.InMode (atoi value) ∧ build.modeCase (atoi value) = some m ∧ b'.currentMode = m ∧
          b'.tnc.settings = b.tnc.settings.setRunMode m.val ∧ r = .enter m) := by
  unfold Build.cmdSwitchMode
  dsimp only
  by_cases hnil : value = []
  · subst hnil
    exact ⟨_, _, rfl, Or.inl ⟨rfl, rfl, rfl⟩⟩
  rw [if_pos (List.length_pos_iff.mpr hnil)]
  by_cases hin : b.InMode (atoi value)
  · rw [if_pos hin]
    exact ⟨_, _, rfl, Or.inr (Or.inl ⟨hnil, hin, rfl, rfl⟩)⟩
  rw [if_neg hin]
  cases hcase : build.modeCase (atoi value) with
  | none => exact ⟨_, _, rfl, Or.inr (Or.inr (Or.inl ⟨hnil, hin, rfl, rfl, rfl⟩))⟩
  | some m =>
    have hm : m ≠ .testBeacon := by
      rintro rfl
      have := (build.modeCase_iff.mp hcase).1
      cases this
    obtain ⟨hmode, hset, -⟩ := b.enter_spec hm
    dsimp only
    split_ifs with hsaved
    · obtain ⟨b', hsave, hmode', hset'⟩ := (b.enter m).saveRunMode_spec
      rw [hsave]
      rw [hmode] at hmode'
      rw [hmode, hset] at hset'
      exact ⟨_, _, rfl, Or.inr (Or.inr (Or.inr ⟨m, hnil, hin, rfl, hmode', hset', rfl⟩))⟩
    · refine ⟨_, _, rfl, Or.inr (Or.inr (Or.inr ⟨m, hnil, hin, rfl, hmode, ?_, rfl⟩))⟩
      rw [hmode, hset] at hsaved
      rw [hset, not_not.mp hsaved, SettingsData.setRunMode]

/-! ### Numbers -/

/-- The value is the decimal number of a mode that is compiled in. -/
def Build.ModeNumber (build : Build) (value : List UInt8) (m : RunMode) : Prop :=
  build.has m = true ∧ value ≠ [] ∧ (∀ c ∈ value, isdigit c = true) ∧ Decimal.value value = m.val.toNat

/-- A digit more, in an `int`. -/
theorem int_digit (v : ℕ) {c : UInt8} (h : isdigit c = true) :
    Int16.ofNat v * 10 + (Int16.ofNat c.toNat - 0x30) = Int16.ofNat (10 * v + (c.toNat - 48)) := by
  have hdigit : ∀ c : UInt8, isdigit c = true → Int16.ofNat c.toNat - 0x30 = Int16.ofNat (c.toNat - 48) := by
    decide +kernel
  rw [hdigit c h, Int16.ofNat_add, Int16.ofNat_mul, Int16.mul_comm]
  rfl

theorem atoiDigits_eq : ∀ (s : List UInt8) (v : ℕ), (∀ c ∈ s, isdigit c = true) →
    atoiDigits (Int16.ofNat v) s = Int16.ofNat (s.foldl (fun v c => 10 * v + (c.toNat - 48)) v)
  | [], _, _ => rfl
  | c :: s, v, h => by
    rw [atoiDigits, if_pos (h c List.mem_cons_self), int_digit v (h c List.mem_cons_self),
      atoiDigits_eq s _ fun d hd => h d (List.mem_cons_of_mem c hd), List.foldl_cons]

theorem isdigit_facts : ∀ c : UInt8, isdigit c = true → isspace c = false ∧ c ≠ 0x2d ∧ c ≠ 0x2b := by decide +kernel

/-- `atoi` reads a decimal number, in an `int`. -/
theorem atoi_decimal {s : List UInt8} (h : ∀ c ∈ s, isdigit c = true) : atoi s = Int16.ofNat (value s) := by
  cases s with
  | nil => rfl
  | cons c s =>
    obtain ⟨hspace, hminus, hplus⟩ := isdigit_facts c (h c List.mem_cons_self)
    have hdrop : (c :: s).dropWhile isspace = c :: s := List.dropWhile_cons_of_neg (by simp [hspace])
    unfold atoi
    rw [hdrop]
    split
    · rename_i heq
      exact absurd (List.cons.inj heq).1 hminus
    · rename_i heq
      exact absurd (List.cons.inj heq).1 hplus
    · exact atoiDigits_eq (c :: s) 0 h

theorem RunMode.promote_val (m : RunMode) : ∀ x : UInt8, promote x = promote m.val → x = m.val := by
  cases m <;> decide +kernel

theorem RunMode.val_inj {m m' : RunMode} (h : m.val = m'.val) : m = m' := by
  revert h
  cases m <;> cases m' <;> decide

theorem Build.ModeNumber.case {build : Build} {value : List UInt8} {m : RunMode} (h : build.ModeNumber value m) :
    build.modeCase (atoi value) = some m := by
  obtain ⟨hhas, -, hdigits, hvalue⟩ := h
  rw [build.modeCase_iff, atoi_decimal hdigits, hvalue]
  exact ⟨hhas, rfl⟩

/-! ### Values that are rejected and values that are not -/

/-- A mode's number enters the mode and changes no other setting; any other
value is reported, and changes nothing. -/
structure Build.Switched (build : Build) (value : List UInt8) (b b' : Board) (r : ModeReply) : Prop where
  number : ∀ m, build.ModeNumber value m →
    b'.currentMode = m ∧ b'.tnc.settings = b.tnc.settings.setRunMode m.val
  other : (∀ m, ¬build.ModeNumber value m) → b'.currentMode = b.currentMode ∧
    b'.tnc.modem.passThrough = b.tnc.modem.passThrough ∧ b'.tnc.settings = b.tnc.settings ∧
    b'.tnc.eeprom = b.tnc.eeprom ∧ r = .invalid value

/-- **AT+MODE rejects what `atoi` makes no mode of.** On every board and with
every value the command returns, and does what it should (a mode's number
enters that mode; any other value is reported as invalid and changes nothing)
exactly when the value is a mode's number, or it is not empty and `atoi` makes
of it neither the number of a mode that is compiled in nor the one that is
both current and saved. -/
theorem mode_switch_iff (build : Build) (b : Board) (value : List UInt8) :
    ∃ b' r, build.cmdSwitchMode b value value.length = some (b', r) ∧
      (build.Switched value b b' r ↔ (∃ m, build.ModeNumber value m) ∨
        value ≠ [] ∧ build.modeCase (atoi value) = none ∧ ¬b.InMode (atoi value)) := by
  obtain ⟨b', r, hcmd, hcases⟩ := build.cmdSwitchMode_cases b value
  refine ⟨b', r, hcmd, ?_⟩
  by_cases hnumber : ∃ m, build.ModeNumber value m
  · -- a mode's number: the board is in the mode already, or enters it
    refine iff_of_true ⟨fun m hm => ?_, fun hnone => absurd hnumber (not_exists.mpr hnone)⟩ (Or.inl hnumber)
    have hcase := hm.case
    rcases hcases with ⟨hnil, -⟩ | ⟨-, hin, rfl, -⟩ | ⟨-, -, hnone, -⟩ | ⟨m', -, -, hsome, hmode, hset, -⟩
    · exact absurd hnil hm.2.1
    · have hval := (build.modeCase_iff.mp hcase).2
      have hmode := m.promote_val _ (hin.1.symm.trans hval)
      have hsaved := m.promote_val _ (hin.2.symm.trans hval)
      rw [← hsaved]
      exact ⟨RunMode.val_inj hmode, rfl⟩
    · rw [hcase] at hnone
      cases hnone
    · rw [hcase] at hsome
      cases hsome
      exact ⟨hmode, hset⟩
  · -- any other value
    rw [or_iff_right hnumber]
    constructor
    · intro h
      have hr := (h.other (not_exists.mp hnumber)).2.2.2.2
      rcases hcases with ⟨-, -, hr'⟩ | ⟨-, -, -, hr'⟩ | ⟨hne, hin, hnone, -⟩ | ⟨m, -, -, -, -, -, hr'⟩
      · rw [hr] at hr'
        cases hr'
      · rw [hr] at hr'
        cases hr'
      · exact ⟨hne, hnone, hin⟩
      · rw [hr] at hr'
        cases hr'
    · rintro ⟨hne, hnone, hin⟩
      refine ⟨fun m hm => absurd ⟨m, hm⟩ hnumber, fun _ => ?_⟩
      rcases hcases with ⟨hnil, -⟩ | ⟨-, hin', -⟩ | ⟨-, -, -, rfl, hr⟩ | ⟨m, -, -, hsome, -⟩
      · exact absurd hnil hne
      · exact absurd hin' hin
      · exact ⟨rfl, rfl, rfl, rfl, hr⟩
      · rw [hnone] at hsome
        cases hsome

/-- The values `abc` and `65537`, on a board that has just started: the first
sets the config mode, the second the KISS mode, and neither is reported. -/
theorem text_taken_for_mode : ∃ b, Board.init blankEeprom = some b ∧
    (∃ b' r, Build.all.cmdSwitchMode b [0x61, 0x62, 0x63] 3 = some (b', r) ∧
      (∀ m, ¬Build.all.ModeNumber [0x61, 0x62, 0x63] m) ∧ b'.tnc.settings ≠ b.tnc.settings ∧ r = .enter .cfg) ∧
    ∃ b' r, Build.all.cmdSwitchMode b [0x36, 0x35, 0x35, 0x33, 0x37] 5 = some (b', r) ∧
      (∀ m, ¬Build.all.ModeNumber [0x36, 0x35, 0x35, 0x33, 0x37] m) ∧ b'.currentMode ≠ b.currentMode ∧
      r = .enter .kiss := by
  refine ⟨_, rfl, ⟨_, _, rfl, ?_, by decide, rfl⟩, ⟨_, _, rfl, ?_, by decide, rfl⟩⟩
  · rintro m ⟨-, -, hdigits, -⟩
    exact absurd (hdigits 0x61 (by simp)) (by decide)
  · rintro m ⟨-, -, -, hvalue⟩
    cases m <;> revert hvalue <;> decide

end TinyAprs
