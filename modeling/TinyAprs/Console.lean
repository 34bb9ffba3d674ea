/-
# The console

The model of `console.c`, with the string functions it uses (`utils.c` and
the C library). `console_parse_command` takes a line apart and finds the
handler of its command; the handlers of the settings commands read and write
`g_settings` and the EEPROM. A line is the bytes that
`serialreader_readline` stored, which may hold a NUL; a C string is the bytes
before its NUL. What is printed is left out.

The search for the `=` of an AT command has an index of 8 bits and a bound of
16, so it is an `Option`: `none` is a search that does not end.
-/
import TinyAprs.Digi
import TinyAprs.Lib.Terminated

namespace TinyAprs

open Terminated

/-! ### Strings -/

/-- The C string at the start of the bytes. -/
def cString (bytes : List UInt8) : List UInt8 := bytes.takeWhile (· != 0)

/-- The C string at an address, which has 16 bits. -/
def termString (mem : ℕ → UInt8) (ptr : ℕ) : List UInt8 := upTo 0 mem ptr 0x10000

theorem termString_of_str {mem : ℕ → UInt8} {ptr : ℕ} {w : List UInt8} (h : Str 0 mem ptr w)
    (hlen : w.length ≤ 0x10000) : termString mem ptr = w := by
  rw [termString, h.read, List.take_of_length_le hlen]

/-- `isspace` -/
def isspace (c : UInt8) : Bool := c == 0x20 || decide (0x09 ≤ c ∧ c ≤ 0x0d)

/-- `isdigit` -/
def isdigit (c : UInt8) : Bool := decide (0x30 ≤ c ∧ c ≤ 0x39)

/-- The digits of `atoi`; an `int` has 16 bits, and wraps. -/
def atoiDigits (n : Int16) : List UInt8 → Int16
  | [] => n
  | c :: s => if isdigit c then atoiDigits (n * 10 + (Int16.ofNat c.toNat - 0x30)) s else n

/-- `atoi` -/
def atoi (s : List UInt8) : Int16 :=
  match s.dropWhile isspace with
  | 0x2d :: s => -atoiDigits 0 s
  | 0x2b :: s => atoiDigits 0 s
  | s => atoiDigits 0 s

/-- `strcasecmp(a, b) == 0` -/
def strcasecmpEq (a b : List UInt8) : Bool := a.map tolower == b.map tolower

/-- `strtok(s, ",")`: the token, and what the next call begins with. -/
def strtok (s : List UInt8) : Option (List UInt8 × List UInt8) :=
  let s := s.dropWhile (· == 0x2c)
  if s = [] then none else some (s.takeWhile (· != 0x2c), (s.dropWhile (· != 0x2c)).drop 1)

/-- The loop of `ax25call_from_string`, from character `i`; `ssid` says that
the `-` has been read. -/
def fromStringLoop : List UInt8 → ℕ → Bool → AX25Call → AX25Call
  | [], _, _, call => call
  | c :: buf, i, false, call =>
    if c = 0x2d then fromStringLoop buf (i + 1) true call
    -- an invalid call name is cut off
    else if 6 ≤ i then fromStringLoop buf (i + 1) false call
    else fromStringLoop buf (i + 1) false { call with call := call.call.setIfInBounds i (toupper c) }
  | c :: buf, i, true, call =>
    fromStringLoop buf (i + 1) true
      (if isdigit c then { call with ssid := call.ssid * 10 + (c - 0x30) } else call)

/-- `ax25call_from_string`; the length is a `uint8_t`. -/
def ax25callFromString (buf : List UInt8) : AX25Call :=
  fromStringLoop (buf.take (buf.length % 256)) 0 false ⟨.replicate 6 0, 0⟩

/-! ### A line -/

/-- The handlers that are registered. -/
inductive Command
  | call
  | path
  | reset
  | symbol
  | beacon
  | text
  | mode
  | kiss
deriving DecidableEq, Repr

/-- `cmdEntries`, after `console_init` and `init`. -/
def cmdEntries : List (List UInt8 × Command) :=
  [([0x43, 0x41, 0x4c, 0x4c], .call), ([0x50, 0x41, 0x54, 0x48], .path),
    ([0x52, 0x45, 0x53, 0x45, 0x54], .reset), ([0x53, 0x59, 0x4d, 0x42, 0x4f, 0x4c], .symbol),
    ([0x42, 0x45, 0x41, 0x43, 0x4f, 0x4e], .beacon), ([0x54, 0x45, 0x58, 0x54], .text),
    ([0x4d, 0x4f, 0x44, 0x45], .mode), ([0x4b, 0x49, 0x53, 0x53], .kiss)]

/-- `console_lookup_command` -/
def consoleLookupCommand (command : List UInt8) : Option Command :=
  (cmdEntries.find? fun e => strcasecmpEq command e.1).map Prod.snd

/-- The loop that looks for the `=`, for at most as many rounds as its index
has values: after that it is where it was. -/
def findEq (command : List UInt8) : ℕ → UInt8 → Option (Option ℕ)
  | 0, _ => none
  | n + 1, i =>
    if i.toNat < command.length then
      if command.getD i.toNat 0 = 0x3d then some (some i.toNat) else findEq command n (i + 1)
    else some none

/-- What a line is. -/
inductive Line
  /-- `!n`: send test packets. -/
  | test (command : List UInt8)
  /-- `?` or `??` -/
  | info
  | invalid
  | unknown
  /-- A command, with its value. -/
  | run (c : Command) (value : List UInt8)
deriving DecidableEq, Repr

/-- `AMODE KISS` -/
def amodeKiss : List UInt8 := [0x41, 0x4d, 0x4f, 0x44, 0x45, 0x20, 0x4b, 0x49, 0x53, 0x53]
/-- `KISS ON` -/
def kissOn : List UInt8 := [0x4b, 0x49, 0x53, 0x53, 0x20, 0x4f, 0x4e]

/-- The end of `console_parse_command`: the handler of the key. -/
def dispatch (key value : List UInt8) : Line :=
  match consoleLookupCommand key with
  | some c => .run c value
  | none => .unknown

/-- `console_parse_command`, up to the call of the handler. -/
def consoleParseCommand (command : List UInt8) : Option Line := do
  let ch i := command.getD i 0
  if command.length > 0 ∧ ch 0 = 0x21 then some (.test (command.drop 1))
  else if command.length = 1 ∧ ch 0 = 0x3f then some .info
  else if command.length = 2 ∧ ch 0 = 0x3f ∧ ch 1 = 0x3f then some .info
  else if command.length ≥ 6 ∧ (ch 0 = 0x41 ∨ ch 0 = 0x61) ∧ (ch 1 = 0x54 ∨ ch 1 = 0x74) ∧ ch 2 = 0x2b then
    match ← findEq command 256 3 with
    | some i => some (dispatch (cString ((command.take i).drop 3)) (cString (command.drop (i + 1))))
    | none => some .invalid
  -- the KISS commands of other TNCs
  else if command.length ≥ 10 ∧ strcasecmpEq (cString command) amodeKiss then
    some (dispatch (amodeKiss.drop 6) [0x31])
  else if command.length ≥ 7 ∧ strcasecmpEq (cString command) kissOn then
    some (dispatch (kissOn.take 4) [0x31])
  else some .invalid

/-! ### The settings commands -/

/-- What the settings commands work on: `g_settings` and the EEPROM. -/
structure Store where
  settings : SettingsData
  eeprom : Eeprom

/-- `settings_save`, of what is in the store. -/
def Store.save (s : Store) : Option Store := do
  let ee ← settingsSave s.settings s.eeprom
  some { s with eeprom := ee }

/-- `valueLen` of `console_parse_command`, a `uint8_t`. -/
def valueLen (value : List UInt8) : ℕ := value.length % 256

/-- `cmd_settings_mycall` -/
def cmdSettingsMycall (s : Store) (value : List UInt8) : Store :=
  let calldata := settingsGetCallData s.eeprom
  if valueLen value > 0 then
    { s with eeprom := settingsSetCallData s.eeprom { calldata with myCall := ax25callFromString value } }
  else s

/-- `cmd_settings_path` -/
def cmdSettingsPath (s : Store) (value : List UInt8) : Store :=
  let calldata := settingsGetCallData s.eeprom
  if valueLen value > 0 then
    match strtok value with
    | none => s
    | some (path1, rest) =>
      -- no path2: an empty call object
      let path2 := match strtok rest with
        | some (path2, _) =>
          if path2.length % 256 > 0 then ax25callFromString path2 else ⟨.replicate 6 0, 0⟩
        | none => ⟨.replicate 6 0, 0⟩
      if path1.length % 256 > 0 then
        { s with eeprom := settingsSetCallData s.eeprom
                  { calldata with path1 := ax25callFromString path1, path2 := path2 } }
      else s
  else s

/-- `cmd_settings_reset`: the store, and whether it ends in `soft_reset`. -/
def cmdSettingsReset (s : Store) (value : List UInt8) : Store × Bool :=
  if valueLen value > 0 ∧ (value.getD 0 0 = 0x31 ∨ value.getD 0 0 = 0x32) then
    (if value.getD 0 0 = 0x32 then { s with eeprom := settingsClear s.eeprom } else s, true)
  else (s, false)

/-- `settings_set_params(SETTINGS_SYMBOL, ..)` -/
def SettingsData.setSymbol (g : SettingsData) (c₀ c₁ : UInt8) : SettingsData :=
  { g with beacon.symbol := (c₀, c₁) }

/-- `settings_set_params(SETTINGS_RUN_MODE, ..)` -/
def SettingsData.setRunMode (g : SettingsData) (m : UInt8) : SettingsData := { g with runMode := m }

/-- `settings_set_params(SETTINGS_BEACON_INTERVAL, ..)` -/
def SettingsData.setInterval (g : SettingsData) (i : UInt16) : SettingsData := { g with beacon.interval := i }

/-- `cmd_settings_symbol` -/
def cmdSettingsSymbol (s : Store) (value : List UInt8) : Option Store :=
  if valueLen value ≥ 2 then
    Store.save { s with settings := s.settings.setSymbol (value.getD 0 0) (value.getD 1 0) }
  else some s

/-- `cmd_settings_beacon_text` -/
def cmdSettingsBeaconText (s : Store) (value : List UInt8) : Store :=
  if valueLen value > 0 then
    { s with eeprom := settingsSetBeaconText s.eeprom value (UInt8.ofNat (valueLen value)) }
  else s

/-- `cmd_settings_beacon_interval` -/
def cmdSettingsBeaconInterval (s : Store) (value : List UInt8) : Option Store :=
  if valueLen value > 0 then
    Store.save { s with settings := s.settings.setInterval ((atoi value).toUInt16 &&& 0xffff) }
  else some s

/-! ### The search for the `=` -/

theorem findEq_isSome {command : List UInt8} (hlen : command.length ≤ 255) : ∀ (n : ℕ) (i : UInt8),
    i.toNat ≤ command.length → command.length < i.toNat + n → (findEq command n i).isSome = true
  | 0, i, h1, h2 => by omega
  | n + 1, i, h1, h2 => by
    unfold findEq
    split_ifs with hi heq
    · rfl
    · have hnext : (i + 1).toNat = i.toNat + 1 := Cells.toNat_succ (by omega)
      exact findEq_isSome hlen n (i + 1) (by omega) (by omega)
    · rfl

theorem consoleParseCommand_isSome {command : List UInt8} (hlen : command.length ≤ 255) :
    (consoleParseCommand command).isSome = true := by
  unfold consoleParseCommand
  dsimp only
  split_ifs with h1 h2 h3 h4
  · rfl
  · rfl
  · rfl
  · have hfind := findEq_isSome hlen 256 3 (by show 3 ≤ command.length; omega) (by show _ < 3 + 256; omega)
    obtain ⟨r, hr⟩ := Option.isSome_iff_exists.mp hfind
    rw [hr]
    cases r with
    | none => rfl
    | some i => rfl
  · rfl
  · rfl
  · rfl

end TinyAprs
