/-
# The main loop

The model of `main.c`, in the build with all modules: the run modes, the
commands and the timer that switch between them, and the loop. A round of the
loop polls the modem, checks the run mode, and then does what the mode asks
for: read the console, the KISS line or the GPS, and beacon. These are the
events of a `Board`, with the serial port's receive interrupt between them;
the loop takes them in a fixed order, and everything here holds for any order.

A call that does not come back stops the board (`none`); `soft_reset` starts
it again from the EEPROM. What goes out to the serial line and to the radio is
left out here, and so is what the parser writes into a line it has read: no
byte of the reader's buffer is read again before it is stored anew.
-/
import TinyAprs.Beacon
import TinyAprs.BeaconSend
import TinyAprs.CallStore
import TinyAprs.Serial
import TinyAprs.Tracker

namespace TinyAprs

open Mealy

/-- `RunMode` -/
inductive RunMode
  | cfg
  | kiss
  | tracker
  | digi
  | testBeacon
deriving DecidableEq, Repr

def RunMode.val : RunMode → UInt8
  | .cfg => 0
  | .kiss => 1
  | .tracker => 2
  | .digi => 3
  | .testBeacon => 0xf

/-- The firmware's state: `currentMode`, `start` of `check_run_mode`, and the
modules. -/
structure Board where
  currentMode : RunMode
  start : Int32
  tnc : Tnc
  side : SerialSide
  digi : DigiCache
  beacon : Beacon
  tracker : Tracker

/-- `init`, with `currentMode` as it is at power-up. -/
def Board.init (ee : Eeprom) : Option Board := do
  let (_, g, ee) ← settingsLoad gSettings ee
  some {
    currentMode := .cfg
    start := 0
    tnc := ⟨g, ee, { ax25Init true with passThrough := false }⟩
    side := serialBoot
    digi := digiInit
    beacon := beaconInit
    tracker := trackerInit }

/-- A board after a console command. -/
def Board.withStore (b : Board) (s : Store) : Board := { b with tnc := b.tnc.withStore s }

/-! ### Switching the mode -/

/-- A `uint8_t` promoted to `int`. -/
def promote (x : UInt8) : Int16 := Int16.ofNat x.toNat

/-- The cases of the switch in `cmd_switch_mode`. -/
def modeCase (i : Int16) : Option RunMode :=
  if i = 0 then some .cfg
  else if i = 1 then some .kiss
  else if i = 2 then some .tracker
  else if i = 3 then some .digi
  else none

theorem modeCase_ne {i : Int16} : modeCase i ≠ some .testBeacon := by
  unfold modeCase
  split_ifs <;> decide

theorem ne_testBeacon_of_modeCase {i : Int16} {m : RunMode} (h : modeCase i = some m) : m ≠ .testBeacon := by
  rintro rfl
  exact modeCase_ne h

/-- What a case of the switch does. -/
def Board.enter (b : Board) : RunMode → Board
  | .cfg => { b with
      currentMode := .cfg
      tnc.modem.passThrough := false
      side.ser := serPurgeRx b.side.ser }
  | .kiss => { b with
      currentMode := .kiss
      tnc.modem.passThrough := true
      side.ser := serPurgeRx b.side.ser }
  -- `pass_through` stays as it is
  | .tracker => { b with
      currentMode := .tracker
      side := serialreaderReset { b.side with ser := serPurgeRx b.side.ser } }
  | .digi => { b with currentMode := .digi, tnc.modem.passThrough := false }
  | .testBeacon => b

/-- A case of the switch sets the mode, and leaves the settings. -/
theorem Board.enter_spec (b : Board) {m : RunMode} (hm : m ≠ .testBeacon) :
    (b.enter m).currentMode = m ∧ (b.enter m).tnc.settings = b.tnc.settings ∧
      (b.enter m).tnc.eeprom = b.tnc.eeprom := by
  cases m with
  | testBeacon => exact absurd rfl hm
  | cfg | kiss | tracker | digi => exact ⟨rfl, rfl, rfl⟩

/-- The mode goes into `run_mode`, and the settings are saved. -/
def Board.saveRunMode (b : Board) : Option Board :=
  (Store.save { b.tnc.store with settings := b.tnc.settings.setRunMode b.currentMode.val }).map b.withStore

/-- `cmd_switch_mode` -/
def cmdSwitchMode (b : Board) (value : List UInt8) (len : ℕ) : Option Board :=
  if len > 0 then
    let i := atoi value
    -- already in this mode, bail out
    if i = promote b.currentMode.val ∧ i = promote b.tnc.settings.runMode then some b
    else match modeCase i with
      | none => some b
      | some m =>
        let b := b.enter m
        if b.currentMode.val ≠ b.tnc.settings.runMode then b.saveRunMode else some b
  else some b

/-- `cmd_enter_kiss_mode` -/
def cmdEnterKissMode (b : Board) : Option Board := cmdSwitchMode b [0x31] 1

/-- `check_run_mode`; the mode is passed on as a string of one character,
which is empty if that is a NUL. -/
def checkRunMode (b : Board) (now : Int32) : Option Board :=
  if b.currentMode.val = b.tnc.settings.runMode then some b
  else if b.start = 0 then some { b with start := now }
  else if now - b.start > msToTicks 10000 then cmdSwitchMode b (cString [b.tnc.settings.runMode + 48]) 1
  else some b

/-! ### The modem -/

/-- A call of `ax25_msg_callback`, and the mode it is made in. -/
structure Hooked where
  mode : RunMode
  call : HookCall

/-- What `ax25_msg_callback` does to the board: a message goes to the
digipeater in its mode; in the others it goes to the serial line or nowhere. -/
def Board.hook (b : Board) (clock : Clock) (call : HookCall) : Board :=
  match b.currentMode, call.msg with
  | .digi, some msg =>
    let r := digiHandleAprsMessage b.digi b.tnc.eeprom b.tnc.modem clock msg
    { b with digi := r.digi, tnc.modem := r.modem }
  | _, _ => b

/-- A character from the modem, with what a message's memory holds before it
is decoded, and the clock in case the digipeater reads it. -/
structure Heard where
  char : UInt8
  stk : AX25Msg
  clock : Clock

/-- The loop body of `ax25_poll`, with the hook called in it. -/
def Board.hear (b : Board) (h : Heard) : Board × List Hooked :=
  let r := ax25PollChar h.stk b.tnc.modem h.char
  (r.2.foldl (fun b call => b.hook h.clock call) { b with tnc.modem := r.1 },
    r.2.map fun call => ⟨b.currentMode, call⟩)

/-- `ax25_poll`, as the main loop calls it. -/
def Board.poll (b : Board) (heard : List Heard) (error : Bool) : Board × List Hooked :=
  let b' := final Board.hear b heard
  ({ b' with tnc.modem := (ax25Poll zeroMsg b'.tnc.modem [] error).1 }, outs Board.hear b heard)

/-! ### The console -/

/-- A line's command: the board after it, and whether it has restarted. -/
def Board.command (b : Board) : Line → Option (Board × Bool)
  | .test command => some ({ b with tnc := (cmdTestSend b.tnc command).1 }, false)
  | .info => some (b, false)
  | .invalid => some (b, false)
  | .unknown => some (b, false)
  | .run .call value => some (b.withStore (cmdSettingsMycall b.tnc.store value), false)
  | .run .path value => some (b.withStore (cmdSettingsPath b.tnc.store value), false)
  | .run .reset value =>
    let r := cmdSettingsReset b.tnc.store value
    if r.2 then (Board.init r.1.eeprom).map (·, true) else some (b.withStore r.1, false)
  | .run .symbol value => (cmdSettingsSymbol b.tnc.store value).map (b.withStore ·, false)
  | .run .beacon value => (cmdSettingsBeaconInterval b.tnc.store value).map (b.withStore ·, false)
  | .run .text value => some (b.withStore (cmdSettingsBeaconText b.tnc.store value), false)
  | .run .mode value => (cmdSwitchMode b value (valueLen value)).map (·, false)
  | .run .kiss _ => (cmdEnterKissMode b).map (·, false)

/-- The line that `serialreader_readline` returned. -/
def SerialSide.line (s : SerialSide) (n : ℕ) : List UInt8 := Cells.slice s.kiss.reader.buf 0 n

/-- `console_poll` -/
def consolePoll (b : Board) : Option (Board × Bool) := do
  let r := serialreaderReadline b.side
  let b := { b with side := r.1 }
  if r.2 > 0 then
    let line ← consoleParseCommand (r.1.line r.2)
    b.command line
  else some (b, false)

/-- `beacon_broadcast_poll`, with what it sends. -/
def Board.beaconPoll (b : Board) (t : PollTime) : Board :=
  let r := beaconBroadcastPoll b.tnc.settings.beacon.interval b.beacon t
  { b with beacon := r.1, tnc := if r.2 then (sendFixedText b.tnc).1 else b.tnc }

/-- The console and the beacon, in the modes that have them. -/
def Board.consoleTurn (b : Board) (t : PollTime) : Option Board := do
  let (b, restarted) ← consolePoll b
  some (if restarted then b else b.beaconPoll t)

/-! ### The GPS and the KISS line -/

/-- `tracker_poll`; `fix` is what `gps_parse` makes of the line, with the
payload for it. `BoardTracker` puts there what `TrackerLine` computes. -/
def trackerPoll (b : Board) (fix : Option (Fix × List UInt8)) : Board :=
  let r := serialreaderReadline b.side
  let b := { b with side := r.1 }
  match fix with
  | some (f, payload) =>
    if r.2 > 0 then
      let q := trackerUpdateLocation b.tracker f
      { b with tracker := q.1, tnc := if q.2 then (beaconSend b.tnc payload).1 else b.tnc }
    else b
  | none => b

/-- What `kiss_handle_frame` leaves in the buffer. -/
def Board.handle (b : Board) (turns : List Turn) (buf : ℕ → UInt8) (n : ℕ) : ℕ → UInt8 :=
  b.tnc.leaves turns buf n

/-- `kiss_poll`, with the frames handled. -/
def Board.kissTurn (b : Board) (now : Int32) (turns : List Turn) : Option Board :=
  let r := kissPoll (b.handle turns) b.side now
  match r.2 with
  | [] => some { b with side := r.1 }
  | h :: _ => do
    let e ← kissHandleFrame b.tnc turns h
    if e.reset then Board.init e.tnc.eeprom else some { b with side := r.1, tnc := e.tnc }

/-- The hook calls while `csmaBusy` waits. -/
def csmaBusyCalls (modem : AX25Ctx) : List Poll → List HookCall
  | [] => []
  | p :: ps =>
    let r := ax25Poll p.stk modem p.chars p.error
    r.2 ++ if p.status then [] else csmaBusyCalls r.1 ps

/-- The hook calls of the CSMA loop, also if it goes on waiting. -/
def csmaCalls (persistence : UInt8) (modem : AX25Ctx) : List Turn → List HookCall
  | [] => []
  | .idle i :: turns => if csmaTp i < persistence then [] else csmaCalls persistence modem turns
  | .busy polls :: turns =>
    let r := csmaBusy modem polls
    csmaBusyCalls modem polls ++ if r.2.2 then [] else csmaCalls persistence r.1 turns

/-- A frame that goes to `kiss_send_to_modem`. -/
def Handed.isData (h : Handed) : Bool :=
  decide (2 ≤ h.size) && !decide (h.bytes.getD 0 0 >>> 4 &&& 0x0f > 0) &&
    h.bytes.getD 0 0 &&& 0x0f == kissCmdData

theorem isData_iff (h : Handed) : h.isData = true ↔
    2 ≤ h.size ∧ ¬ h.bytes.getD 0 0 >>> 4 &&& 0x0f > 0 ∧ h.bytes.getD 0 0 &&& 0x0f = kissCmdData := by
  unfold Handed.isData
  rw [Bool.and_eq_true, Bool.and_eq_true, Bool.not_eq_true', decide_eq_true_iff, decide_eq_false_iff_not,
    beq_iff_eq, and_assoc]

/-- The hook calls while `kiss_handle_frame` runs. -/
def kissCalls (t : Tnc) (turns : List Turn) (h : Handed) : List HookCall :=
  if h.isData ∧ t.settings.rf.duplex ≠ rfDuplexFull then csmaCalls t.settings.rf.persistence t.modem turns
  else []

/-! ### The loop -/

/-- What a round of the loop finds in the mode's own part: the clock, the
channel if a frame is sent, the clock of the beacon, and the GPS. -/
structure Input where
  now : Int32
  turns : List Turn
  times : PollTime
  fix : Option (Fix × List UInt8)

/-- The switch of the main loop. -/
def Board.turn (b : Board) (x : Input) : Option Board × List Hooked :=
  match b.currentMode with
  | .cfg => (b.consoleTurn x.times, [])
  | .digi => (b.consoleTurn x.times, [])
  | .tracker => (some (trackerPoll b x.fix), [])
  | .kiss =>
    (b.kissTurn x.now x.turns,
      ((kissPoll (b.handle x.turns) b.side x.now).2.flatMap (kissCalls b.tnc x.turns)).map fun call =>
        ⟨b.currentMode, call⟩)
  | .testBeacon => (some b, [])

/-- The events: an interrupt of the serial port, and the three parts of a
round. -/
inductive BoardEvent
  | rx (ucsr0a udr0 : UInt8)
  | poll (heard : List Heard) (error : Bool)
  | check (now : Int32)
  | turn (x : Input)

/-- An event, with the hook calls it makes. -/
def boardStep : Option Board → BoardEvent → Option Board × List Hooked
  | none, _ => (none, [])
  | some b, .rx ucsr0a udr0 => (some { b with side.ser := usart0Rx b.side.ser ucsr0a udr0 }, [])
  | some b, .poll heard error => (some (b.poll heard error).1, (b.poll heard error).2)
  | some b, .check now => (checkRunMode b now, [])
  | some b, .turn x => b.turn x

/-- The board after the events, from a start with any EEPROM. -/
def boardRun (ee : Eeprom) (es : List BoardEvent) : Option Board := final boardStep (Board.init ee) es

def boardCalls (ee : Eeprom) (es : List BoardEvent) : List Hooked := outs boardStep (Board.init ee) es

/-- An EEPROM that was never written. -/
def blankEeprom : Eeprom := fun _ => 0xFF

end TinyAprs
