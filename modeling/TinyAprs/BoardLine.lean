/-
# The serial line of a board

What comes in from the serial port while a board runs. The bytes come by
interrupts between any two events, and a round of the main loop takes one of
them, in each of its modes (`taken`). The port loses bytes in two ways only: an
interrupt may fail (`NoneFails`), and entering a mode may purge it (`Unpurged`).
Without these, what was taken and what is still in the port is what was in it
and what has come in since (`accounts_run`).
-/
import TinyAprs.Main

namespace TinyAprs

open Mealy

/-! ### The mode in a run -/

/-- As long as the board runs it is in this mode. -/
def StaysIn (mode : RunMode) : Option Board → List BoardEvent → Prop
  | none, _ => True
  | some b, [] => b.currentMode = mode
  | some b, ev :: es => b.currentMode = mode ∧ StaysIn mode (boardStep (some b) ev).1 es

theorem staysIn_none (mode : RunMode) (es : List BoardEvent) : StaysIn mode none es := by
  cases es with
  | nil => trivial
  | cons ev es => trivial

instance decidableStaysIn (mode : RunMode) : ∀ (o : Option Board) (es : List BoardEvent), Decidable (StaysIn mode o es)
  | none, es => isTrue (staysIn_none mode es)
  | some b, [] => inferInstanceAs (Decidable (b.currentMode = mode))
  | some b, ev :: es =>
    have := decidableStaysIn mode (boardStep (some b) ev).1 es
    inferInstanceAs (Decidable (b.currentMode = mode ∧ StaysIn mode (boardStep (some b) ev).1 es))

variable {b b' : Board} {m : RunMode}

theorem StaysIn.mode {es : List BoardEvent} (h : StaysIn m (some b) es) : b.currentMode = m := by
  cases es with
  | nil => exact h
  | cons ev es => exact h.1

theorem init_mode {ee : Eeprom} (hb : Board.init ee = some b) : b.currentMode = .cfg := by
  obtain ⟨r, -, hb⟩ := Option.bind_eq_some_iff.mp hb
  obtain rfl := Option.some.inj hb
  rfl

/-- What `check_run_mode` passes on for a stored mode is the number of that
mode; what is no number counts as 0. -/
theorem val_of_modeCase : ∀ runMode : UInt8, ∀ m ∈ modeCase (atoi (cString [runMode + 48])),
    m.val = runMode ∨ (m = .cfg ∧ 3 < runMode) := by
  decide +kernel

/-- A check either leaves the board as it is, but for its clock, or leaves the
mode. It may enter `CFG` again, where the stored mode is none. -/
theorem checkRunMode_stays (hmode : b.currentMode ≠ .cfg ∨ b.tnc.settings.runMode ≤ 3) {now : Int32}
    (hb : checkRunMode b now = some b') :
    b'.currentMode ≠ b.currentMode ∨ ∃ start, b' = { b with start := start } := by
  unfold checkRunMode at hb
  split_ifs at hb with hsame
  · obtain rfl := Option.some.inj hb
    exact Or.inr ⟨_, rfl⟩
  · obtain rfl := Option.some.inj hb
    exact Or.inr ⟨_, rfl⟩
  · have henter : ∀ m, modeCase (atoi (cString [b.tnc.settings.runMode + 48])) = some m →
        (b.enter m).currentMode ≠ b.currentMode := by
      intro m hm hstays
      rw [(b.enter_spec (ne_testBeacon_of_modeCase hm)).1] at hstays
      rw [← hstays] at hsame hmode
      rcases val_of_modeCase _ m hm with hval | ⟨hcfg, hlarge⟩
      · exact hsame hval
      · exact hmode.elim (fun hne => hne hcfg) fun hle => UInt8.not_lt.mpr hle hlarge
    unfold cmdSwitchMode at hb
    dsimp only at hb
    rw [if_pos Nat.one_pos] at hb
    split_ifs at hb
    · obtain rfl := Option.some.inj hb
      exact Or.inr ⟨_, rfl⟩
    · split at hb
      · obtain rfl := Option.some.inj hb
        exact Or.inr ⟨_, rfl⟩
      · rename_i m hm
        split_ifs at hb
        · obtain ⟨s, -, rfl⟩ := Option.map_eq_some_iff.mp hb
          exact Or.inl (henter m hm)
        · obtain rfl := Option.some.inj hb
          exact Or.inl (henter m hm)
  · obtain rfl := Option.some.inj hb
    exact Or.inr ⟨_, rfl⟩

/-- What is heard goes to the modem and to the digipeater. -/
theorem hear_changes (heard : List Heard) (b : Board) :
    ∃ modem digi, final Board.hear b heard = { b with tnc.modem := modem, digi := digi } := by
  have hhook : ∀ (clock : Clock) (calls : List HookCall) (b : Board), ∃ modem digi,
      calls.foldl (fun b call => b.hook clock call) b = { b with tnc.modem := modem, digi := digi } := by
    intro clock calls b
    induction calls generalizing b with
    | nil => exact ⟨b.tnc.modem, b.digi, rfl⟩
    | cons call calls ih =>
      have hone : ∃ modem digi, b.hook clock call = { b with tnc.modem := modem, digi := digi } := by
        unfold Board.hook
        split
        · exact ⟨_, _, rfl⟩
        · exact ⟨b.tnc.modem, b.digi, rfl⟩
      obtain ⟨modem, digi, hcall⟩ := hone
      obtain ⟨modem', digi', hcalls⟩ := ih (b.hook clock call)
      rw [List.foldl_cons, hcalls, hcall]
      exact ⟨modem', digi', rfl⟩
  induction heard generalizing b with
  | nil => exact ⟨b.tnc.modem, b.digi, rfl⟩
  | cons h heard ih =>
    obtain ⟨modem, digi, hfirst⟩ := hhook h.clock (ax25PollChar h.stk b.tnc.modem h.char).2
      { b with tnc.modem := (ax25PollChar h.stk b.tnc.modem h.char).1 }
    obtain ⟨modem', digi', hrest⟩ := ih (b.hear h).1
    rw [final_cons, hrest, show (b.hear h).1 = _ from hfirst]
    exact ⟨modem', digi', rfl⟩

theorem hear_keeps (heard : List Heard) (b : Board) : (final Board.hear b heard).currentMode = b.currentMode ∧
    (final Board.hear b heard).side = b.side ∧ (final Board.hear b heard).tnc.store = b.tnc.store := by
  obtain ⟨modem, digi, hheard⟩ := hear_changes heard b
  rw [hheard]
  exact ⟨rfl, rfl, rfl⟩

theorem staysIn_poll (heard : List Heard) (error : Bool) (hmode : b.currentMode = m) :
    StaysIn m (some b) [.poll heard error] :=
  ⟨hmode, (hear_keeps heard b).1.trans hmode⟩

/-! ### The bytes -/

/-- What comes in from the serial port. -/
def BoardEvent.received : BoardEvent → List UInt8
  | .rx _ udr0 => [udr0]
  | .poll _ _ => []
  | .check _ => []
  | .turn _ => []

/-- The byte that a round of the main loop takes. -/
def Board.takes (b : Board) : Option UInt8 := if b.currentMode = .testBeacon then none else (serGetchar b.side.ser).1

/-- An event, with the byte it takes and the time it has then. -/
def takeStep : Option Board → BoardEvent → Option Board × List (Int32 × UInt8)
  | none, ev => ((boardStep none ev).1, [])
  | some b, ev => ((boardStep (some b) ev).1, match ev with
    | .rx _ _ => []
    | .poll _ _ => []
    | .check _ => []
    | .turn x => (b.takes.map (x.now, ·)).toList)

def taken (b : Board) (es : List BoardEvent) : List (Int32 × UInt8) := outs takeStep (some b) es

theorem taken_cons (b : Board) (ev : BoardEvent) (es : List BoardEvent) :
    taken b (ev :: es) = (takeStep (some b) ev).2 ++ outs takeStep (boardStep (some b) ev).1 es := rfl

/-- No interrupt of the serial port fails. -/
def NoneFails : Option Board → List BoardEvent → Prop
  | _, [] => True
  | none, _ :: _ => True
  | some b, .rx ucsr0a udr0 :: es =>
    rxFails b.side.ser ucsr0a = false ∧ NoneFails (boardStep (some b) (.rx ucsr0a udr0)).1 es
  | some b, ev :: es => NoneFails (boardStep (some b) ev).1 es

instance decidableNoneFails : ∀ (o : Option Board) (es : List BoardEvent), Decidable (NoneFails o es)
  | none, [] | some _, [] | none, _ :: _ => isTrue trivial
  | some b, .rx ucsr0a udr0 :: es =>
    have := decidableNoneFails (boardStep (some b) (.rx ucsr0a udr0)).1 es
    inferInstanceAs (Decidable (_ = false ∧ NoneFails (boardStep (some b) (.rx ucsr0a udr0)).1 es))
  | some b, .poll heard error :: es => decidableNoneFails (boardStep (some b) (.poll heard error)).1 es
  | some b, .check now :: es => decidableNoneFails (boardStep (some b) (.check now)).1 es
  | some b, .turn x :: es => decidableNoneFails (boardStep (some b) (.turn x)).1 es

theorem NoneFails.rest {ev : BoardEvent} {es : List BoardEvent} (h : NoneFails (some b) (ev :: es)) :
    NoneFails (boardStep (some b) ev).1 es := by
  cases ev with
  | rx ucsr0a udr0 => exact h.2
  | poll heard error => exact h
  | check now => exact h
  | turn x => exact h

/-! ### The port -/

/-- What an event makes of the serial port and the reader, if it does not enter
a mode. -/
def Board.sideAfter (b : Board) : BoardEvent → SerialSide
  | .rx ucsr0a udr0 => { b.side with ser := usart0Rx b.side.ser ucsr0a udr0 }
  | .poll _ _ => b.side
  | .check _ => b.side
  | .turn x =>
    match b.currentMode with
    | .cfg => (serialreaderReadline b.side).1
    | .digi => (serialreaderReadline b.side).1
    | .tracker => (serialreaderReadline b.side).1
    | .kiss => (kissPoll (b.handle x.turns) b.side x.now).1
    | .testBeacon => b.side

/-- No event of the run enters a mode. -/
def Unpurged : Option Board → List BoardEvent → Prop
  | _, [] => True
  | none, _ :: _ => True
  | some b, ev :: es =>
    (∀ b', (boardStep (some b) ev).1 = some b' → b'.side = b.sideAfter ev) ∧ Unpurged (boardStep (some b) ev).1 es

theorem Unpurged.cons {ev : BoardEvent} {es : List BoardEvent} (hb : (boardStep (some b) ev).1 = some b')
    (hside : b'.side = b.sideAfter ev) (h : Unpurged (some b') es) : Unpurged (some b) (ev :: es) := by
  refine ⟨fun b₁ hb₁ => ?_, by rw [hb]; exact h⟩
  obtain rfl := Option.some.inj (hb.symm.trans hb₁)
  exact hside

theorem unpurged_stop {ev : BoardEvent} (hb : (boardStep (some b) ev).1 = none) (es : List BoardEvent) :
    Unpurged (some b) (ev :: es) := by
  refine ⟨fun b₁ hb₁ => absurd (hb.symm.trans hb₁) nofun, ?_⟩
  rw [hb]
  cases es with
  | nil => trivial
  | cons ev es => trivial

/-- `ser_getchar` takes the first byte, or nothing. -/
theorem getchar_takes (s : Serial) :
    s.rxfifo.contents = (serGetchar s).1.toList ++ (serGetchar s).2.rxfifo.contents := by
  unfold serGetchar
  cases hempty : s.rxfifo.isempty with
  | true => rfl
  | false =>
    by_cases herr : s.status &&& serrfRx ≠ 0
    · simp [herr]
    · simp only [herr, Bool.false_eq_true, if_false]
      exact FIFOBuffer.contents_pop hempty

theorem rx_queues {s : Serial} {ucsr0a : UInt8} (hok : rxFails s ucsr0a = false) (udr0 : UInt8) :
    (usart0Rx s ucsr0a udr0).rxfifo.contents = s.rxfifo.contents ++ [udr0] := by
  have hroom : s.rxfifo.isfull = false := (Bool.or_eq_false_iff.mp hok).2
  unfold usart0Rx
  dsimp only
  rw [hroom, if_neg (by decide)]
  exact FIFOBuffer.contents_push hroom udr0

/-- A round takes a byte from the port, in any mode that reads it. -/
theorem sideAfter_turn (b : Board) (x : Input) : (b.takes = none ∧ (b.sideAfter (.turn x)).ser = b.side.ser) ∨
    (b.takes = (serGetchar b.side.ser).1 ∧ (b.sideAfter (.turn x)).ser = (serGetchar b.side.ser).2) := by
  unfold Board.takes Board.sideAfter
  cases b.currentMode with
  | cfg | digi | tracker => exact Or.inr ⟨rfl, readline_ser b.side⟩
  | kiss => exact Or.inr ⟨rfl, kissPoll_ser _ b.side x.now⟩
  | testBeacon => exact Or.inl ⟨rfl, rfl⟩

/-- What is taken and what is left are what was there and what came in. -/
theorem accounts_event {ev : BoardEvent} {es : List BoardEvent} (hok : NoneFails (some b) (ev :: es)) :
    (takeStep (some b) ev).2.map Prod.snd ++ (b.sideAfter ev).ser.rxfifo.contents =
      b.side.ser.rxfifo.contents ++ ev.received := by
  cases ev with
  | rx ucsr0a udr0 => exact rx_queues hok.1 udr0
  | poll heard error => exact (List.append_nil _).symm
  | check now => exact (List.append_nil _).symm
  | turn x =>
    have htake : (takeStep (some b) (.turn x)).2.map Prod.snd = b.takes.toList := by
      show ((b.takes.map (x.now, ·)).toList).map Prod.snd = _
      cases b.takes <;> rfl
    rw [htake, BoardEvent.received, List.append_nil]
    rcases sideAfter_turn b x with ⟨htakes, hser⟩ | ⟨htakes, hser⟩
    · rw [htakes, hser]
      rfl
    · rw [htakes, hser]
      exact (getchar_takes b.side.ser).symm

theorem accounts_run (es : List BoardEvent) (hline : Unpurged (some b) es) (hok : NoneFails (some b) es)
    (hb : final boardStep (some b) es = some b') :
    (taken b es).map Prod.snd ++ b'.side.ser.rxfifo.contents =
      b.side.ser.rxfifo.contents ++ es.flatMap BoardEvent.received := by
  induction es generalizing b with
  | nil =>
    obtain rfl := Option.some.inj hb
    exact (List.append_nil _).symm
  | cons ev es ih =>
    have hbytes := accounts_event hok
    obtain ⟨hside, hrest⟩ := hline
    have hok' := hok.rest
    rw [final_cons] at hb
    rw [taken_cons, List.flatMap_cons, List.map_append]
    cases hb₁ : (boardStep (some b) ev).1 with
    | none =>
      rw [hb₁, (outs_stopped boardStep (fun _ => rfl) es).1] at hb
      cases hb
    | some b₁ =>
      rw [hb₁] at hb hrest hok'
      rw [← hside b₁ hb₁] at hbytes
      rw [List.append_assoc, ← taken, ih hrest hok' hb, ← List.append_assoc, hbytes, List.append_assoc]

/-- A board as it is after power-up. -/
def bootedBoard : Board where
  currentMode := .cfg
  start := 0
  tnc := ⟨gSettings, blankEeprom, { ax25Init true with passThrough := false }⟩
  side := serialBoot
  digi := digiInit
  beacon := beaconInit
  tracker := trackerInit

end TinyAprs
