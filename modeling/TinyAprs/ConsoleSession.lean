/-
# A session at the console

Lines are typed at a board while it runs: the bytes come by interrupts, between
messages that it hears or repeats, beacons, and checks of its mode. What is left
of all this in the settings and the EEPROM is what the typed lines make of them,
one after the other (`runLine`): no line is lost, run twice or moved, and nothing
but the lines changes them (`session_stores`).

The lines that switch the mode or restart the board are left out, as they end
the session. In `CFG` the stored mode has to be the number of one: with any other
number `check_run_mode` enters `CFG` again every time it comes by, and purges the
port.
-/
import TinyAprs.BoardLine
import TinyAprs.LoopBounds
import TinyAprs.ReadLine
import TinyAprs.Restart

namespace TinyAprs

open Lines Mealy

/-! ### What a line does -/

/-- A line that does not end the session. -/
def Line.stays : Line → Bool
  | .run .mode _ => false
  | .run .kiss _ => false
  | .run .reset _ => false
  | .run .call _ => true
  | .run .path _ => true
  | .run .symbol _ => true
  | .run .beacon _ => true
  | .run .text _ => true
  | .test _ => true
  | .info => true
  | .invalid => true
  | .unknown => true

/-- What its command does to the settings and the EEPROM. -/
def lineStore (s : Store) : Line → Option Store
  | .run .call value => some (cmdSettingsMycall s value)
  | .run .path value => some (cmdSettingsPath s value)
  | .run .symbol value => cmdSettingsSymbol s value
  | .run .beacon value => cmdSettingsBeaconInterval s value
  | .run .text value => some (cmdSettingsBeaconText s value)
  | .run .mode _ => some s
  | .run .kiss _ => some s
  | .run .reset _ => some s
  | .test _ => some s
  | .info => some s
  | .invalid => some s
  | .unknown => some s

/-- A line as it is typed. -/
def runLine (s : Store) (line : List UInt8) : Option Store := (consoleParseCommand line).bind (lineStore s)

/-- The line does not end the session. -/
def Plain (line : List UInt8) : Prop := ∀ l ∈ consoleParseCommand line, l.stays = true

instance (line : List UInt8) : Decidable (Plain line) :=
  decidable_of_iff ((consoleParseCommand line).all Line.stays = true) (by simp [Plain, Option.all_eq_true])

variable {b b' : Board} {s s' : Store}

theorem save_settings (h : s.save = some s') : s'.settings = s.settings := by
  unfold Store.save at h
  obtain ⟨ee, -, h⟩ := Option.bind_eq_some_iff.mp h
  obtain rfl := Option.some.inj h
  rfl

theorem lineStore_runMode {l : Line} (h : lineStore s l = some s') : s'.settings.runMode = s.settings.runMode := by
  cases l with
  | test | info | invalid | unknown =>
    obtain rfl := Option.some.inj h
    rfl
  | run c value =>
    cases c with
    | call =>
      obtain rfl := Option.some.inj h
      rw [(cmdSettingsMycall_beside s value).1]
    | path =>
      obtain rfl := Option.some.inj h
      rw [(cmdSettingsPath_beside s value).1]
    | text =>
      obtain rfl := Option.some.inj h
      rw [(cmdSettingsBeaconText_beside s value).1]
    | symbol =>
      have hsymbol : cmdSettingsSymbol s value = some s' := h
      unfold cmdSettingsSymbol at hsymbol
      split_ifs at hsymbol
      · rw [save_settings hsymbol]
        rfl
      · obtain rfl := Option.some.inj hsymbol
        rfl
    | beacon =>
      have hinterval : cmdSettingsBeaconInterval s value = some s' := h
      unfold cmdSettingsBeaconInterval at hinterval
      split_ifs at hinterval
      · rw [save_settings hinterval]
        rfl
      · obtain rfl := Option.some.inj hinterval
        rfl
    | mode | kiss | reset =>
      obtain rfl := Option.some.inj h
      rfl

/-- A command on the board does to the store what it does to the store alone, and
leaves the mode and the port. -/
theorem command_store {l : Line} (hstays : l.stays = true) {r : Board × Bool} (hr : b.command l = some r) :
    r.2 = false ∧ r.1.currentMode = b.currentMode ∧ r.1.side = b.side ∧
      lineStore b.tnc.store l = some r.1.tnc.store := by
  cases l with
  | test command =>
    obtain rfl := Option.some.inj hr
    obtain ⟨hset, hee⟩ := beaconSendTest_store (testRepeats command) b.tnc
    refine ⟨rfl, rfl, rfl, congrArg some ?_⟩
    show Store.mk _ _ = Store.mk _ _
    rw [← hset, ← hee]
    rfl
  | info | invalid | unknown =>
    obtain rfl := Option.some.inj hr
    exact ⟨rfl, rfl, rfl, rfl⟩
  | run c value =>
    cases c with
    | call | path | text =>
      obtain rfl := Option.some.inj hr
      exact ⟨rfl, rfl, rfl, rfl⟩
    | symbol | beacon =>
      obtain ⟨s, hs, rfl⟩ := Option.map_eq_some_iff.mp hr
      exact ⟨rfl, rfl, rfl, hs⟩
    | mode | kiss | reset => cases hstays

/-! ### A round -/

/-- The reader, whose buffer is not looked at between two lines. -/
def readStep : SerialReader → UInt8 → SerialReader × List Returned := readChar fun buf _ => buf

def linesOf (r : SerialReader) (bytes : List UInt8) : List (List UInt8) := (outs readStep r bytes).map Returned.line

theorem linesOf_append (r : SerialReader) (xs ys : List UInt8) :
    linesOf r (xs ++ ys) = linesOf r xs ++ linesOf (final readStep r xs) ys := by
  rw [linesOf, outs_append, List.map_append]
  rfl

theorem lineRead_eq (b : Board) : b.lineRead = linesOf b.side.kiss.reader (serGetchar b.side.ser).1.toList ∧
    (serialreaderReadline b.side).1.kiss.reader =
      final readStep b.side.kiss.reader (serGetchar b.side.ser).1.toList := by
  unfold Board.lineRead serialreaderReadline
  rcases serGetchar b.side.ser with ⟨_ | c, ser⟩
  · exact ⟨rfl, rfl⟩
  · show (if (readlineChar b.side.kiss.reader c).2 > 0 then _ else _) = ((readStep b.side.kiss.reader c).2 ++ []).map _ ∧
      _ = (readStep b.side.kiss.reader c).1
    rw [List.append_nil, readStep, readChar]
    by_cases hline : (readlineChar b.side.kiss.reader c).2 = 0
    · rw [if_pos hline, if_neg (by rw [hline]; decide)]
      exact ⟨rfl, rfl⟩
    · rw [if_neg hline, if_pos (Nat.pos_of_ne_zero hline)]
      exact ⟨rfl, rfl⟩

theorem beaconPoll_keeps (b : Board) (t : PollTime) : (b.beaconPoll t).currentMode = b.currentMode ∧
    (b.beaconPoll t).side = b.side ∧ (b.beaconPoll t).tnc.store = b.tnc.store := by
  refine ⟨rfl, rfl, ?_⟩
  obtain ⟨hset, hee⟩ := sendFixedText_store b.tnc
  show (if _ then _ else _ : Tnc).store = _
  split_ifs
  · show Store.mk _ _ = Store.mk _ _
    rw [hset, hee]
  · rfl

theorem consoleTurn_store {t : PollTime} (hb : b.consoleTurn t = some b') (hplain : ∀ line ∈ b.lineRead, Plain line) :
    b'.currentMode = b.currentMode ∧ b'.side = (serialreaderReadline b.side).1 ∧
      b.lineRead.foldlM runLine b.tnc.store = some b'.tnc.store := by
  unfold Board.consoleTurn consolePoll at hb
  obtain ⟨⟨b₁, restarted⟩, hpoll, hb⟩ := Option.bind_eq_some_iff.mp hb
  dsimp only at hpoll
  unfold Board.lineRead at hplain ⊢
  dsimp only at hplain ⊢
  split_ifs at hpoll hplain ⊢ with hline
  · obtain ⟨l, hl, hcmd⟩ := Option.bind_eq_some_iff.mp hpoll
    obtain ⟨hback, hmode, hside, hstore⟩ := command_store (hplain _ List.mem_cons_self l hl) hcmd
    obtain rfl : restarted = false := hback
    obtain rfl := Option.some.inj hb
    obtain ⟨hmode', hside', hstore'⟩ := beaconPoll_keeps b₁ t
    refine ⟨hmode'.trans hmode, hside'.trans hside, ?_⟩
    show (runLine b.tnc.store _).bind pure = _
    rw [runLine, hl, Option.bind_some]
    show (lineStore b.tnc.store l).bind some = some (b₁.beaconPoll t).tnc.store
    rw [hstore', Option.bind_fun_some]
    exact hstore
  · obtain ⟨rfl, rfl⟩ := Prod.mk.inj (Option.some.inj hpoll)
    obtain rfl := Option.some.inj hb
    obtain ⟨hmode', hside', hstore'⟩ := beaconPoll_keeps { b with side := (serialreaderReadline b.side).1 } t
    refine ⟨hmode', hside', congrArg some ?_⟩
    exact hstore'.symm

/-! ### A run -/

/-- A mode with a console, in which a check does not enter the mode again. -/
def Board.AtConsole (b : Board) : Prop :=
  b.currentMode = .digi ∨ (b.currentMode = .cfg ∧ b.tnc.settings.runMode ≤ 3)

theorem Board.AtConsole.turn (h : b.AtConsole) (x : Input) : (boardStep (some b) (.turn x)).1 = b.consoleTurn x.times ∧
    b.takes = (serGetchar b.side.ser).1 ∧ b.sideAfter (.turn x) = (serialreaderReadline b.side).1 := by
  show (b.turn x).1 = _ ∧ _
  rw [Board.turn, Board.takes, Board.sideAfter]
  rcases h with hmode | ⟨hmode, -⟩
  · rw [hmode]
    exact ⟨rfl, rfl, rfl⟩
  · rw [hmode]
    exact ⟨rfl, rfl, rfl⟩

theorem foldlM_runMode (lines : List (List UInt8)) (h : lines.foldlM runLine s = some s') :
    s'.settings.runMode = s.settings.runMode := by
  induction lines generalizing s with
  | nil =>
    obtain rfl := Option.some.inj h
    rfl
  | cons line lines ih =>
    rw [List.foldlM_cons] at h
    obtain ⟨s₁, hline, h⟩ := Option.bind_eq_some_iff.mp h
    obtain ⟨l, -, hstore⟩ := Option.bind_eq_some_iff.mp hline
    exact (ih h).trans (lineStore_runMode hstore)

/-- An event: its lines make the new store of the old one. -/
theorem session_event (hcon : b.AtConsole) {ev : BoardEvent} (hb : (boardStep (some b) ev).1 = some b')
    (hmode : b'.currentMode = b.currentMode)
    (hplain : ∀ line ∈ linesOf b.side.kiss.reader ((takeStep (some b) ev).2.map Prod.snd), Plain line) :
    b'.side = b.sideAfter ev ∧
      b'.side.kiss.reader = final readStep b.side.kiss.reader ((takeStep (some b) ev).2.map Prod.snd) ∧
      (linesOf b.side.kiss.reader ((takeStep (some b) ev).2.map Prod.snd)).foldlM runLine b.tnc.store =
        some b'.tnc.store := by
  cases ev with
  | rx ucsr0a udr0 =>
    obtain rfl := Option.some.inj hb
    exact ⟨rfl, rfl, rfl⟩
  | poll heard error =>
    obtain rfl := Option.some.inj hb
    obtain ⟨-, hside, hstore⟩ := hear_keeps heard b
    exact ⟨hside, congrArg (fun s => s.kiss.reader) hside, congrArg some hstore.symm⟩
  | check now =>
    have hstored : b.currentMode ≠ .cfg ∨ b.tnc.settings.runMode ≤ 3 :=
      hcon.imp (fun hdigi => by rw [hdigi]; decide) And.right
    rcases checkRunMode_stays hstored hb with hleft | ⟨start, rfl⟩
    · exact absurd hmode hleft
    · exact ⟨rfl, rfl, rfl⟩
  | turn x =>
    obtain ⟨hturn, htakes, hafter⟩ := hcon.turn x
    have htake : (takeStep (some b) (.turn x)).2.map Prod.snd = (serGetchar b.side.ser).1.toList := by
      show ((b.takes.map (x.now, ·)).toList).map Prod.snd = _
      rw [htakes]
      cases (serGetchar b.side.ser).1 <;> rfl
    obtain ⟨hlines, hreader⟩ := lineRead_eq b
    rw [htake, ← hlines] at hplain
    rw [htake, ← hlines, ← hreader, hafter]
    obtain ⟨-, hside, hstore⟩ := consoleTurn_store (hturn.symm.trans hb) hplain
    exact ⟨hside, congrArg (fun s => s.kiss.reader) hside, hstore⟩

/-- A run: the lines of the bytes that are taken are run, and none is purged. That
they are plain is known from all the bytes that are there or come in. -/
theorem session_run (es : List BoardEvent) (hstays : StaysIn b.currentMode (some b) es) (hcon : b.AtConsole)
    (hok : NoneFails (some b) es) (hb : final boardStep (some b) es = some b')
    (hplain : ∀ line ∈ linesOf b.side.kiss.reader
      (b.side.ser.rxfifo.contents ++ es.flatMap BoardEvent.received), Plain line) :
    Unpurged (some b) es ∧
      (linesOf b.side.kiss.reader ((taken b es).map Prod.snd)).foldlM runLine b.tnc.store = some b'.tnc.store := by
  induction es generalizing b with
  | nil =>
    obtain rfl := Option.some.inj hb
    exact ⟨trivial, rfl⟩
  | cons ev es ih =>
    have hbytes := accounts_event hok
    have hrest := hstays.2
    have hok' := hok.rest
    rw [final_cons] at hb
    cases hb₁ : (boardStep (some b) ev).1 with
    | none =>
      rw [hb₁, (outs_stopped boardStep (fun _ => rfl) es).1] at hb
      cases hb
    | some b₁ =>
      rw [hb₁] at hb hrest hok'
      rw [List.flatMap_cons, ← List.append_assoc, ← hbytes, List.append_assoc, linesOf_append] at hplain
      obtain ⟨hside, hreader, hstore⟩ := session_event hcon hb₁ hrest.mode fun line hl =>
        hplain line (List.mem_append_left _ hl)
      have hcon' : b₁.AtConsole := by
        have hrun := foldlM_runMode _ hstore
        unfold Board.AtConsole
        rw [hrest.mode]
        exact hcon.imp_right fun h => ⟨h.1, hrun.trans_le h.2⟩
      rw [← hside] at hplain
      rw [← hreader] at hplain
      obtain ⟨hline, hlines⟩ := ih (by rw [hrest.mode]; exact hrest) hcon' hok' hb fun line hl =>
        hplain line (List.mem_append_right _ hl)
      refine ⟨.cons hb₁ hside hline, ?_⟩
      rw [taken_cons, hb₁, List.map_append, linesOf_append, List.foldlM_append, hstore, ← hreader]
      exact hlines

/-- **What is typed is done, and nothing else.** A session at a board in `CFG`
(with the number of a mode stored) or in `DIGI`: from an idle line, with the
typed bytes coming in between any rounds, messages heard, beacons and checks of
the mode, until all have been taken. Then the settings and the EEPROM are what
the typed lines make of them, each of them run once and in their order. -/
theorem session_stores (b b' : Board) (es : List BoardEvent) (hstays : StaysIn b.currentMode (some b) es)
    (hcon : b.AtConsole) (hempty : b.side.ser.rxfifo.contents = [])
    (hreads : Reads 329 b.side.kiss.reader []) (hok : NoneFails (some b) es)
    (hb : final boardStep (some b) es = some b') (hall : b'.side.ser.rxfifo.contents = [])
    (hfit : ∀ line ∈ due isLineEnd 329 (es.flatMap BoardEvent.received), line.length ≤ 255)
    (hplain : ∀ line ∈ due isLineEnd 329 (es.flatMap BoardEvent.received), Plain line) :
    (due isLineEnd 329 (es.flatMap BoardEvent.received)).foldlM runLine b.tnc.store = some b'.tnc.store := by
  have hlines : linesOf b.side.kiss.reader (es.flatMap BoardEvent.received) =
      due isLineEnd 329 (es.flatMap BoardEvent.received) :=
    hreads.due _ (by decide) hfit
  obtain ⟨hline, hstore⟩ := session_run es hstays hcon hok hb (by
    rw [hempty, List.nil_append, hlines]
    exact hplain)
  have htaken := accounts_run es hline hok hb
  rw [hempty, hall, List.append_nil, List.nil_append] at htaken
  rw [htaken, hlines] at hstore
  exact hstore

/-- `AT+BEACON=5` and a CR, typed at a board after power-up. -/
def intervalTyped : List BoardEvent :=
  [0x41, 0x54, 0x2b, 0x42, 0x45, 0x41, 0x43, 0x4f, 0x4e, 0x3d, 0x35, 0x0d].flatMap fun c =>
    [.rx 0 c, .turn ⟨0, [], ⟨0, 0⟩, none⟩]

theorem session_stores_interval : ∃ b', final boardStep (some bootedBoard) intervalTyped = some b' ∧
    b'.tnc.settings.beacon.interval = 5 := by
  have hrun : (final boardStep (some bootedBoard) intervalTyped).any
      (fun b' => b'.side.ser.rxfifo.contents == []) = true := by decide +kernel
  obtain ⟨b', hb, hall⟩ := (Option.any_eq_true _ _).mp hrun
  refine ⟨b', hb, ?_⟩
  have hstore := session_stores bootedBoard b' intervalTyped (by decide +kernel) (Or.inr ⟨rfl, by decide⟩) rfl
    ⟨rfl, rfl, rfl⟩ (by decide +kernel) hb (beq_iff_eq.mp hall) (by decide +kernel) (by decide +kernel)
  have hinterval : ((due isLineEnd 329 (intervalTyped.flatMap BoardEvent.received)).foldlM runLine
      bootedBoard.tnc.store).map (fun s => s.settings.beacon.interval) = some 5 := by decide +kernel
  rw [hstore] at hinterval
  exact Option.some.inj hinterval

end TinyAprs
