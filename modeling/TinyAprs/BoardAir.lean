/-
# What the board sends

The events of a `Board`, with what they put on the channel (`boardSends`): the
beacons of the console and of the tracker, the copies of the digipeater, and
the frames of the host. Each burst is kept with the mode it was sent in, with
the EEPROM at that time, and with its cause.

Over every run, whatever is typed, received or heard, the board sends whole
frames with their CRC, and each has a cause that its mode allows: only in `DIGI`
a message is repeated, only in `KISS` a frame is the host's, and there is no
other in `KISS` (`board_sends`). So one frame is told from the next: a station
that listens gets the contents of the frames, in their order, however it polls
(`board_heard`).
-/
import TinyAprs.Ax25Deliver
import TinyAprs.BeaconPath
import TinyAprs.BoardLine
import TinyAprs.DigiHops

namespace TinyAprs

open Mealy Framing

/-! ### Bursts -/

/-- Why the board sends: by itself, for a message it has heard, or for a frame
of the host. -/
inductive Cause
  | own
  | message (msg : AX25Msg)
  | host (frame : Handed)

/-- What goes out on the channel at once. -/
structure Burst where
  /-- The mode of the round; the console may have switched it meanwhile. -/
  mode : RunMode
  eeprom : Eeprom
  cause : Cause
  bytes : List UInt8

def Board.burst (b : Board) (cause : Cause) (bytes : List UInt8) : Burst :=
  ⟨b.currentMode, b.tnc.eeprom, cause, bytes⟩

/-- `ax25_msg_callback` -/
def Board.hookSends (b : Board) (clock : Clock) (call : HookCall) : List Burst :=
  match b.currentMode, call.msg with
  | .digi, some msg =>
    [b.burst (.message msg) (digiHandleAprsMessage b.digi b.tnc.eeprom b.tnc.modem clock msg).air]
  | _, _ => []

def Board.hookStep (clock : Clock) (b : Board) (call : HookCall) : Board × List Burst :=
  (b.hook clock call, b.hookSends clock call)

/-- The loop body of `ax25_poll` -/
def Board.hearStep (b : Board) (h : Heard) : Board × List Burst :=
  let r := ax25PollChar h.stk b.tnc.modem h.char
  ((b.hear h).1, outs (Board.hookStep h.clock) { b with tnc.modem := r.1 } r.2)

/-- A line's command; only `cmd_test_send` sends. -/
def Board.commandSends (b : Board) : Line → List Burst
  | .test command => [b.burst .own (cmdTestSend b.tnc command).2]
  | _ => []

/-- `console_poll` -/
def Board.consoleSends (b : Board) : List Burst :=
  let r := serialreaderReadline b.side
  let b := { b with side := r.1 }
  if r.2 > 0 then ((consoleParseCommand (r.1.line r.2)).map b.commandSends).getD [] else []

/-- `beacon_broadcast_poll`, in a round that was begun in a mode. -/
def Board.beaconSends (b : Board) (mode : RunMode) (t : PollTime) : List Burst :=
  if (beaconBroadcastPoll b.tnc.settings.beacon.interval b.beacon t).2 then
    [⟨mode, b.tnc.eeprom, .own, (sendFixedText b.tnc).2⟩]
  else []

/-- The console and the beacon. A line that switches the mode comes back to the
beacon, a restart does not. -/
def Board.consoleTurnSends (b : Board) (t : PollTime) : List Burst :=
  b.consoleSends ++ match consolePoll b with
    | some (b', false) => b'.beaconSends b.currentMode t
    | _ => []

/-- `tracker_poll` -/
def Board.trackerSends (b : Board) (fix : Option (Fix × List UInt8)) : List Burst :=
  let r := serialreaderReadline b.side
  match fix with
  | some (f, payload) =>
    if r.2 > 0 ∧ (trackerUpdateLocation b.tracker f).2 then [b.burst .own (beaconSend b.tnc payload).2] else []
  | none => []

/-- `kiss_poll`; a frame whose handling does not come back is not sent. -/
def Board.kissSends (b : Board) (now : Int32) (turns : List Turn) : List Burst :=
  match (kissPoll (b.handle turns) b.side now).2 with
  | [] => []
  | h :: _ => ((kissHandleFrame b.tnc turns h).map fun e => [b.burst (.host h) e.air]).getD []

/-- The switch of the main loop. -/
def Board.turnSends (b : Board) (x : Input) : List Burst :=
  match b.currentMode with
  | .cfg => b.consoleTurnSends x.times
  | .digi => b.consoleTurnSends x.times
  | .tracker => b.trackerSends x.fix
  | .kiss => b.kissSends x.now x.turns
  | .testBeacon => []

/-- An event, with what it sends. -/
def burstStep : Option Board → BoardEvent → Option Board × List Burst
  | none, ev => ((boardStep none ev).1, [])
  | some b, ev => ((boardStep (some b) ev).1, match ev with
    | .rx _ _ => []
    | .poll heard _ => outs Board.hearStep b heard
    | .check _ => []
    | .turn x => b.turnSends x)

def boardSends (ee : Eeprom) (es : List BoardEvent) : List Burst := outs burstStep (Board.init ee) es

/-- A message makes the board send in `DIGI` only. -/
theorem hearStep_quiet {b : Board} (hmode : b.currentMode ≠ .digi) (heard : List Heard) :
    outs Board.hearStep b heard = [] := by
  have hcalls : ∀ (clock : Clock) (calls : List HookCall) (b : Board), b.currentMode ≠ .digi →
      outs (Board.hookStep clock) b calls = [] := by
    intro clock calls b hb
    induction calls with
    | nil => rfl
    | cons call calls ih =>
      have hstep : Board.hookStep clock b call = (b, []) := by
        rw [Board.hookStep, Board.hook, Board.hookSends]
        cases hm : b.currentMode with
        | digi => exact absurd hm hb
        | _ => rfl
      rw [outs_cons, hstep]
      exact ih
  induction heard generalizing b with
  | nil => rfl
  | cons h heard ih =>
    have hnext : (b.hearStep h).1.currentMode ≠ .digi := by
      rw [show (b.hearStep h).1.currentMode = b.currentMode from (hear_keeps [h] b).1]
      exact hmode
    rw [outs_cons, ih hnext, List.append_nil]
    exact hcalls h.clock _ _ hmode

/-! ### What may be sent -/

def storedText (ee : Eeprom) : List UInt8 :=
  let r := settingsGetBeaconText ee (fun _ => 0) 127
  Cells.slice r.2 0 r.1.toNat

/-- A frame that the mode and the cause of a burst allow. -/
inductive Burst.Allows (x : Burst) : List UInt8 → Prop
  /-- The stored text, or a payload of the tracker. -/
  | beacon (payload : List UInt8) (cause : x.cause = .own) (mode : x.mode ≠ .kiss)
      (text : x.mode = .tracker ∨ payload = storedText x.eeprom) : x.Allows (beaconFrame x.eeprom payload)
  /-- The message, with the next entry of its path used up. -/
  | copy (msg msg' : AX25Msg) (i : ℕ) (cause : x.cause = .message msg) (mode : x.mode = .digi) (index : i < msg.rptCnt)
      (required : rptRequired msg i = true) (rewritten : rewrite (settingsGetMycall x.eeprom) msg i = some msg') :
      x.Allows (msgBytes msg')
  /-- The data of the host's frame. -/
  | data (frame : Handed) (payload : List UInt8) (cause : x.cause = .host frame) (mode : x.mode = .kiss)
      (bytes : frame.bytes = kissCmdData :: payload) : x.Allows payload

/-- A burst is a sequence of frames that are allowed; for a message or a frame
of the host it is one at most. -/
def Burst.Lawful (x : Burst) : Prop :=
  ∃ contents : List (List UInt8), x.bytes = contents.flatMap airFrame ∧ (∀ f ∈ contents, x.Allows f) ∧
    (x.cause ≠ .own → contents.length ≤ 1)

theorem Burst.Lawful.nothing {x : Burst} (h : x.bytes = []) : x.Lawful :=
  ⟨[], h, by simp, by simp⟩

theorem Burst.Lawful.one {x : Burst} {f : List UInt8} (h : x.bytes = airFrame f) (hf : x.Allows f) : x.Lawful :=
  ⟨[f], by rw [h, List.flatMap_singleton], by simpa using hf, by simp⟩

/-! ### What is sent -/

@[simp] theorem sendFixedText_eeprom (t : Tnc) : (sendFixedText t).1.eeprom = t.eeprom := by
  unfold sendFixedText
  dsimp only
  split_ifs
  · rfl
  · rfl

theorem sendFixedText_own (t : Tnc) : ∃ n ≤ 1,
    (sendFixedText t).2 = (List.replicate n (beaconFrame t.eeprom (storedText t.eeprom))).flatMap airFrame := by
  unfold sendFixedText
  dsimp only
  split_ifs
  · exact ⟨1, Nat.le_refl 1, by rw [beaconSend_frame]; simp [storedText]⟩
  · exact ⟨0, Nat.zero_le 1, rfl⟩

theorem testPackets_own (n : ℕ) (t : Tnc) : ∃ k, (beaconSendTestMessageImmediate t n).2 =
    (List.replicate k (beaconFrame t.eeprom (storedText t.eeprom))).flatMap airFrame := by
  induction n generalizing t with
  | zero => exact ⟨0, rfl⟩
  | succ n ih =>
    obtain ⟨j, -, hfirst⟩ := sendFixedText_own t
    obtain ⟨k, hrest⟩ := ih (sendFixedText t).1
    rw [sendFixedText_eeprom] at hrest
    refine ⟨j + k, ?_⟩
    rw [List.replicate_add, List.flatMap_append, ← hfirst, ← hrest]
    rfl

variable (b : Board)

theorem lawful_text {mode : RunMode} (hmode : mode ≠ .kiss) {ee : Eeprom} {bytes : List UInt8} {n : ℕ}
    (h : bytes = (List.replicate n (beaconFrame ee (storedText ee))).flatMap airFrame) :
    (Burst.mk mode ee .own bytes).Lawful := by
  refine ⟨_, h, fun f hf => ?_, fun hne => absurd rfl hne⟩
  rw [List.eq_of_mem_replicate hf]
  exact .beacon (x := ⟨mode, ee, .own, bytes⟩) _ rfl hmode (Or.inr rfl)

theorem Board.lawful_hook (clock : Clock) (call : HookCall) : ∀ x ∈ b.hookSends clock call, x.Lawful := by
  unfold Board.hookSends
  split
  · rename_i msg hmode hmsg
    intro x hx
    obtain rfl := List.mem_singleton.mp hx
    by_cases hair : (digiHandleAprsMessage b.digi b.tnc.eeprom b.tnc.modem clock msg).air = []
    · exact .nothing hair
    · obtain ⟨i, hi, hreq, msg', hw, -, hsent⟩ := handle_air (s := ⟨b.digi, b.tnc.eeprom, b.tnc.modem, clock⟩) hair
      change (digiHandleAprsMessage b.digi b.tnc.eeprom b.tnc.modem clock msg).air = _ at hsent
      rw [ax25SendMsg_air] at hsent
      split_ifs at hsent
      · exact absurd hsent hair
      · exact .one hsent (.copy msg msg' i rfl hmode hi hreq hw)
  · exact fun x hx => absurd hx List.not_mem_nil

theorem Board.lawful_hear (h : Heard) : ∀ x ∈ (b.hearStep h).2, x.Lawful :=
  outs_forall (Board.hookStep h.clock) (fun _ => True) (fun b call _ => ⟨trivial, b.lawful_hook h.clock call⟩) _ _
    trivial

theorem Board.lawful_console (hmode : b.currentMode ≠ .kiss) : ∀ x ∈ b.consoleSends, x.Lawful := by
  unfold Board.consoleSends
  dsimp only
  split_ifs
  · cases consoleParseCommand ((serialreaderReadline b.side).1.line (serialreaderReadline b.side).2) with
    | none => exact fun x hx => absurd hx List.not_mem_nil
    | some line =>
      cases line with
      | test command =>
        intro x hx
        obtain rfl := List.mem_singleton.mp hx
        obtain ⟨k, hk⟩ := testPackets_own (testRepeats command) b.tnc
        exact lawful_text hmode hk
      | info | invalid | unknown | run key value => exact fun x hx => absurd hx List.not_mem_nil
  · exact fun x hx => absurd hx List.not_mem_nil

theorem Board.lawful_beacon {mode : RunMode} (hmode : mode ≠ .kiss) (t : PollTime) :
    ∀ x ∈ b.beaconSends mode t, x.Lawful := by
  unfold Board.beaconSends
  split_ifs
  · intro x hx
    obtain rfl := List.mem_singleton.mp hx
    obtain ⟨n, -, hn⟩ := sendFixedText_own b.tnc
    exact lawful_text hmode hn
  · exact fun x hx => absurd hx List.not_mem_nil

theorem Board.lawful_tracker (hmode : b.currentMode = .tracker) (fix : Option (Fix × List UInt8)) :
    ∀ x ∈ b.trackerSends fix, x.Lawful := by
  unfold Board.trackerSends
  dsimp only
  split
  · rename_i f payload
    split_ifs
    · intro x hx
      obtain rfl := List.mem_singleton.mp hx
      refine .one (beaconSend_frame b.tnc payload) (.beacon payload rfl ?_ (Or.inl hmode))
      rw [show (b.burst .own (beaconSend b.tnc payload).2).mode = .tracker from hmode]
      decide
    · exact fun x hx => absurd hx List.not_mem_nil
  · exact fun x hx => absurd hx List.not_mem_nil

theorem Board.lawful_consoleTurn (hmode : b.currentMode ≠ .kiss) (t : PollTime) :
    ∀ x ∈ b.consoleTurnSends t, x.Lawful := by
  intro x hx
  rcases List.mem_append.mp hx with hx | hx
  · exact b.lawful_console hmode x hx
  · split at hx
    · rename_i b' _
      exact b'.lawful_beacon hmode t x hx
    · exact absurd hx List.not_mem_nil

/-- A command that answers on the serial line sends nothing. -/
theorem air_of_reply {o : Option (List UInt8)} {t : Tnc} {buf : ℕ → UInt8} {e : Effect}
    (h : o.bind (fun r => some (Effect.reply t buf r)) = some e) : e.air = [] := by
  obtain ⟨r, -, h⟩ := Option.bind_eq_some_iff.mp h
  obtain rfl := Option.some.inj h
  rfl

theorem paramsCmd_air {t : Tnc} {buf : ℕ → UInt8} {d : List UInt8} {e : Effect}
    (h : kissHandleConfigParamsCmd t buf d = some e) : e.air = [] := by
  unfold kissHandleConfigParamsCmd at h
  split_ifs at h
  · exact air_of_reply h
  · obtain ⟨ee, -, h⟩ := Option.bind_eq_some_iff.mp h
    exact air_of_reply h
  · obtain rfl := Option.some.inj h
    rfl

theorem textCmd_air {t : Tnc} {buf : ℕ → UInt8} {d : List UInt8} {e : Effect}
    (h : kissHandleConfigTextCmd t buf d = some e) : e.air = [] := by
  unfold kissHandleConfigTextCmd at h
  dsimp only at h
  split_ifs at h
  · exact air_of_reply h
  · obtain rfl := Option.some.inj h
    rfl
  · exact air_of_reply h

theorem callCmd_air {t : Tnc} {buf : ℕ → UInt8} {d : List UInt8} {e : Effect}
    (h : kissHandleConfigCallCmd t buf d = some e) : e.air = [] := by
  unfold kissHandleConfigCallCmd at h
  split_ifs at h
  · exact air_of_reply h
  · exact air_of_reply h
  · obtain rfl := Option.some.inj h
    rfl

theorem magicCmd_air {t : Tnc} {buf : ℕ → UInt8} {d : List UInt8} {e : Effect}
    (h : kissHandleConfigMagicCmd t buf d = some e) : e.air = [] := by
  unfold kissHandleConfigMagicCmd at h
  split_ifs at h
  · obtain ⟨r, -, h⟩ := Option.bind_eq_some_iff.mp h
    obtain rfl := Option.some.inj h
    rfl
  · exact air_of_reply h
  · obtain rfl := Option.some.inj h
    rfl

theorem handleRequest_air {t : Tnc} {turns : List Turn} {buf : ℕ → UInt8} {q : Request} {e : Effect}
    (h : handleRequest t turns buf q = some e) :
    e.air = [] ∨ ∃ payload, q = .data payload ∧ e.air = airFrame payload := by
  cases q with
  | data payload =>
    obtain ⟨⟨modem, serial, send⟩, -, h⟩ := Option.bind_eq_some_iff.mp h
    cases send with
    | true =>
      obtain rfl := Option.some.inj h
      exact Or.inr ⟨payload, rfl, ax25SendRaw_air modem payload⟩
    | false =>
      obtain rfl := Option.some.inj h
      exact Or.inl rfl
  | params d => exact Or.inl (paramsCmd_air h)
  | text d => exact Or.inl (textCmd_air h)
  | call d => exact Or.inl (callCmd_air h)
  | magic d => exact Or.inl (magicCmd_air h)
  | nothing =>
    obtain rfl := Option.some.inj h
    exact Or.inl rfl

theorem request_data {f payload : List UInt8} (h : request f = .data payload) : f = kissCmdData :: payload := by
  unfold request at h
  split at h
  · rename_i c x rest
    split_ifs at h with hc
    · obtain rfl := Request.data.inj h
      rw [hc]
    · unfold configRequest at h
      split_ifs at h
  · cases h

theorem Board.lawful_kiss (hmode : b.currentMode = .kiss) (now : Int32) (turns : List Turn) :
    ∀ x ∈ b.kissSends now turns, x.Lawful := by
  have hsize := kissPoll_size (b.handle turns) b.side now
  unfold Board.kissSends
  cases hframes : (kissPoll (b.handle turns) b.side now).2 with
  | nil => exact fun x hx => absurd hx List.not_mem_nil
  | cons h hs =>
    rw [hframes] at hsize
    dsimp only
    cases he : kissHandleFrame b.tnc turns h with
    | none => exact fun x hx => absurd hx List.not_mem_nil
    | some e =>
      intro x hx
      obtain rfl := List.mem_singleton.mp hx
      rw [kissHandleFrame_eq _ _ _ (hsize h List.mem_cons_self)] at he
      rcases handleRequest_air he with hair | ⟨payload, hreq, hair⟩
      · exact .nothing hair
      · exact .one hair (.data h payload rfl hmode (request_data hreq))

theorem lawful_step (o : Option Board) (ev : BoardEvent) : ∀ x ∈ (burstStep o ev).2, x.Lawful := by
  cases o with
  | none => exact fun x hx => absurd hx List.not_mem_nil
  | some b =>
    cases ev with
    | rx ucsr0a udr0 => exact fun x hx => absurd hx List.not_mem_nil
    | poll heard error =>
      exact outs_forall Board.hearStep (fun _ => True) (fun b h _ => ⟨trivial, b.lawful_hear h⟩) b heard trivial
    | check now => exact fun x hx => absurd hx List.not_mem_nil
    | turn y =>
      show ∀ x ∈ b.turnSends y, x.Lawful
      unfold Board.turnSends
      cases hmode : b.currentMode with
      | cfg | digi => exact b.lawful_consoleTurn (by rw [hmode]; decide) y.times
      | tracker => exact b.lawful_tracker hmode y.fix
      | kiss => exact b.lawful_kiss hmode y.now y.turns
      | testBeacon => exact fun x hx => absurd hx List.not_mem_nil

/-- **Everything the board sends is a frame with a cause that its mode
allows.** In every run, from any EEPROM and over any events: each burst is a
sequence of frames with flags, escapes and CRC, and each of them is either a
beacon under the stored calls, in a round that was not in `KISS`, with the
stored text or, in `TRACKER`, with a payload of the tracker; or the copy of a
message that was heard, in `DIGI`, with an entry of its path used up, once; or
the data of a frame from the host, in `KISS`, as it is, once. -/
theorem board_sends (ee : Eeprom) (es : List BoardEvent) : ∀ x ∈ boardSends ee es, x.Lawful :=
  outs_forall burstStep (fun _ => True) (fun o ev _ => ⟨trivial, lawful_step o ev⟩) (Board.init ee) es trivial

/-- `!1` and a CR, typed at the console: one test packet. -/
def testTyped : List BoardEvent :=
  [0x21, 0x31, 0x0d].flatMap fun c => [.rx 0 c, .turn ⟨0, [], ⟨0, 0⟩, none⟩]

theorem testTyped_burst : ∃ x ∈ boardSends blankEeprom testTyped, x.mode = .cfg ∧ x.bytes.length = 69 := by
  have hrun : (boardSends blankEeprom testTyped).any (fun x => x.mode == .cfg && x.bytes.length == 69) = true := by
    decide +kernel
  simpa using hrun

theorem board_sends_typed : ∃ x ∈ boardSends blankEeprom testTyped, x.mode = .cfg ∧ x.bytes.length = 69 ∧ x.Lawful := by
  obtain ⟨x, hx, hmode, hlen⟩ := testTyped_burst
  exact ⟨x, hx, hmode, hlen, board_sends blankEeprom testTyped x hx⟩

/-! ### What is heard of it -/

/-- The tokens of a frame with its CRC. -/
def frameTokens (f : List UInt8) : List (Token UInt8) := .flag :: ((withCrc f).map Token.data ++ [.flag])

theorem airFrame_spelled (f : List UInt8) : airFrame f = (frameTokens f).flatMap ax25Marks.spell := by
  rw [frameTokens, List.flatMap_cons, List.flatMap_append, List.flatMap_map, airFrame, Stuffing.encode,
    show ax25Stuffing.word = fun c => ax25Marks.spell (.data c) from funext fun c => (spell_data c).symm]
  rfl

theorem tokens_airFrames (contents : List (List UInt8)) :
    ax25Marks.tokens (contents.flatMap airFrame) = contents.flatMap frameTokens := by
  have hspelled : contents.flatMap airFrame = (contents.flatMap frameTokens).flatMap ax25Marks.spell := by
    rw [List.flatMap_assoc]
    exact List.flatMap_congr fun f _ => airFrame_spelled f
  rw [hspelled]
  exact (Marks.tokens_spell ax25Marks_distinct _).1

/-- From one flag to the next there is nothing to deliver; a frame is delivered,
and leaves its flag. -/
theorem cut_frame (seg : Option (List UInt8)) (hseg : deliveredOf seg.toList = []) (f : List UInt8) :
    final Framing.cut seg (frameTokens f) = some [] ∧
      deliveredOf (outs Framing.cut seg (frameTokens f)) = deliveredOf [withCrc f] := by
  obtain ⟨hdata, hnone⟩ := run_cut_data (withCrc f) []
  have hflag : Framing.cut seg Token.flag = (some [], seg.toList) := by
    cases seg with
    | none => rfl
    | some s => rfl
  rw [frameTokens, final_cons, outs_cons, hflag, final_append, outs_append, hdata, hnone, deliveredOf_append, hseg]
  exact ⟨rfl, rfl⟩

theorem delivered_frames (contents : List (List UInt8)) (seg : Option (List UInt8))
    (hseg : deliveredOf seg.toList = []) :
    deliveredOf (outs Framing.cut seg (contents.flatMap frameTokens)) = deliveredOf (contents.map withCrc) := by
  induction contents generalizing seg with
  | nil => rfl
  | cons f contents ih =>
    obtain ⟨hfinal, houts⟩ := cut_frame seg hseg f
    rw [List.flatMap_cons, outs_append, deliveredOf_append, houts, hfinal, ih (some []) rfl, ← deliveredOf_append]
    rfl

theorem exists_contents : ∀ xs : List Burst, (∀ x ∈ xs, x.Lawful) → ∃ contents : List (List UInt8),
    xs.flatMap Burst.bytes = contents.flatMap airFrame ∧ ∀ f ∈ contents, ∃ x ∈ xs, x.Allows f
  | [], _ => ⟨[], rfl, by simp⟩
  | x :: xs, h => by
    obtain ⟨first, hfirst, hallows, -⟩ := h x List.mem_cons_self
    obtain ⟨rest, hrest, hothers⟩ := exists_contents xs fun y hy => h y (List.mem_cons_of_mem x hy)
    refine ⟨first ++ rest, by rw [List.flatMap_cons, hfirst, hrest, List.flatMap_append], fun f hf => ?_⟩
    rcases List.mem_append.mp hf with hf | hf
    · exact ⟨x, List.mem_cons_self, hallows f hf⟩
    · obtain ⟨y, hy, hf⟩ := hothers f hf
      exact ⟨y, List.mem_cons_of_mem x hy, hf⟩

theorem run_contents (ee : Eeprom) (es : List BoardEvent) : ∃ contents : List (List UInt8),
    (boardSends ee es).flatMap Burst.bytes = contents.flatMap airFrame ∧
      ∀ f ∈ contents, ∃ x ∈ boardSends ee es, x.Allows f :=
  exists_contents (boardSends ee es)
    (outs_forall burstStep (fun _ => True) (fun o ev _ => ⟨trivial, lawful_step o ev⟩) (Board.init ee) es trivial)

/-- **A station that listens to the board gets its frames.** In every run of
the board, and however a station in pass-through mode polls what the board
sends: the frames handed to the hook there are the frames that were sent, in
their order, each with its CRC, as far as they fit the buffer, and each of them
is one that the board may send. -/
theorem board_heard (ee : Eeprom) (es : List BoardEvent) (chs : List Channel)
    (hchs : channelBytes chs = (boardSends ee es).flatMap Burst.bytes) : ∃ contents : List (List UInt8),
      (boardSends ee es).flatMap Burst.bytes = contents.flatMap airFrame ∧
      (∀ f ∈ contents, ∃ x ∈ boardSends ee es, x.Allows f) ∧
      Delivers (hookCalls chs) (deliveredOf (contents.map withCrc)) := by
  obtain ⟨contents, hbytes, hallows⟩ := run_contents ee es
  have htokens : ax25Marks.tokens (channelBytes chs) = contents.flatMap frameTokens := by
    rw [hchs, hbytes, tokens_airFrames]
  have hreset : Token.reset ∉ ax25Marks.tokens (channelBytes chs) := by
    rw [htokens]
    simp [frameTokens]
  refine ⟨contents, hbytes, hallows, ?_⟩
  rw [← delivered_frames contents none rfl, ← htokens]
  exact frames_eq chs hreset

theorem board_heard_typed : ∃ contents : List (List UInt8), contents ≠ [] ∧
    (boardSends blankEeprom testTyped).flatMap Burst.bytes = contents.flatMap airFrame ∧
    Delivers (hookCalls [⟨zeroMsg, (boardSends blankEeprom testTyped).flatMap Burst.bytes, false⟩])
      (deliveredOf (contents.map withCrc)) := by
  obtain ⟨contents, hbytes, -, hdelivers⟩ := board_heard blankEeprom testTyped
    [⟨zeroMsg, (boardSends blankEeprom testTyped).flatMap Burst.bytes, false⟩] (List.flatMap_singleton _ _)
  refine ⟨contents, ?_, hbytes, hdelivers⟩
  rintro rfl
  obtain ⟨x, hx, -, hlen⟩ := testTyped_burst
  have hnil : x.bytes = [] := List.flatMap_eq_nil_iff.mp hbytes x hx
  rw [hnil] at hlen
  exact absurd hlen (by decide)

end TinyAprs
