/-
# The mode and the modem agree

`currentMode` says what `ax25_msg_callback` does with a message, and
`pass_through` says whether there is one: with it set, the hook is called
with `NULL`. The two are set by `cmd_switch_mode` alone, but from three sides
(the console, the stored `run_mode` behind a timer, and the KISS line, which
can write any `run_mode`), and the tracker's case leaves `pass_through` as it
was. `Board.Safe` is what they keep between them, `boardStep_safe` that every
event keeps it, and `mode_safe` that it holds in every run, also at the hook
calls of the polls nested in `kiss_send_to_modem`.
-/
import TinyAprs.Main

namespace TinyAprs

open Mealy

/-- The mode is one of the four, and `pass_through` is the one it needs. -/
structure Board.Safe (b : Board) : Prop where
  mode : b.currentMode ∈ [RunMode.cfg, .kiss, .tracker, .digi]
  parse : b.currentMode = .cfg ∨ b.currentMode = .digi → b.tnc.modem.passThrough = false
  pass : b.currentMode = .kiss → b.tnc.modem.passThrough = true

/-- A hook call in a mode that reads the message has one, and finds
`pass_through` as its mode needs it. -/
structure Hooked.Safe (h : Hooked) : Prop where
  parse : h.mode = .cfg ∨ h.mode = .digi → h.call.ctx.passThrough = false ∧ h.call.msg ≠ none
  pass : h.mode = .kiss → h.call.ctx.passThrough = true

theorem noHooks_safe : ∀ h ∈ ([] : List Hooked), h.Safe := fun _ hmem => absurd hmem List.not_mem_nil

/-- Only the mode and `pass_through` matter. -/
theorem Board.Safe.congr {b b' : Board} (h : b.Safe) (hmode : b'.currentMode = b.currentMode)
    (hpass : b'.tnc.modem.passThrough = b.tnc.modem.passThrough) : b'.Safe := by
  refine ⟨?_, ?_, ?_⟩
  · rw [hmode]
    exact h.mode
  · rw [hmode, hpass]
    exact h.parse
  · rw [hmode, hpass]
    exact h.pass

/-! ### The receiver -/

theorem ax25PollData_passThrough (ctx : AX25Ctx) (c : UInt8) :
    (ax25PollData ctx c).passThrough = ctx.passThrough := by
  unfold ax25PollData
  split_ifs
  · exact dcdByte_passThrough _ c
  · rfl
  · rfl

theorem ax25PollFlag_passThrough (stk : AX25Msg) (ctx : AX25Ctx) :
    (ax25PollFlag stk ctx).1.passThrough = ctx.passThrough := by
  unfold ax25PollFlag
  dsimp only
  split_ifs <;> rfl

theorem ax25PollChar_passThrough (stk : AX25Msg) (ctx : AX25Ctx) (c : UInt8) :
    (ax25PollChar stk ctx c).1.passThrough = ctx.passThrough := by
  unfold ax25PollChar
  split_ifs
  · exact ax25PollFlag_passThrough stk ctx
  · rfl
  · rfl
  · exact ax25PollData_passThrough ctx c

theorem ax25Poll_passThrough (stk : AX25Msg) (ctx : AX25Ctx) (cs : List UInt8) (error : Bool) :
    (ax25Poll stk ctx cs error).1.passThrough = ctx.passThrough := by
  have hfinal := final_inv (ax25PollChar stk) (fun ctx' => ctx'.passThrough = ctx.passThrough)
    (fun ctx' c h => (ax25PollChar_passThrough stk ctx' c).trans h) ctx cs rfl
  cases error with
  | true => exact hfinal
  | false => exact hfinal

/-- The hook gets a message exactly when frames are parsed. -/
theorem deliver_calls (stk : AX25Msg) (ctx : AX25Ctx) : ∀ call ∈ ax25Deliver stk ctx,
    call.ctx.passThrough = ctx.passThrough ∧ (call.msg = none ↔ ctx.passThrough = true) := by
  intro call hcall
  unfold ax25Deliver at hcall
  split_ifs at hcall with hhook hpass
  · obtain rfl := List.mem_singleton.mp hcall
    exact ⟨rfl, fun _ => hpass, fun _ => rfl⟩
  · cases hdec : ax25Decode stk ctx with
    | none =>
      rw [hdec] at hcall
      exact absurd hcall List.not_mem_nil
    | some msg =>
      rw [hdec] at hcall
      obtain rfl := List.mem_singleton.mp hcall
      refine ⟨rfl, fun h => ?_, fun h => absurd h hpass⟩
      cases h
  · exact absurd hcall List.not_mem_nil

theorem pollFlag_calls (stk : AX25Msg) (ctx : AX25Ctx) : ∀ call ∈ (ax25PollFlag stk ctx).2,
    call.ctx.passThrough = ctx.passThrough ∧ (call.msg = none ↔ ctx.passThrough = true) := by
  intro call hcall
  unfold ax25PollFlag at hcall
  split_ifs at hcall with hlen hcrc
  · -- the count of good frames is all that has changed
    exact deliver_calls stk { ctx with stat.rxOk := ctx.stat.rxOk + 1 } call hcall
  · exact absurd hcall List.not_mem_nil
  · exact absurd hcall List.not_mem_nil

theorem pollChar_calls (stk : AX25Msg) (ctx : AX25Ctx) (c : UInt8) : ∀ call ∈ (ax25PollChar stk ctx c).2,
    call.ctx.passThrough = ctx.passThrough ∧ (call.msg = none ↔ ctx.passThrough = true) := by
  intro call hcall
  unfold ax25PollChar at hcall
  split_ifs at hcall
  · exact pollFlag_calls stk ctx call hcall
  all_goals exact absurd hcall List.not_mem_nil

theorem poll_calls (stk : AX25Msg) (ctx : AX25Ctx) (cs : List UInt8) (error : Bool) :
    ∀ call ∈ (ax25Poll stk ctx cs error).2, call.ctx.passThrough = ctx.passThrough := by
  refine outs_forall (ax25PollChar stk) (fun ctx' => ctx'.passThrough = ctx.passThrough)
    (fun ctx' c h => ⟨(ax25PollChar_passThrough stk ctx' c).trans h, fun call hcall => ?_⟩) ctx cs rfl
  exact (pollChar_calls stk ctx' c call hcall).1.trans h

/-- What the digipeater sends does not touch `pass_through`. -/
theorem digi_passThrough (d : DigiCache) (ee : Eeprom) (modem : AX25Ctx) (clock : Clock) (msg : AX25Msg) :
    (digiHandleAprsMessage d ee modem clock msg).modem.passThrough = modem.passThrough := by
  unfold digiHandleAprsMessage
  rcases digiScan_cases d ee modem clock msg msg.rptCnt 0 with ⟨h, -⟩ | ⟨i, -, -, -, h⟩
  · rw [h]
  · rw [h]
    unfold digiTake
    dsimp only
    split_ifs
    · rfl
    · split
      · rfl
      · exact ax25SendMsg_passThrough modem _

theorem Board.Safe.hook {b : Board} (h : b.Safe) (clock : Clock) (call : HookCall) : (b.hook clock call).Safe := by
  unfold Board.hook
  split
  · exact h.congr rfl (digi_passThrough _ _ _ _ _)
  · exact h

theorem Board.Safe.hooks {clock : Clock} (calls : List HookCall) {b : Board} (h : b.Safe) :
    (calls.foldl (fun b call => b.hook clock call) b).Safe := by
  induction calls generalizing b with
  | nil => exact h
  | cons call calls ih => exact ih (h.hook clock call)

theorem Board.Safe.hear {b : Board} (h : b.Safe) (x : Heard) :
    (b.hear x).1.Safe ∧ ∀ o ∈ (b.hear x).2, o.Safe := by
  refine ⟨Safe.hooks _ (h.congr rfl (ax25PollChar_passThrough x.stk b.tnc.modem x.char)), ?_⟩
  intro o ho
  obtain ⟨call, hcall, rfl⟩ := List.mem_map.mp ho
  obtain ⟨hctx, hmsg⟩ := pollChar_calls x.stk b.tnc.modem x.char call hcall
  refine ⟨fun hmode => ?_, fun hmode => hctx.trans (h.pass hmode)⟩
  have hpass := h.parse hmode
  refine ⟨hctx.trans hpass, fun hnone => ?_⟩
  rw [hmsg.mp hnone] at hpass
  exact absurd hpass (by decide)

theorem Board.Safe.poll {b : Board} (h : b.Safe) (heard : List Heard) (error : Bool) :
    (b.poll heard error).1.Safe ∧ ∀ o ∈ (b.poll heard error).2, o.Safe := by
  have hfinal := final_inv Board.hear Board.Safe (fun b x hb => (hb.hear x).1) b heard h
  refine ⟨hfinal.congr rfl (ax25Poll_passThrough _ _ _ _), ?_⟩
  exact outs_forall Board.hear Board.Safe (fun b x hb => hb.hear x) b heard h

/-! ### The commands -/

theorem Board.init_safe {ee : Eeprom} {b : Board} (hb : Board.init ee = some b) : b.Safe := by
  unfold Board.init at hb
  obtain ⟨⟨ok, g, ee'⟩, -, hb⟩ := Option.bind_eq_some_iff.mp hb
  obtain rfl := Option.some.inj hb
  constructor <;> simp

/-- Entering a mode sets `pass_through` to what it needs; the tracker needs
nothing. -/
theorem Board.enter_safe {i : Int16} {m : RunMode} (hm : modeCase i = some m) (b : Board) : (b.enter m).Safe := by
  cases m with
  | cfg => constructor <;> simp [Board.enter]
  | kiss => constructor <;> simp [Board.enter]
  | tracker => constructor <;> simp [Board.enter]
  | digi => constructor <;> simp [Board.enter]
  | testBeacon => exact absurd hm modeCase_ne

theorem Board.Safe.withStore {b : Board} (h : b.Safe) (s : Store) : (b.withStore s).Safe := h.congr rfl rfl

theorem Board.Safe.mapStore {b b' : Board} (h : b.Safe) {o : Option Store} (hb : o.map b.withStore = some b') :
    b'.Safe := by
  obtain ⟨s, -, rfl⟩ := Option.map_eq_some_iff.mp hb
  exact h.withStore s

/-- `cmd_switch_mode`, with any value. -/
theorem Board.Safe.switchMode {b b' : Board} (h : b.Safe) {value : List UInt8} {len : ℕ}
    (hb : cmdSwitchMode b value len = some b') : b'.Safe := by
  unfold cmdSwitchMode at hb
  dsimp only at hb
  split_ifs at hb with hlen hsame
  · obtain rfl := Option.some.inj hb
    exact h
  · cases hm : modeCase (atoi value) with
    | none =>
      rw [hm] at hb
      obtain rfl := Option.some.inj hb
      exact h
    | some m =>
      have henter := b.enter_safe hm
      rw [hm] at hb
      dsimp only at hb
      split_ifs at hb with hrun
      · exact henter.mapStore hb
      · obtain rfl := Option.some.inj hb
        exact henter
  · obtain rfl := Option.some.inj hb
    exact h

theorem Board.Safe.checkRunMode {b b' : Board} (h : b.Safe) {now : Int32}
    (hb : TinyAprs.checkRunMode b now = some b') : b'.Safe := by
  unfold TinyAprs.checkRunMode at hb
  split_ifs at hb
  · obtain rfl := Option.some.inj hb
    exact h
  · obtain rfl := Option.some.inj hb
    exact h.congr rfl rfl
  · exact h.switchMode hb
  · obtain rfl := Option.some.inj hb
    exact h

theorem Board.Safe.command {b : Board} (h : b.Safe) {line : Line} {r : Board × Bool}
    (hr : b.command line = some r) : r.1.Safe := by
  cases line with
  | test command =>
    obtain rfl := Option.some.inj hr
    exact h.congr rfl (beaconSendTest_passThrough _ b.tnc)
  | info | invalid | unknown =>
    obtain rfl := Option.some.inj hr
    exact h
  | run c value =>
    cases c with
    | call | path | text =>
      obtain rfl := Option.some.inj hr
      exact h.withStore _
    | symbol | beacon =>
      obtain ⟨s, -, rfl⟩ := Option.map_eq_some_iff.mp hr
      exact h.withStore s
    | mode | kiss =>
      obtain ⟨b', hb', rfl⟩ := Option.map_eq_some_iff.mp hr
      exact h.switchMode hb'
    | reset =>
      unfold Board.command at hr
      dsimp only at hr
      split_ifs at hr
      · obtain ⟨b', hb', rfl⟩ := Option.map_eq_some_iff.mp hr
        exact Board.init_safe hb'
      · obtain rfl := Option.some.inj hr
        exact h.withStore _

theorem Board.Safe.consolePoll {b : Board} (h : b.Safe) {r : Board × Bool}
    (hr : TinyAprs.consolePoll b = some r) : r.1.Safe := by
  have hside : { b with side := (serialreaderReadline b.side).1 }.Safe := h.congr rfl rfl
  unfold TinyAprs.consolePoll at hr
  dsimp only at hr
  split_ifs at hr with hline
  · obtain ⟨line, -, hr⟩ := Option.bind_eq_some_iff.mp hr
    exact hside.command hr
  · obtain rfl := Option.some.inj hr
    exact hside

theorem Board.Safe.consoleTurn {b b' : Board} (h : b.Safe) {t : PollTime} (hb : b.consoleTurn t = some b') :
    b'.Safe := by
  unfold Board.consoleTurn at hb
  obtain ⟨⟨b₁, restarted⟩, hpoll, hb⟩ := Option.bind_eq_some_iff.mp hb
  have hsafe := h.consolePoll hpoll
  obtain rfl := Option.some.inj hb
  cases restarted with
  | true => exact hsafe
  | false =>
    refine hsafe.congr rfl ?_
    show (if _ then _ else _ : Tnc).modem.passThrough = _
    split_ifs
    · exact sendFixedText_passThrough b₁.tnc
    · rfl

theorem Board.Safe.trackerPoll {b : Board} (h : b.Safe) (fix : Option (Fix × List UInt8)) :
    (TinyAprs.trackerPoll b fix).Safe := by
  have hside : { b with side := (serialreaderReadline b.side).1 }.Safe := h.congr rfl rfl
  unfold TinyAprs.trackerPoll
  rcases fix with _ | ⟨f, payload⟩
  · exact hside
  · dsimp only
    split_ifs
    · exact h.congr rfl (ax25SendVia_passThrough b.tnc.modem _ _)
    · exact h.congr rfl rfl
    · exact hside

/-! ### The KISS line -/

theorem csmaBusy_passThrough (polls : List Poll) (modem : AX25Ctx) :
    (csmaBusy modem polls).1.passThrough = modem.passThrough ∧
      ∀ call ∈ csmaBusyCalls modem polls, call.ctx.passThrough = modem.passThrough := by
  induction polls generalizing modem with
  | nil => exact ⟨rfl, fun _ h => absurd h List.not_mem_nil⟩
  | cons p ps ih =>
    have hpoll := ax25Poll_passThrough p.stk modem p.chars p.error
    have hcalls := poll_calls p.stk modem p.chars p.error
    obtain ⟨hrest, hrestCalls⟩ := ih (ax25Poll p.stk modem p.chars p.error).1
    unfold csmaBusy csmaBusyCalls
    dsimp only
    split_ifs with hstatus
    · rw [List.append_nil]
      exact ⟨hpoll, hcalls⟩
    · refine ⟨hrest.trans hpoll, fun call hcall => ?_⟩
      rcases List.mem_append.mp hcall with hcall | hcall
      · exact hcalls call hcall
      · exact (hrestCalls call hcall).trans hpoll

theorem csma_passThrough (persistence : UInt8) : ∀ (turns : List Turn) (modem : AX25Ctx),
    (∀ r, csma persistence modem turns = some r → r.1.passThrough = modem.passThrough) ∧
      ∀ call ∈ csmaCalls persistence modem turns, call.ctx.passThrough = modem.passThrough
  | [], _ => ⟨fun r h => (nomatch h), fun _ h => absurd h List.not_mem_nil⟩
  | .idle i :: turns, modem => by
    obtain ⟨hrest, hcalls⟩ := csma_passThrough persistence turns modem
    unfold csma csmaCalls
    split_ifs
    · refine ⟨fun r hr => ?_, fun _ h => absurd h List.not_mem_nil⟩
      obtain rfl := Option.some.inj hr
      rfl
    · exact ⟨hrest, hcalls⟩
  | .busy polls :: turns, modem => by
    obtain ⟨hbusy, hbusyCalls⟩ := csmaBusy_passThrough polls modem
    obtain ⟨hrest, hcalls⟩ := csma_passThrough persistence turns (csmaBusy modem polls).1
    unfold csma csmaCalls
    dsimp only
    split_ifs with hdrop
    · rw [List.append_nil]
      refine ⟨fun r hr => ?_, hbusyCalls⟩
      obtain rfl := Option.some.inj hr
      exact hbusy
    · refine ⟨fun r hr => ?_, fun call hcall => ?_⟩
      · obtain ⟨q, hq, rfl⟩ := Option.map_eq_some_iff.mp hr
        exact (hrest q hq).trans hbusy
      · rcases List.mem_append.mp hcall with hcall | hcall
        · exact hbusyCalls call hcall
        · exact (hcalls call hcall).trans hbusy

theorem kissCalls_passThrough (t : Tnc) (turns : List Turn) (h : Handed) :
    ∀ call ∈ kissCalls t turns h, call.ctx.passThrough = t.modem.passThrough := by
  intro call hcall
  unfold kissCalls at hcall
  split_ifs at hcall
  · exact (csma_passThrough t.settings.rf.persistence turns t.modem).2 call hcall
  · exact absurd hcall List.not_mem_nil

theorem sendToModem_passThrough {t : Tnc} {turns : List Turn} {rbuf : ℕ → UInt8} {buf : List UInt8} {e : Effect}
    (he : kissSendToModem t turns rbuf buf = some e) : e.tnc.modem.passThrough = t.modem.passThrough := by
  unfold kissSendToModem at he
  obtain ⟨⟨modem, serial, send⟩, hch, he⟩ := Option.bind_eq_some_iff.mp he
  have hmodem : modem.passThrough = t.modem.passThrough := by
    unfold kissChannel at hch
    split_ifs at hch
    · obtain rfl := congrArg Prod.fst (Option.some.inj hch)
      rfl
    · exact (csma_passThrough t.settings.rf.persistence turns t.modem).1 _ hch
  dsimp only at he
  split_ifs at he
  · obtain rfl := Option.some.inj he
    exact (ax25SendRaw_passThrough modem buf).trans hmodem
  · obtain rfl := Option.some.inj he
    exact hmodem

/-- A request leaves `pass_through`. -/
theorem handleRequest_passThrough {t : Tnc} {turns : List Turn} {buf : ℕ → UInt8} {q : Request} {e : Effect}
    (he : handleRequest t turns buf q = some e) : e.tnc.modem.passThrough = t.modem.passThrough := by
  cases q with
  | data payload => exact sendToModem_passThrough he
  | params d =>
    obtain ⟨e', he', hmodem, -⟩ := kissParams_spec t buf d
    obtain rfl := Option.some.inj (he'.symm.trans he)
    rw [hmodem]
  | text d =>
    obtain ⟨e', he', hmodem, -⟩ := kissText_spec t buf d
    obtain rfl := Option.some.inj (he'.symm.trans he)
    rw [hmodem]
  | call d =>
    obtain ⟨e', he', hmodem, -⟩ := kissCall_spec t buf d
    obtain rfl := Option.some.inj (he'.symm.trans he)
    rw [hmodem]
  | magic d => rw [magicCmd_tnc t buf he]
  | nothing =>
    obtain rfl := Option.some.inj he
    rfl

theorem Board.Safe.kissTurn {b b' : Board} (h : b.Safe) {now : Int32} {turns : List Turn}
    (hb : b.kissTurn now turns = some b') : b'.Safe := by
  have hsize := kissPoll_size (b.handle turns) b.side now
  unfold Board.kissTurn at hb
  dsimp only at hb
  cases hframes : (kissPoll (b.handle turns) b.side now).2 with
  | nil =>
    rw [hframes] at hb
    obtain rfl := Option.some.inj hb
    exact h.congr rfl rfl
  | cons x xs =>
    rw [hframes] at hb hsize
    obtain ⟨e, he, hb⟩ := Option.bind_eq_some_iff.mp hb
    rw [kissHandleFrame_eq _ _ _ (hsize x List.mem_cons_self)] at he
    split_ifs at hb
    · exact Board.init_safe hb
    · obtain rfl := Option.some.inj hb
      exact h.congr rfl (handleRequest_passThrough he)

/-! ### Every run -/

theorem Board.Safe.turn {b : Board} (h : b.Safe) (x : Input) :
    (∀ b', (b.turn x).1 = some b' → b'.Safe) ∧ ∀ o ∈ (b.turn x).2, o.Safe := by
  unfold Board.turn
  cases hmode : b.currentMode with
  | cfg | digi => exact ⟨fun b' hb' => h.consoleTurn hb', noHooks_safe⟩
  | tracker =>
    refine ⟨fun b' hb' => ?_, noHooks_safe⟩
    obtain rfl := Option.some.inj hb'
    exact h.trackerPoll x.fix
  | kiss =>
    refine ⟨fun b' hb' => h.kissTurn hb', fun o ho => ?_⟩
    obtain ⟨call, hcall, rfl⟩ := List.mem_map.mp ho
    obtain ⟨frame, -, hcall⟩ := List.mem_flatMap.mp hcall
    refine ⟨fun hm => ?_, fun _ => ?_⟩
    · rcases hm with hm | hm <;> cases hm
    · exact (kissCalls_passThrough b.tnc x.turns frame call hcall).trans (h.pass hmode)
  | testBeacon =>
    have := h.mode
    rw [hmode] at this
    exact absurd this (by decide)

/-- Every event keeps the mode and the modem in agreement. -/
theorem boardStep_safe (o : Option Board) (ev : BoardEvent) (h : ∀ b, o = some b → b.Safe) :
    (∀ b, (boardStep o ev).1 = some b → b.Safe) ∧ ∀ c ∈ (boardStep o ev).2, c.Safe := by
  cases o with
  | none => exact ⟨fun b hb => (nomatch hb), noHooks_safe⟩
  | some b =>
    have hb := h b rfl
    cases ev with
    | rx ucsr0a udr0 =>
      refine ⟨fun b' hb' => ?_, noHooks_safe⟩
      obtain rfl := Option.some.inj hb'
      exact hb.congr rfl rfl
    | poll heard error =>
      refine ⟨fun b' hb' => ?_, (hb.poll heard error).2⟩
      obtain rfl := Option.some.inj hb'
      exact (hb.poll heard error).1
    | check now => exact ⟨fun b' hb' => hb.checkRunMode hb', noHooks_safe⟩
    | turn x => exact hb.turn x

/-- **The mode is always one of the four, and no mode that reads a message is
called without one.** In every run, from any EEPROM and over any events:
`pass_through` is 0 in the modes `CFG` and `DIGI` and 1 in `KISS`, and the
same holds wherever the hook is called, so that in `CFG` and `DIGI` it is
never called with `NULL`. -/
theorem mode_safe (ee : Eeprom) (es : List BoardEvent) :
    (∀ b, boardRun ee es = some b → b.Safe) ∧ ∀ h ∈ boardCalls ee es, h.Safe := by
  have hinit : ∀ b, Board.init ee = some b → b.Safe := fun b hb => Board.init_safe hb
  refine ⟨?_, ?_⟩
  · exact final_inv boardStep (fun o => ∀ b, o = some b → b.Safe) (fun o ev h => (boardStep_safe o ev h).1)
      (Board.init ee) es hinit
  · exact outs_forall boardStep (fun o => ∀ b, o = some b → b.Safe) (fun o ev h => boardStep_safe o ev h)
      (Board.init ee) es hinit

/-- The timer takes a new board to the default mode. -/
theorem mode_safe_boot :
    (boardRun blankEeprom [.check 5, .check 10006]).map Board.currentMode = some .kiss ∧
      ∀ b, boardRun blankEeprom [.check 5, .check 10006] = some b → b.Safe :=
  ⟨by decide, (mode_safe blankEeprom [.check 5, .check 10006]).1⟩

end TinyAprs
