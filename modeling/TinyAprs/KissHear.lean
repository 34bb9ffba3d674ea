/-
# What a host hears

In KISS mode the modem is read in two places: by the main loop, and by
`kiss_send_to_modem` while it waits for the channel. Between them the board
sends, answers the host and checks its mode. All of it leaves the receiver's
state as it is, so that what is heard is one stream (`Receives`): the frames that
reach the host are those that stand in that stream, in their order and each of
them once, also if one begins before a frame of the host comes in and ends while
that frame waits (`kiss_hears`). With what a board sends as that stream, the
frames get from one board to the host of another (`board_to_host`).
-/
import TinyAprs.BoardAir
import TinyAprs.BoardLine
import TinyAprs.KissSend

namespace TinyAprs

open Mealy Framing

/-! ### What is read from the modem -/

/-- The characters that `ax25_poll` finds while `csmaBusy` waits. -/
def csmaBusyChars : List Poll → List UInt8
  | [] => []
  | p :: ps => p.chars ++ if p.status then [] else csmaBusyChars ps

/-- Those of the CSMA loop, also if it goes on waiting. -/
def csmaChars (persistence : UInt8) (modem : AX25Ctx) : List Turn → List UInt8
  | [] => []
  | .idle i :: turns => if csmaTp i < persistence then [] else csmaChars persistence modem turns
  | .busy polls :: turns =>
    let r := csmaBusy modem polls
    csmaBusyChars polls ++ if r.2.2 then [] else csmaChars persistence r.1 turns

/-- Those of `kiss_handle_frame`. -/
def kissChars (t : Tnc) (turns : List Turn) (h : Handed) : List UInt8 :=
  if h.isData ∧ t.settings.rf.duplex ≠ rfDuplexFull then csmaChars t.settings.rf.persistence t.modem turns
  else []

/-- An event, with the characters it reads from the modem. -/
def charStep : Option Board → BoardEvent → Option Board × List UInt8
  | none, ev => ((boardStep none ev).1, [])
  | some b, ev => ((boardStep (some b) ev).1, match ev with
    | .rx _ _ => []
    | .poll heard _ => heard.map Heard.char
    | .check _ => []
    | .turn x =>
      if b.currentMode = .kiss then (kissPoll (b.handle x.turns) b.side x.now).2.flatMap (kissChars b.tnc x.turns)
      else [])

/-- What a board reads from the modem in a run. -/
def boardChars (b : Board) (es : List BoardEvent) : List UInt8 := outs charStep (some b) es

/-! ### Receiving -/

/-- From `ctx` to `ctx'` the characters `cs` are received: the frames among them
are delivered by the calls. -/
def Receives (ctx : AX25Ctx) (cs : List UInt8) (calls : List HookCall) (ctx' : AX25Ctx) : Prop :=
  ∀ pending seg, Follows pending seg ctx → Token.reset ∉ outs ax25Marks.read pending cs →
    Follows (final ax25Marks.read pending cs) (final Framing.cut seg (outs ax25Marks.read pending cs)) ctx' ∧
      Delivers calls (deliveredOf (outs Framing.cut seg (outs ax25Marks.read pending cs)))

variable {ctx ctx' ctx'' : AX25Ctx} {cs cs' : List UInt8} {calls calls' : List HookCall}

theorem Receives.refl (ctx : AX25Ctx) : Receives ctx [] [] ctx := fun _ _ h _ => ⟨h, delivers_nil⟩

theorem Receives.append (h : Receives ctx cs calls ctx') (h' : Receives ctx' cs' calls' ctx'') :
    Receives ctx (cs ++ cs') (calls ++ calls') ctx'' := by
  intro pending seg hf hreset
  rw [outs_append, List.mem_append, not_or] at hreset
  obtain ⟨hf', hd⟩ := h pending seg hf hreset.1
  obtain ⟨hf'', hd'⟩ := h' _ _ hf' hreset.2
  rw [outs_append, final_append, final_append, outs_append, deliveredOf_append]
  exact ⟨hf'', hd.append hd'⟩

/-- What the receiver goes by has not changed. -/
structure SameRx (ctx ctx' : AX25Ctx) : Prop where
  escape : ctx'.escape = ctx.escape
  hook : ctx'.hook = ctx.hook
  passThrough : ctx'.passThrough = ctx.passThrough
  frmLen : ctx'.frmLen = ctx.frmLen
  buf : ctx'.buf = ctx.buf
  crcIn : ctx'.crcIn = ctx.crcIn
  sync : ctx'.sync = ctx.sync

theorem SameRx.follows (h : SameRx ctx ctx') {pending : Bool} {seg : Option (List UInt8)}
    (hf : Follows pending seg ctx) : Follows pending seg ctx' :=
  ⟨h.escape.trans hf.escape, h.hook.trans hf.hook, h.passThrough.trans hf.passThrough, h.frmLen.trans hf.frmLen,
    h.buf ▸ hf.buf, h.crcIn.trans hf.crcIn, h.sync.trans hf.sync⟩

theorem SameRx.refl (ctx : AX25Ctx) : SameRx ctx ctx := ⟨rfl, rfl, rfl, rfl, rfl, rfl, rfl⟩

theorem Receives.same (h : Receives ctx cs calls ctx') (hs : SameRx ctx' ctx'') : Receives ctx cs calls ctx'' := by
  intro pending seg hf hreset
  obtain ⟨hf', hd⟩ := h pending seg hf hreset
  exact ⟨hs.follows hf', hd⟩

/-- A channel error touches the carrier detection and the statistics only. -/
theorem sameRx_error (stk : AX25Msg) (ctx : AX25Ctx) (cs : List UInt8) (error : Bool) :
    SameRx (final (ax25PollChar stk) ctx cs) (ax25Poll stk ctx cs error).1 := by
  unfold ax25Poll
  dsimp only
  split_ifs
  · exact ⟨rfl, rfl, rfl, rfl, rfl, rfl, rfl⟩
  · exact ⟨rfl, rfl, rfl, rfl, rfl, rfl, rfl⟩
  · exact ⟨rfl, rfl, rfl, rfl, rfl, rfl, rfl⟩

/-- Sending touches the CRC of the output and the statistics only. -/
theorem sameRx_sendRaw (ctx : AX25Ctx) (buf : List UInt8) : SameRx ctx (ax25SendRaw ctx buf).1 := by
  unfold ax25SendRaw ax25SendCrc
  simp only [ax25Puts_eq]
  exact ⟨rfl, rfl, rfl, rfl, rfl, rfl, rfl⟩

/-- A call of `ax25_poll`. -/
theorem receives_poll (stk : AX25Msg) (ctx : AX25Ctx) (cs : List UInt8) (error : Bool) :
    Receives ctx cs (ax25Poll stk ctx cs error).2 (ax25Poll stk ctx cs error).1 := by
  have hchars : Receives ctx cs (ax25Poll stk ctx cs error).2 (final (ax25PollChar stk) ctx cs) :=
    fun pending seg hf hreset => hf.chars cs stk hreset
  exact hchars.same (sameRx_error stk ctx cs error)

/-! ### Waiting for the channel -/

theorem receives_csmaBusy : ∀ (polls : List Poll) (modem : AX25Ctx),
    Receives modem (csmaBusyChars polls) (csmaBusyCalls modem polls) (csmaBusy modem polls).1
  | [], modem => .refl modem
  | p :: ps, modem => by
    have hpoll := receives_poll p.stk modem p.chars p.error
    have hrest := receives_csmaBusy ps (ax25Poll p.stk modem p.chars p.error).1
    unfold csmaBusyChars csmaBusyCalls csmaBusy
    dsimp only
    split_ifs
    · rw [List.append_nil, List.append_nil]
      exact hpoll
    · exact hpoll.append hrest

theorem receives_csma (persistence : UInt8) : ∀ (turns : List Turn) (modem : AX25Ctx), ∃ ctx,
    Receives modem (csmaChars persistence modem turns) (csmaCalls persistence modem turns) ctx ∧
      ∀ r, csma persistence modem turns = some r → r.1 = ctx
  | [], modem => ⟨modem, .refl modem, fun r h => (nomatch h)⟩
  | .idle i :: turns, modem => by
    unfold csmaChars csmaCalls csma
    split_ifs
    · refine ⟨modem, .refl modem, fun r hr => ?_⟩
      obtain rfl := Option.some.inj hr
      rfl
    · exact receives_csma persistence turns modem
  | .busy polls :: turns, modem => by
    have hbusy := receives_csmaBusy polls modem
    obtain ⟨ctx, hrest, hctx⟩ := receives_csma persistence turns (csmaBusy modem polls).1
    unfold csmaChars csmaCalls csma
    dsimp only
    split_ifs
    · refine ⟨_, by rw [List.append_nil, List.append_nil]; exact hbusy, fun r hr => ?_⟩
      obtain rfl := Option.some.inj hr
      rfl
    · refine ⟨ctx, hbusy.append hrest, fun r hr => ?_⟩
      obtain ⟨q, hq, rfl⟩ := Option.map_eq_some_iff.mp hr
      exact hctx q hq

/-- `kiss_send_to_modem` up to where it sends; with full duplex it reads nothing. -/
theorem receives_channel (t : Tnc) (turns : List Turn) {h : Handed} (hdata : h.isData = true) : ∃ ctx,
    Receives t.modem (kissChars t turns h) (kissCalls t turns h) ctx ∧
      ∀ r, kissChannel t turns = some r → r.1 = ctx := by
  unfold kissChars kissCalls kissChannel
  by_cases hfull : t.settings.rf.duplex = rfDuplexFull
  · rw [if_neg fun hif => hif.2 hfull, if_neg fun hif => hif.2 hfull, if_pos hfull]
    refine ⟨t.modem, .refl t.modem, fun r hr => ?_⟩
    obtain rfl := Option.some.inj hr
    rfl
  · rw [if_pos ⟨hdata, hfull⟩, if_pos ⟨hdata, hfull⟩, if_neg hfull]
    exact receives_csma t.settings.rf.persistence turns t.modem

theorem isData_of_request {h : Handed} {payload : List UInt8} (hreq : request h.bytes = .data payload) :
    h.isData = true := by
  have hlen : h.bytes.length = h.size := Cells.length_slice _ _ _
  unfold request at hreq
  split at hreq
  · rename_i c x rest hb
    rw [hb, List.length_cons, List.length_cons] at hlen
    split_ifs at hreq with hc
    · rw [isData_iff, hb, hc, List.getD_cons_zero]
      exact ⟨by omega, by decide, by decide⟩
    · unfold configRequest at hreq
      split_ifs at hreq
  · cases hreq

theorem handleRequest_modem {t : Tnc} {turns : List Turn} {buf : ℕ → UInt8} {q : Request} {e : Effect}
    (he : handleRequest t turns buf q = some e) (hq : ∀ payload, q ≠ .data payload) : e.tnc.modem = t.modem := by
  cases q with
  | data payload => exact absurd rfl (hq payload)
  | params d =>
    obtain ⟨e', he', hmodem, -⟩ := kissParams_spec t buf d
    obtain rfl := Option.some.inj (he'.symm.trans he)
    exact hmodem
  | text d =>
    obtain ⟨e', he', hmodem, -⟩ := kissText_spec t buf d
    obtain rfl := Option.some.inj (he'.symm.trans he)
    exact hmodem
  | call d =>
    obtain ⟨e', he', hmodem, -⟩ := kissCall_spec t buf d
    obtain rfl := Option.some.inj (he'.symm.trans he)
    exact hmodem
  | magic d => rw [magicCmd_tnc t buf he]
  | nothing =>
    obtain rfl := Option.some.inj he
    rfl

/-- What is read while a frame of the host is handled; the answer to it, or its
transmission, leave the receiver. -/
theorem receives_frame (t : Tnc) (turns : List Turn) {h : Handed} (hsize : h.size ≤ 255) : ∃ ctx,
    Receives t.modem (kissChars t turns h) (kissCalls t turns h) ctx ∧
      ∀ e, kissHandleFrame t turns h = some e → SameRx ctx e.tnc.modem := by
  by_cases hdata : h.isData = true
  · obtain ⟨ctx, hreceives, hctx⟩ := receives_channel t turns hdata
    refine ⟨ctx, hreceives, fun e he => ?_⟩
    rw [kissHandleFrame_data hdata] at he
    obtain ⟨⟨modem, serial, send⟩, hch, he⟩ := Option.bind_eq_some_iff.mp he
    obtain rfl : modem = ctx := hctx _ hch
    cases send with
    | true =>
      obtain rfl := Option.some.inj he
      exact sameRx_sendRaw modem (h.bytes.drop 1)
    | false =>
      obtain rfl := Option.some.inj he
      exact .refl modem
  · refine ⟨t.modem, ?_, fun e he => ?_⟩
    · rw [kissChars, kissCalls, if_neg fun hif => hdata hif.1, if_neg fun hif => hdata hif.1]
      exact .refl t.modem
    · rw [kissHandleFrame_eq t turns h hsize] at he
      rw [handleRequest_modem he fun payload hreq => hdata (isData_of_request hreq)]
      exact .refl t.modem

/-! ### The events -/

variable {b b' : Board}

theorem Board.hear_kiss (hmode : b.currentMode = .kiss) (h : Heard) :
    (b.hear h).1 = { b with tnc.modem := (ax25PollChar h.stk b.tnc.modem h.char).1 } := by
  have hhook : ∀ (calls : List HookCall) (b : Board), b.currentMode = .kiss →
      calls.foldl (fun b call => b.hook h.clock call) b = b := by
    intro calls b hb
    induction calls with
    | nil => rfl
    | cons call calls ih => rw [List.foldl_cons, Board.hook, hb, ih]
  exact hhook _ _ hmode

theorem receives_hear (heard : List Heard) (hmode : b.currentMode = .kiss) :
    (final Board.hear b heard).currentMode = .kiss ∧
      Receives b.tnc.modem (heard.map Heard.char) ((outs Board.hear b heard).map Hooked.call)
        (final Board.hear b heard).tnc.modem := by
  induction heard generalizing b with
  | nil => exact ⟨hmode, .refl b.tnc.modem⟩
  | cons h heard ih =>
    have hchar : Receives b.tnc.modem [h.char] ((b.hear h).2.map Hooked.call) (b.hear h).1.tnc.modem := by
      rw [Board.hear_kiss hmode, show (b.hear h).2.map Hooked.call = outs (ax25PollChar h.stk) b.tnc.modem [h.char] by
        simp [Board.hear, Function.comp_def]]
      exact fun pending seg hf hreset => hf.chars [h.char] h.stk hreset
    obtain ⟨hfinal, hrest⟩ := ih (b := (b.hear h).1) (by rw [Board.hear_kiss hmode]; exact hmode)
    rw [final_cons, outs_cons, List.map_append, List.map_cons]
    exact ⟨hfinal, hchar.append hrest⟩

theorem receives_boardPoll (heard : List Heard) (error : Bool) (hmode : b.currentMode = .kiss) :
    Receives b.tnc.modem (heard.map Heard.char) ((b.poll heard error).2.map Hooked.call)
      (b.poll heard error).1.tnc.modem :=
  (receives_hear heard hmode).2.same (sameRx_error zeroMsg _ [] error)

theorem kissPollByte_one (handle : (ℕ → UInt8) → ℕ → (ℕ → UInt8)) (k : KissCtx) (now : Int32) (c : UInt8) :
    (kissPollByte handle k now c).2 = [] ∨ ∃ h, (kissPollByte handle k now c).2 = [h] := by
  unfold kissPollByte
  by_cases hfend : c = kissFend
  · rw [if_pos hfend]
    split_ifs
    · exact Or.inr ⟨_, rfl⟩
    · exact Or.inl rfl
  · rw [if_neg hfend]
    split_ifs <;> exact Or.inl rfl

/-- `kiss_poll` takes one byte, which ends one frame at most. -/
theorem kissPoll_one (handle : (ℕ → UInt8) → ℕ → (ℕ → UInt8)) (s : SerialSide) (now : Int32) :
    (kissPoll handle s now).2 = [] ∨ ∃ h, (kissPoll handle s now).2 = [h] := by
  unfold kissPoll
  split
  · exact Or.inl rfl
  · exact kissPollByte_one handle _ now _

/-- `kiss_poll`; after a restart the board is not in KISS mode. -/
theorem receives_kissTurn (now : Int32) (turns : List Turn) : ∃ ctx,
    Receives b.tnc.modem ((kissPoll (b.handle turns) b.side now).2.flatMap (kissChars b.tnc turns))
      ((kissPoll (b.handle turns) b.side now).2.flatMap (kissCalls b.tnc turns)) ctx ∧
    ∀ b', b.kissTurn now turns = some b' → b'.currentMode = .kiss → SameRx ctx b'.tnc.modem := by
  have hsize := kissPoll_size (b.handle turns) b.side now
  unfold Board.kissTurn
  dsimp only
  rcases kissPoll_one (b.handle turns) b.side now with hnil | ⟨h, hone⟩
  · rw [hnil]
    refine ⟨b.tnc.modem, .refl b.tnc.modem, fun b' hb' _ => ?_⟩
    obtain rfl := Option.some.inj hb'
    exact .refl b.tnc.modem
  · rw [hone] at hsize ⊢
    obtain ⟨ctx, hreceives, hctx⟩ := receives_frame b.tnc turns (hsize h List.mem_cons_self)
    rw [List.flatMap_singleton, List.flatMap_singleton]
    refine ⟨ctx, hreceives, fun b' hb' hmode => ?_⟩
    obtain ⟨e, he, hb'⟩ := Option.bind_eq_some_iff.mp hb'
    split_ifs at hb' with hreset
    · rw [init_mode hb'] at hmode
      cases hmode
    · obtain rfl := Option.some.inj hb'
      exact hctx e he

theorem Board.turn_kiss (hmode : b.currentMode = .kiss) (x : Input) : b.turn x = (b.kissTurn x.now x.turns,
    ((kissPoll (b.handle x.turns) b.side x.now).2.flatMap (kissCalls b.tnc x.turns)).map
      fun call => ⟨b.currentMode, call⟩) := by
  unfold Board.turn
  rw [hmode]

theorem boardStep_turn_kiss (hmode : b.currentMode = .kiss) (x : Input) :
    (boardStep (some b) (.turn x)).1 = b.kissTurn x.now x.turns :=
  congrArg Prod.fst (Board.turn_kiss hmode x)

/-- An event in KISS mode, after which the board may have stopped, or left the
mode. -/
theorem receives_event (hmode : b.currentMode = .kiss) (ev : BoardEvent) :
    (∃ ctx, Receives b.tnc.modem (charStep (some b) ev).2 ((boardStep (some b) ev).2.map Hooked.call) ctx) ∧
      ∀ b', (boardStep (some b) ev).1 = some b' → b'.currentMode = .kiss →
        Receives b.tnc.modem (charStep (some b) ev).2 ((boardStep (some b) ev).2.map Hooked.call) b'.tnc.modem := by
  cases ev with
  | rx ucsr0a udr0 =>
    refine ⟨⟨b.tnc.modem, .refl b.tnc.modem⟩, fun b' hb' _ => ?_⟩
    obtain rfl := Option.some.inj hb'
    exact .refl b.tnc.modem
  | poll heard error =>
    have hpoll := receives_boardPoll heard error hmode
    refine ⟨⟨_, hpoll⟩, fun b' hb' _ => ?_⟩
    obtain rfl := Option.some.inj hb'
    exact hpoll
  | check now =>
    refine ⟨⟨b.tnc.modem, .refl b.tnc.modem⟩, fun b' hb' hmode' => ?_⟩
    rcases checkRunMode_stays (Or.inl (by rw [hmode]; decide)) hb' with hleft | ⟨start, rfl⟩
    · exact absurd (hmode'.trans hmode.symm) hleft
    · exact .refl b.tnc.modem
  | turn x =>
    have hchars : (charStep (some b) (.turn x)).2 =
        (kissPoll (b.handle x.turns) b.side x.now).2.flatMap (kissChars b.tnc x.turns) := if_pos hmode
    have hcalls : (boardStep (some b) (.turn x)).2.map Hooked.call =
        (kissPoll (b.handle x.turns) b.side x.now).2.flatMap (kissCalls b.tnc x.turns) := by
      show (b.turn x).2.map Hooked.call = _
      rw [Board.turn_kiss hmode, List.map_map]
      exact List.map_id _
    obtain ⟨ctx, hreceives, hctx⟩ := receives_kissTurn (b := b) x.now x.turns
    rw [hchars, hcalls]
    refine ⟨⟨ctx, hreceives⟩, fun b' hb' hmode' => hreceives.same (hctx b' ?_ hmode')⟩
    rw [← hb', boardStep_turn_kiss hmode]

/-! ### Runs -/

theorem receives_run (es : List BoardEvent) (hkiss : StaysIn .kiss (some b) es) : ∃ ctx,
    Receives b.tnc.modem (boardChars b es) ((outs boardStep (some b) es).map Hooked.call) ctx := by
  induction es generalizing b with
  | nil => exact ⟨b.tnc.modem, .refl b.tnc.modem⟩
  | cons ev es ih =>
    obtain ⟨⟨ctx, hlast⟩, hnext⟩ := receives_event hkiss.1 ev
    have hrest := hkiss.2
    rw [boardChars, outs_cons, outs_cons, List.map_append,
      show (charStep (some b) ev).1 = (boardStep (some b) ev).1 from rfl]
    cases hb : (boardStep (some b) ev).1 with
    | none =>
      rw [(outs_stopped charStep (fun _ => rfl) es).2, (outs_stopped boardStep (fun _ => rfl) es).2, List.append_nil,
        List.map_nil, List.append_nil]
      exact ⟨ctx, hlast⟩
    | some b' =>
      rw [hb] at hrest
      obtain ⟨ctx', hreceives⟩ := ih hrest
      exact ⟨ctx', (hnext b' hb hrest.mode).append hreceives⟩

/-- What the hook calls write to the host, in KISS mode. -/
def hostLine (b : Board) (es : List BoardEvent) : List UInt8 :=
  (outs boardStep (some b) es).flatMap fun h => ax25MsgCallback h.call

theorem ax25MsgCallback_eq (call : HookCall) :
    ax25MsgCallback call = kissSendToSerial 0 0 (call.frame.take (call.frame.length - 2)) := by
  have hslice : call.frame.take (call.frame.length - 2) = Cells.slice call.ctx.buf 0 (call.ctx.frmLen - 2) := by
    rw [HookCall.frame, Cells.length_slice, Cells.slice, ← List.map_take, List.take_range,
      Nat.min_eq_left (Nat.sub_le _ _)]
    rfl
  rw [ax25MsgCallback, hslice]

theorem Delivers.hostLine {calls : List HookCall} {frames : List (List UInt8)} (h : Delivers calls frames) :
    calls.flatMap ax25MsgCallback = frames.flatMap fun f => kissSendToSerial 0 0 (f.take (f.length - 2)) := by
  rw [← h.1, List.flatMap_map]
  exact List.flatMap_congr fun call _ => ax25MsgCallback_eq call

/-- A board that has just entered KISS mode. -/
def kissBoard : Board := bootedBoard.enter .kiss

/-- A poll of the main loop that finds these characters. -/
def pollOf (cs : List UInt8) : BoardEvent := .poll (cs.map fun c => ⟨c, zeroMsg, default⟩) false

theorem pollOf_chars (cs : List UInt8) : boardChars kissBoard [pollOf cs] = cs := by
  show (cs.map _).map Heard.char ++ [] = cs
  rw [List.append_nil, List.map_map]
  exact List.map_id cs

/-- The frames of a sender that fit the buffer are delivered, unless they are
too short. -/
theorem deliveredOf_sent (contents : List (List UInt8)) (hfits : ∀ f ∈ contents, f.length + 2 ≤ configAx25FrameBufLen) :
    deliveredOf (contents.map withCrc) =
      (contents.filter fun f => decide (ax25MinFrameLen ≤ f.length + 2)).map withCrc := by
  induction contents with
  | nil => rfl
  | cons f contents ih =>
    have htake : (withCrc f).take configAx25FrameBufLen = withCrc f :=
      List.take_of_length_le (by rw [length_withCrc]; exact hfits f List.mem_cons_self)
    have hfound : frameFound (withCrc f) = decide (ax25MinFrameLen ≤ f.length + 2) := by
      rw [frameFound, length_withCrc, crcCcitt_withCrc, decide_eq_decide]
      exact and_iff_left rfl
    rw [List.map_cons, deliveredOf_cons, ih fun g hg => hfits g (List.mem_cons_of_mem f hg), deliveredOf,
      List.map_singleton, htake, List.filter_singleton, hfound, List.filter_cons]
    cases decide (ax25MinFrameLen ≤ f.length + 2) <;> rfl

theorem take_withCrc (f : List UInt8) : (withCrc f).take ((withCrc f).length - 2) = f := by
  rw [length_withCrc, Nat.add_sub_cancel, withCrc, List.take_left]

/-- A board that hears frames, and is not within another: its host gets their
contents. -/
theorem hostLine_frames {es : List BoardEvent} (hkiss : StaysIn .kiss (some b) es) {seg : Option (List UInt8)}
    (hf : Follows false seg b.tnc.modem) (hseg : deliveredOf seg.toList = []) {contents : List (List UInt8)}
    (hheard : boardChars b es = contents.flatMap airFrame)
    (hfits : ∀ f ∈ contents, f.length + 2 ≤ configAx25FrameBufLen) : hostLine b es =
      (contents.filter fun f => decide (ax25MinFrameLen ≤ f.length + 2)).flatMap (kissSendToSerial 0 0) := by
  have htokens : outs ax25Marks.read false (boardChars b es) = contents.flatMap frameTokens := by
    rw [hheard]
    exact tokens_airFrames contents
  have hreset : Token.reset ∉ outs ax25Marks.read false (boardChars b es) := by
    rw [htokens]
    simp [frameTokens]
  obtain ⟨ctx, hreceives⟩ := receives_run es hkiss
  obtain ⟨-, hdelivers⟩ := hreceives false seg hf hreset
  rw [htokens, delivered_frames contents seg hseg, deliveredOf_sent contents hfits] at hdelivers
  have hline := hdelivers.hostLine
  rw [List.flatMap_map, List.flatMap_map] at hline
  exact hline.trans (List.flatMap_congr fun f _ => by rw [take_withCrc])

/-- **What one board sends, the host of another gets.** One board runs from any
EEPROM over any events. Another, in KISS mode and not within a frame, hears what
it sends, in the main loop or while its own frames wait. Then the first has sent
whole frames, each of them one that it may send, and if these fit the buffer the
host of the second gets the contents of all but the too short ones, in their
order. -/
theorem board_to_host (ee : Eeprom) (es : List BoardEvent) (b : Board) (es' : List BoardEvent)
    (hkiss : StaysIn .kiss (some b) es') (seg : Option (List UInt8)) (hf : Follows false seg b.tnc.modem)
    (hseg : deliveredOf seg.toList = []) (hheard : boardChars b es' = (boardSends ee es).flatMap Burst.bytes) :
    ∃ contents : List (List UInt8), (boardSends ee es).flatMap Burst.bytes = contents.flatMap airFrame ∧
      (∀ f ∈ contents, ∃ x ∈ boardSends ee es, x.Allows f) ∧
      ((∀ f ∈ contents, f.length + 2 ≤ configAx25FrameBufLen) → hostLine b es' =
        (contents.filter fun f => decide (ax25MinFrameLen ≤ f.length + 2)).flatMap (kissSendToSerial 0 0)) := by
  obtain ⟨contents, hbytes, hallows⟩ := run_contents ee es
  exact ⟨contents, hbytes, hallows, hostLine_frames hkiss hf hseg (hheard.trans hbytes)⟩

/-- The test packet of `testTyped`, polled at once. -/
def testHeard : List BoardEvent := [pollOf ((boardSends blankEeprom testTyped).flatMap Burst.bytes)]

theorem testTyped_fits {contents : List (List UInt8)}
    (hbytes : (boardSends blankEeprom testTyped).flatMap Burst.bytes = contents.flatMap airFrame) :
    ∀ f ∈ contents, f.length + 2 ≤ configAx25FrameBufLen := by
  intro f hf
  have hsent : (ax25Marks.tokens ((boardSends blankEeprom testTyped).flatMap Burst.bytes)).length ≤
      configAx25FrameBufLen := by decide +kernel
  have hle : (frameTokens f).length ≤ (contents.flatMap frameTokens).length :=
    (List.sublist_flatten_of_mem (List.mem_map_of_mem hf)).length_le
  rw [hbytes, tokens_airFrames] at hsent
  simp only [frameTokens, List.length_cons, List.length_append, List.length_map, length_withCrc] at hle
  omega

theorem board_to_host_typed : ∃ contents : List (List UInt8), contents ≠ [] ∧
    (boardSends blankEeprom testTyped).flatMap Burst.bytes = contents.flatMap airFrame ∧
    hostLine kissBoard testHeard =
      (contents.filter fun f => decide (ax25MinFrameLen ≤ f.length + 2)).flatMap (kissSendToSerial 0 0) := by
  obtain ⟨contents, hbytes, -, hline⟩ := board_to_host blankEeprom testTyped kissBoard testHeard
    (staysIn_poll _ _ rfl) none follows_init rfl (pollOf_chars _)
  refine ⟨contents, ?_, hbytes, hline (testTyped_fits hbytes)⟩
  rintro rfl
  obtain ⟨x, hx, -, hlen⟩ := testTyped_burst
  have hnil : x.bytes = [] := List.flatMap_eq_nil_iff.mp hbytes x hx
  rw [hnil] at hlen
  exact absurd hlen (by decide)

end TinyAprs
