/-
# What a host sends

The bytes of a host come in by interrupts, between any parts of the rounds of
the main loop, and in KISS mode a round takes one of them. So the frames that a
board handles are those of the KISS line, each byte with the time of the round
that takes it, and what the frames themselves leave in the buffer does not
matter (`SameRead`); as long as no interrupt fails, no byte is lost, repeated or
moved (`host_frames`).

A data frame is then sent as it is. With `KissHear` for the other side, what one
host writes is what the host of another board gets (`host_to_host`).
-/
import TinyAprs.KissAir
import TinyAprs.KissHear

namespace TinyAprs

open Mealy Framing

/-! ### The frames that are handled -/

/-- An event, with the frame it hands to `kiss_handle_frame`. -/
def handStep : Option Board → BoardEvent → Option Board × List Handed
  | none, ev => ((boardStep none ev).1, [])
  | some b, ev => ((boardStep (some b) ev).1, match ev with
    | .rx _ _ => []
    | .poll _ _ => []
    | .check _ => []
    | .turn x => if b.currentMode = .kiss then (kissPoll (b.handle x.turns) b.side x.now).2 else [])

def handed (b : Board) (es : List BoardEvent) : List Handed := outs handStep (some b) es

theorem handed_cons (b : Board) (ev : BoardEvent) (es : List BoardEvent) :
    handed b (ev :: es) = (handStep (some b) ev).2 ++ outs handStep (boardStep (some b) ev).1 es := rfl

/-! ### The frame that is read -/

/-- Two readers that have read the same of a frame. -/
structure SameRead (k k' : KissCtx) : Prop where
  readLen : k'.reader.readLen = k.reader.readLen
  bufLen : k'.reader.bufLen = k.reader.bufLen
  rxTick : k'.rxTick = k.rxTick
  escaped : k'.escaped = k.escaped
  buf : ∀ i < k.reader.readLen.toNat, k'.reader.buf i = k.reader.buf i

variable {k k' : KissCtx} (handle handle' : (ℕ → UInt8) → ℕ → (ℕ → UInt8))

/-- They go on alike, and hand over the same frames. -/
def SameFrames (r r' : KissCtx × List Handed) : Prop :=
  r'.2.map Handed.bytes = r.2.map Handed.bytes ∧ SameRead r.1 r'.1

theorem SameRead.refl (k : KissCtx) : SameRead k k := ⟨rfl, rfl, rfl, rfl, fun _ _ => rfl⟩

theorem SameRead.discard (h : SameRead k k') : SameRead k.discard k'.discard :=
  ⟨rfl, h.bufLen, h.rxTick, h.escaped, fun _ hi => absurd hi (Nat.not_lt_zero _)⟩

theorem SameRead.timedOut (h : SameRead k k') (now : Int32) : k'.timedOut now = k.timedOut now := by
  rw [KissCtx.timedOut, h.readLen, h.rxTick]
  rfl

theorem SameRead.tooLong (h : SameRead k k') : k'.tooLong = k.tooLong := by
  rw [KissCtx.tooLong, h.readLen, h.bufLen]
  rfl

/-- The byte is stored at the same place; at the end of its range `readLen`
begins anew. -/
theorem SameRead.store (h : SameRead k k') (escaped : Bool) (now : Int32) (c : UInt8) :
    SameRead ({ k with escaped := escaped }.store now c) ({ k' with escaped := escaped }.store now c) := by
  refine ⟨congrArg (· + 1) h.readLen, h.bufLen, rfl, rfl, fun i hi => ?_⟩
  show Function.update k'.reader.buf k'.reader.readLen.toNat c i = Function.update k.reader.buf _ c i
  rw [h.readLen]
  by_cases hlast : i = k.reader.readLen.toNat
  · rw [hlast, Function.update_self, Function.update_self]
  · rw [Function.update_of_ne hlast, Function.update_of_ne hlast]
    refine h.buf i ?_
    have hle : (k.reader.readLen + 1).toNat ≤ k.reader.readLen.toNat + 1 := by
      rw [UInt8.toNat_add]
      exact Nat.mod_le _ _
    have hlt : i < (k.reader.readLen + 1).toNat := hi
    omega

/-- A FEND hands over the same frame, whatever the handling leaves. -/
theorem SameRead.fend (h : SameRead k k') (now : Int32) :
    SameFrames (kissPollByte handle k now kissFend) (kissPollByte handle' k' now kissFend) := by
  have hbytes : Cells.slice k'.reader.buf 0 k.reader.readLen.toNat =
      Cells.slice k.reader.buf 0 k.reader.readLen.toNat :=
    Cells.slice_congr fun i hi => by rw [Nat.zero_add]; exact h.buf i hi
  unfold kissPollByte
  rw [if_pos rfl, if_pos rfl, h.escaped, h.readLen]
  split_ifs
  · exact ⟨congrArg (fun f => [f]) hbytes, rfl, h.bufLen, h.rxTick, rfl, fun _ hi => absurd hi (Nat.not_lt_zero _)⟩
  · exact ⟨rfl, rfl, h.bufLen, h.rxTick, rfl, fun _ hi => absurd hi (Nat.not_lt_zero _)⟩

theorem SameRead.byte (h : SameRead k k') (now : Int32) (c : UInt8) :
    SameFrames (kissPollByte handle k now c) (kissPollByte handle' k' now c) := by
  by_cases hfend : c = kissFend
  · subst hfend
    exact h.fend handle handle' now
  · have hstore := h.store k.escaped now
    rw [show { k with escaped := k.escaped } = k from rfl] at hstore
    nth_rewrite 2 [← h.escaped] at hstore
    rw [show { k' with escaped := k'.escaped } = k' from rfl] at hstore
    unfold kissPollByte
    rw [if_neg hfend, if_neg hfend, h.escaped]
    split_ifs
    · exact ⟨rfl, h.readLen, h.bufLen, h.rxTick, rfl, h.buf⟩
    · exact ⟨rfl, h.store false now kissFesc⟩
    · exact ⟨rfl, hstore c⟩
    · exact ⟨rfl, h.store false now kissFend⟩
    · exact ⟨rfl, hstore c⟩
    · exact ⟨rfl, h.store false now c⟩
    · exact ⟨rfl, hstore c⟩

theorem SameRead.poll (h : SameRead k k') (now : Int32) (c : UInt8) :
    SameFrames (kissPollSerial handle k now c) (kissPollSerial handle' k' now c) := by
  have hcheck : ∀ {k k' : KissCtx} {p : Prop} [Decidable p], SameRead k k' →
      SameRead (if p then k.discard else k) (if p then k'.discard else k') := by
    intro k k' p _ h
    split_ifs
    · exact h.discard
    · exact h
  unfold kissPollSerial
  dsimp only
  rw [h.timedOut now, (hcheck (p := k.timedOut now = true) h).tooLong]
  exact (hcheck (hcheck h)).byte handle handle' now c

/-! ### The serial port in a run -/

variable {b b' : Board}

theorem kissTurn_side {now : Int32} {turns : List Turn} (hb : b.kissTurn now turns = some b')
    (hmode' : b'.currentMode = .kiss) : b'.side = (kissPoll (b.handle turns) b.side now).1 := by
  unfold Board.kissTurn at hb
  dsimp only at hb
  split at hb
  · obtain rfl := Option.some.inj hb
    rfl
  · obtain ⟨e, -, hb⟩ := Option.bind_eq_some_iff.mp hb
    split_ifs at hb
    · rw [init_mode hb] at hmode'
      cases hmode'
    · obtain rfl := Option.some.inj hb
      rfl

theorem sideAfter_kiss (hmode : b.currentMode = .kiss) (x : Input) :
    b.sideAfter (.turn x) = (kissPoll (b.handle x.turns) b.side x.now).1 := by
  rw [Board.sideAfter, hmode]

theorem side_event (hmode : b.currentMode = .kiss) {ev : BoardEvent} (hb : (boardStep (some b) ev).1 = some b')
    (hmode' : b'.currentMode = .kiss) : b'.side = b.sideAfter ev := by
  cases ev with
  | rx ucsr0a udr0 =>
    obtain rfl := Option.some.inj hb
    rfl
  | poll heard error =>
    obtain rfl := Option.some.inj hb
    exact (hear_keeps heard b).2.1
  | check now =>
    rcases checkRunMode_stays (Or.inl (by rw [hmode]; decide)) hb with hleft | ⟨start, rfl⟩
    · exact absurd (hmode'.trans hmode.symm) hleft
    · rfl
  | turn x =>
    rw [boardStep_turn_kiss hmode] at hb
    rw [kissTurn_side hb hmode', sideAfter_kiss hmode]

theorem StaysIn.unpurged {es : List BoardEvent} (h : StaysIn .kiss (some b) es) : Unpurged (some b) es := by
  induction es generalizing b with
  | nil => trivial
  | cons ev es ih =>
    have hrest := h.2
    cases hb : (boardStep (some b) ev).1 with
    | none => exact unpurged_stop hb es
    | some b₁ =>
      rw [hb] at hrest
      exact .cons hb (side_event h.1 hb hrest.mode) (ih hrest)

/-! ### The frames in a run -/

/-- `kiss_poll_serial` on a byte with its time. -/
def pollStepAt (k : KissCtx) (x : Int32 × UInt8) : KissCtx × List Handed :=
  kissPollSerial (fun buf _ => buf) k x.1 x.2

/-- An event hands over what the KISS line does for the byte it takes. -/
theorem hands_event (hmode : b.currentMode = .kiss) (h : SameRead b.side.kiss k) (ev : BoardEvent) :
    (handStep (some b) ev).2.map Handed.bytes = (outs pollStepAt k (takeStep (some b) ev).2).map Handed.bytes ∧
      SameRead (b.sideAfter ev).kiss (final pollStepAt k (takeStep (some b) ev).2) := by
  cases ev with
  | rx ucsr0a udr0 => exact ⟨rfl, h⟩
  | poll heard error => exact ⟨rfl, h⟩
  | check now => exact ⟨rfl, h⟩
  | turn x =>
    have htake : (takeStep (some b) (.turn x)).2 = ((serGetchar b.side.ser).1.map (x.now, ·)).toList := by
      show (b.takes.map (x.now, ·)).toList = _
      rw [Board.takes, hmode, if_neg (by decide)]
    have hhand : (handStep (some b) (.turn x)).2 = (kissPoll (b.handle x.turns) b.side x.now).2 := if_pos hmode
    rw [htake, hhand, sideAfter_kiss hmode, kissPoll]
    split
    · rename_i ser hget
      rw [hget]
      exact ⟨rfl, h⟩
    · rename_i c ser hget
      rw [hget]
      obtain ⟨hbytes, hread⟩ := h.poll (b.handle x.turns) (fun buf _ => buf) x.now c
      refine ⟨?_, hread⟩
      show _ = (outs pollStepAt k [(x.now, c)]).map Handed.bytes
      rw [outs_cons, outs_nil, List.append_nil]
      exact hbytes.symm

theorem hands_run (es : List BoardEvent) (hkiss : StaysIn .kiss (some b) es) (h : SameRead b.side.kiss k) :
    (handed b es).map Handed.bytes = (outs pollStepAt k (taken b es)).map Handed.bytes := by
  induction es generalizing b k with
  | nil => rfl
  | cons ev es ih =>
    obtain ⟨hbytes, hread⟩ := hands_event hkiss.1 h ev
    have hrest := hkiss.2
    rw [handed_cons, taken_cons, outs_append, List.map_append, List.map_append, hbytes]
    congr 1
    cases hb₁ : (boardStep (some b) ev).1 with
    | none =>
      rw [(outs_stopped handStep (fun _ => rfl) es).2, (outs_stopped takeStep (fun _ => rfl) es).2, outs_nil]
    | some b₁ =>
      rw [hb₁] at hrest
      rw [← side_event hkiss.1 hb₁ hrest.mode] at hread
      exact ih hrest hread

/-- **A board handles the frames of the KISS line.** In KISS mode, with the
interrupts of the serial port between any events and none of them failing: what
has been taken, and what is still in the port, is what was in it and what has
come in since, and the frames handled are those that `kiss_poll_serial` finds in
what was taken, at the times it was taken, though each frame's handling may write
to the buffer it is read into. -/
theorem host_frames (b b' : Board) (es : List BoardEvent) (hkiss : StaysIn .kiss (some b) es)
    (hok : NoneFails (some b) es) (hb : final boardStep (some b) es = some b') :
    (taken b es).map Prod.snd ++ b'.side.ser.rxfifo.contents =
        b.side.ser.rxfifo.contents ++ es.flatMap BoardEvent.received ∧
      (handed b es).map Handed.bytes = (outs pollStepAt b.side.kiss (taken b es)).map Handed.bytes :=
  ⟨accounts_run es hkiss.unpurged hok hb, hands_run es hkiss (.refl b.side.kiss)⟩

/-- A host writes a payload, and each byte is taken at once. -/
def hostTyped : List BoardEvent :=
  (kissSendToSerial 0 0 (List.replicate 16 0x41)).flatMap fun c => [.rx 0 c, .turn ⟨0, [.idle 0], ⟨0, 0⟩, none⟩]

theorem hostTyped_taken : ∃ a', final boardStep (some kissBoard) hostTyped = some a' ∧
    a'.side.ser.rxfifo.contents = [] := by
  have hrun : (final boardStep (some kissBoard) hostTyped).any
      (fun a' => a'.side.ser.rxfifo.contents == []) = true := by decide +kernel
  obtain ⟨a', hfinal, hempty⟩ := (Option.any_eq_true _ _).mp hrun
  exact ⟨a', hfinal, beq_iff_eq.mp hempty⟩

theorem host_frames_typed : ∃ b', final boardStep (some kissBoard) hostTyped = some b' ∧
    (handed kissBoard hostTyped).map Handed.bytes = [kissCmdData :: List.replicate 16 0x41] := by
  obtain ⟨b', hb, -⟩ := hostTyped_taken
  refine ⟨b', hb, ?_⟩
  rw [(host_frames kissBoard b' hostTyped (by decide +kernel) (by decide +kernel) hb).2]
  decide +kernel

/-! ### To the channel -/

/-- The modem reports no error while a frame waits. -/
def Turn.errorFree : Turn → Bool
  | .idle _ => true
  | .busy polls => polls.all fun p => !p.status

def BoardEvent.errorFree : BoardEvent → Bool
  | .rx _ _ => true
  | .poll _ _ => true
  | .check _ => true
  | .turn x => x.turns.all Turn.errorFree

theorem csmaBusy_errorFree (polls : List Poll) (h : ∀ p ∈ polls, p.status = false) (modem : AX25Ctx) :
    (csmaBusy modem polls).2.2 = false := by
  induction polls generalizing modem with
  | nil => rfl
  | cons p ps ih =>
    unfold csmaBusy
    dsimp only
    rw [h p List.mem_cons_self, if_neg (by decide)]
    exact ih (fun q hq => h q (List.mem_cons_of_mem p hq)) _

/-- A loop that ends without an error ends with the packet sent. -/
theorem csma_errorFree (persistence : UInt8) : ∀ (turns : List Turn) (modem : AX25Ctx),
    turns.all Turn.errorFree = true → ∀ r, csma persistence modem turns = some r → r.2.2 = true
  | [], _, _, _, hr => nomatch hr
  | .idle i :: turns, modem, h, r, hr => by
    unfold csma at hr
    split_ifs at hr
    · obtain rfl := Option.some.inj hr
      rfl
    · exact csma_errorFree persistence turns modem h r hr
  | .busy polls :: turns, modem, h, r, hr => by
    rw [List.all_cons, Bool.and_eq_true] at h
    have hpolls : (csmaBusy modem polls).2.2 = false :=
      csmaBusy_errorFree polls (fun p hp => by simpa using List.all_eq_true.mp h.1 p hp) modem
    unfold csma at hr
    dsimp only at hr
    rw [hpolls, if_neg (by decide)] at hr
    obtain ⟨q, hq, rfl⟩ := Option.map_eq_some_iff.mp hr
    exact csma_errorFree persistence turns _ h.2 q hq

theorem data_sent {t : Tnc} {turns : List Turn} {h : Handed} (hdata : h.isData = true)
    (herr : turns.all Turn.errorFree = true) {e : Effect} (he : kissHandleFrame t turns h = some e) :
    e.air = airFrame (h.bytes.drop 1) := by
  rw [kissHandleFrame_data hdata] at he
  obtain ⟨⟨modem, serial, send⟩, hch, he⟩ := Option.bind_eq_some_iff.mp he
  obtain rfl : send = true := by
    unfold kissChannel at hch
    split_ifs at hch
    · obtain rfl := congrArg (fun r => r.2.2) (Option.some.inj hch)
      rfl
    · exact csma_errorFree _ turns t.modem herr _ hch
  obtain rfl := Option.some.inj he
  exact ax25SendRaw_air modem _

theorem sends_event (hmode : b.currentMode = .kiss) {ev : BoardEvent} (herr : ev.errorFree = true)
    (hb : (boardStep (some b) ev).1 = some b') (hdata : ∀ h ∈ (handStep (some b) ev).2, h.isData = true) :
    (burstStep (some b) ev).2.flatMap Burst.bytes =
      (handStep (some b) ev).2.flatMap fun h => airFrame (h.bytes.drop 1) := by
  cases ev with
  | rx ucsr0a udr0 => rfl
  | poll heard error =>
    show (outs Board.hearStep b heard).flatMap Burst.bytes = _
    rw [hearStep_quiet (by rw [hmode]; decide)]
    rfl
  | check now => rfl
  | turn x =>
    have hhand : (handStep (some b) (.turn x)).2 = (kissPoll (b.handle x.turns) b.side x.now).2 := if_pos hmode
    rw [boardStep_turn_kiss hmode] at hb
    rw [hhand] at hdata ⊢
    show (b.turnSends x).flatMap Burst.bytes = _
    rw [Board.turnSends, hmode]
    dsimp only
    rw [Board.kissSends]
    unfold Board.kissTurn at hb
    dsimp only at hb
    rcases kissPoll_one (b.handle x.turns) b.side x.now with hnil | ⟨h, hone⟩
    · rw [hnil]
      rfl
    · rw [hone] at hdata hb ⊢
      obtain ⟨e, he, -⟩ := Option.bind_eq_some_iff.mp hb
      dsimp only
      rw [he, List.flatMap_singleton, ← data_sent (hdata h List.mem_cons_self) herr he]
      exact List.flatMap_singleton _ _

theorem sends_run (es : List BoardEvent) (hkiss : StaysIn .kiss (some b) es) (herr : ∀ ev ∈ es, ev.errorFree = true)
    (hb : final boardStep (some b) es = some b') (hdata : ∀ h ∈ handed b es, h.isData = true) :
    (outs burstStep (some b) es).flatMap Burst.bytes = (handed b es).flatMap fun h => airFrame (h.bytes.drop 1) := by
  induction es generalizing b with
  | nil => rfl
  | cons ev es ih =>
    have hrest := hkiss.2
    rw [final_cons] at hb
    rw [handed_cons] at hdata ⊢
    rw [outs_cons, show (burstStep (some b) ev).1 = (boardStep (some b) ev).1 from rfl, List.flatMap_append,
      List.flatMap_append]
    cases hb₁ : (boardStep (some b) ev).1 with
    | none =>
      rw [hb₁, (outs_stopped boardStep (fun _ => rfl) es).1] at hb
      cases hb
    | some b₁ =>
      rw [hb₁] at hb hrest hdata
      rw [sends_event hkiss.1 (herr ev List.mem_cons_self) hb₁ fun h hh => hdata h (List.mem_append_left _ hh),
        ih hrest (fun e he => herr e (List.mem_cons_of_mem ev he)) hb fun h hh => hdata h (List.mem_append_right _ hh)]
      rfl

/-! ### From host to host -/

/-- A run in KISS mode in which a host writes its payloads as data frames: the
line was idle, no byte fails, and all are taken, in time. -/
structure HostWrites (a : Board) (es : List BoardEvent) (payloads : List (List UInt8)) : Prop where
  kiss : StaysIn .kiss (some a) es
  idle : Held ([], false) a.side.kiss
  empty : a.side.ser.rxfifo.contents = []
  received : es.flatMap BoardEvent.received = payloads.flatMap (kissSendToSerial 0 0)
  noneFails : NoneFails (some a) es
  allTaken : ∃ a', final boardStep (some a) es = some a' ∧ a'.side.ser.rxfifo.contents = []
  inTime : ∃ s : List Timed, s.map (fun x => (Int32.ofNat x.1, x.2)) = taken a es ∧ NoGap s ∧ EscapesInTime s
  errorFree : ∀ ev ∈ es, ev.errorFree = true

theorem outs_stamped (s : List Timed) (k : KissCtx) :
    outs pollStepAt k (s.map fun x => (Int32.ofNat x.1, x.2)) = outs (kissStep fun buf _ => buf) k s := by
  induction s generalizing k with
  | nil => rfl
  | cons x s ih =>
    rw [List.map_cons, outs_cons, outs_cons, ih]
    rfl

theorem HostWrites.handed {a : Board} {es : List BoardEvent} {payloads : List (List UInt8)}
    (h : HostWrites a es payloads) (hsize : ∀ p ∈ payloads, p.length ≤ 254) :
    (TinyAprs.handed a es).map Handed.bytes = payloads.map (kissCmdData :: ·) := by
  obtain ⟨a', hfinal, hleft⟩ := h.allTaken
  obtain ⟨s, hs, hgap, hesc⟩ := h.inTime
  have hbytes := accounts_run es h.kiss.unpurged h.noneFails hfinal
  rw [hleft, h.empty, List.append_nil, List.nil_append, h.received, ← hs, List.map_map] at hbytes
  -- the payloads as frames of the line
  let frames : List KissFrame := payloads.attach.map fun p => ⟨kissCmdData, p.1, by decide, hsize p.1 p.2⟩
  have hencode : frames.flatMap KissFrame.encode = payloads.flatMap (kissSendToSerial 0 0) := by
    rw [List.flatMap_map]
    exact congrArg List.flatten (List.attach_map_val (l := payloads) (f := kissSendToSerial 0 0))
  have hframes : frames.map KissFrame.bytes = payloads.map (kissCmdData :: ·) := by
    rw [List.map_map]
    exact List.attach_map_val (l := payloads) (f := (kissCmdData :: ·))
  have hline := (outs_frames (fun buf _ => buf) frames h.idle (hbytes.trans hencode.symm) hgap).mpr hesc
  rw [hands_run es h.kiss (.refl a.side.kiss), ← hs, outs_stamped, ← hframes, ← hline]
  rfl

theorem HostWrites.sends {a : Board} {es : List BoardEvent} {payloads : List (List UInt8)}
    (h : HostWrites a es payloads) (hsize : ∀ p ∈ payloads, 16 ≤ p.length ∧ p.length ≤ 254) :
    (outs burstStep (some a) es).flatMap Burst.bytes = payloads.flatMap airFrame := by
  have hhanded := h.handed fun p hp => (hsize p hp).2
  have hdata : ∀ x ∈ TinyAprs.handed a es, x.isData = true := by
    intro x hx
    have hbytes : x.bytes ∈ payloads.map (kissCmdData :: ·) := by
      rw [← hhanded]
      exact List.mem_map_of_mem hx
    obtain ⟨p, hp, hx⟩ := List.mem_map.mp hbytes
    obtain ⟨c, rest, rfl⟩ := List.exists_cons_of_ne_nil (l := p) (by
      rintro rfl
      exact absurd (hsize [] hp).1 (by decide))
    have hreq : request x.bytes = .data (c :: rest) := by rw [← hx, request, if_pos rfl]
    exact isData_of_request hreq
  obtain ⟨a', hfinal, -⟩ := h.allTaken
  rw [sends_run es h.kiss h.errorFree hfinal hdata, ← List.flatMap_map Handed.bytes fun f => airFrame (f.drop 1),
    hhanded, List.flatMap_map]
  rfl

/-- **What one host writes, another gets.** A host writes payloads of 16 to 254
bytes to its board as data frames, while that board hears, waits for the channel
and answers as it may. A second board in KISS mode, not within a frame, reads
what the first one sends, in its main loop or while frames of its own host wait.
Then the bytes its hook calls write to the second host are the bytes that the
first host has written. -/
theorem host_to_host (a : Board) (es : List BoardEvent) (payloads : List (List UInt8))
    (hwrites : HostWrites a es payloads) (hsize : ∀ p ∈ payloads, 16 ≤ p.length ∧ p.length ≤ 254)
    (b : Board) (es' : List BoardEvent) (hkiss : StaysIn .kiss (some b) es') (seg : Option (List UInt8))
    (hf : Follows false seg b.tnc.modem) (hseg : deliveredOf seg.toList = [])
    (hheard : boardChars b es' = (outs burstStep (some a) es).flatMap Burst.bytes) :
    hostLine b es' = es.flatMap BoardEvent.received := by
  rw [hwrites.sends hsize] at hheard
  have hlong : payloads.filter (fun f => decide (ax25MinFrameLen ≤ f.length + 2)) = payloads :=
    List.filter_eq_self.mpr fun p hp => decide_eq_true (Nat.add_le_add_right (hsize p hp).1 2)
  have hfits : ∀ p ∈ payloads, p.length + 2 ≤ configAx25FrameBufLen := fun p hp =>
    Nat.le_trans (Nat.add_le_add_right (hsize p hp).2 2) (by decide)
  rw [hostLine_frames hkiss hf hseg hheard hfits, hlong, hwrites.received]

theorem hostTyped_writes : HostWrites kissBoard hostTyped [List.replicate 16 0x41] where
  kiss := by decide +kernel
  idle := ⟨rfl, rfl, rfl, rfl⟩
  empty := rfl
  received := by decide +kernel
  noneFails := by decide +kernel
  allTaken := hostTyped_taken
  inTime := by
    refine ⟨(kissSendToSerial 0 0 (List.replicate 16 0x41)).map (0, ·), by decide +kernel, ?_, by decide +kernel⟩
    unfold NoGap
    decide +kernel
  errorFree := by decide +kernel

/-- What goes out then, heard at once. -/
def hostHeard : List BoardEvent := [pollOf ((outs burstStep (some kissBoard) hostTyped).flatMap Burst.bytes)]

theorem host_to_host_typed : hostLine kissBoard hostHeard = kissSendToSerial 0 0 (List.replicate 16 0x41) :=
  (host_to_host kissBoard hostTyped [List.replicate 16 0x41] hostTyped_writes (by decide) kissBoard hostHeard
    (staysIn_poll _ _ rfl) none follows_init rfl (pollOf_chars _)).trans (by decide +kernel)

end TinyAprs
