/-
# The frames a station delivers

In pass-through mode the hook of a station is called for the frames between
flags. `ax25_poll` never looks further than its buffer: of a segment longer
than the buffer it keeps the first part, with the CRC of that part, and the
flag behind it is tested like any other. So what is delivered is what the
buffer keeps of each segment, if that checks (`frames_eq`), and a segment
that overran the buffer is delivered, cut off, when its first part happens to
check.
-/
import TinyAprs.Ax25Frame
import TinyAprs.Lib.Framing

namespace TinyAprs

open Mealy Framing

/-- The flags and escapes of the channel. -/
def ax25Marks : Marks UInt8 := ⟨hdlcFlag, hdlcReset, ax25Esc⟩

theorem ax25Marks_distinct : ax25Marks.Distinct := ⟨by decide, by decide, by decide⟩

theorem spell_data (c : UInt8) : ax25Marks.spell (.data c) = ax25Stuffing.word c := by
  cases hc : ax25Stuffing.special c with
  | true =>
    rw [Stuffing.word_of_special _ hc]
    exact if_pos ((special_iff c).mp hc)
  | false =>
    rw [Stuffing.word_of_plain _ hc]
    exact if_neg (by rw [← Bool.not_eq_true, special_iff] at hc; exact hc)

theorem tokens_stuffed (f : List UInt8) :
    ax25Marks.tokens (hdlcFlag :: (ax25Stuffing.encode f ++ [hdlcFlag])) =
      .flag :: (f.map Token.data ++ [.flag]) := by
  have hspell : hdlcFlag :: (ax25Stuffing.encode f ++ [hdlcFlag]) =
      (Token.flag :: (f.map Token.data ++ [.flag])).flatMap ax25Marks.spell := by
    rw [List.flatMap_cons, List.flatMap_append, List.flatMap_map, Stuffing.encode,
      show ax25Stuffing.word = fun c => ax25Marks.spell (.data c) from funext fun c => (spell_data c).symm]
    rfl
  rw [hspell]
  exact (Marks.tokens_spell ax25Marks_distinct _).1

/-- The body of `ax25_poll`'s loop, by what the character is taken for. -/
theorem pollChar_cases (stk : AX25Msg) (ctx : AX25Ctx) (c : UInt8) :
    (ax25Marks.read ctx.escape c = (false, [.data c]) ∧
      ax25PollChar stk ctx c = ({ ax25PollData ctx c with escape := false }, [])) ∨
    (ctx.escape = false ∧ ax25Marks.read ctx.escape c = (false, [.flag]) ∧
      ax25PollChar stk ctx c = ax25PollFlag stk ctx) ∨
    (ctx.escape = false ∧ ax25Marks.read ctx.escape c = (false, [.reset]) ∧
      ax25PollChar stk ctx c = ({ ctx with sync := false, dcd := false }, [])) ∨
    (ctx.escape = false ∧ ax25Marks.read ctx.escape c = (true, []) ∧
      ax25PollChar stk ctx c = ({ ctx with escape := true }, [])) := by
  cases he : ctx.escape with
  | true => exact Or.inl ⟨rfl, pollChar_data stk ctx (Or.inl he)⟩
  | false =>
    by_cases h1 : c = hdlcFlag
    · subst h1
      exact Or.inr (Or.inl ⟨rfl, rfl, by simp [ax25PollChar, he]⟩)
    · by_cases h2 : c = hdlcReset
      · subst h2
        exact Or.inr (Or.inr (Or.inl ⟨rfl, rfl, by simp [ax25PollChar, he, h1]⟩))
      · by_cases h3 : c = ax25Esc
        · subst h3
          exact Or.inr (Or.inr (Or.inr ⟨rfl, rfl, pollChar_esc stk he⟩))
        · have hplain : ax25Stuffing.special c = false := by
            rw [← Bool.not_eq_true, special_iff]
            rintro (h | h | h)
            · exact h1 h
            · exact h2 h
            · exact h3 h
          refine Or.inl ⟨?_, pollChar_data stk ctx (Or.inr hplain)⟩
          show (if c = hdlcFlag then _ else if c = hdlcReset then _ else if c = ax25Esc then _ else _) = _
          rw [if_neg h1, if_neg h2, if_neg h3]

/-- A modem in pass-through mode, from `ax25_init`. -/
def passThroughModem : AX25Ctx := { ax25Init true with passThrough := true }

/-- What a call of `ax25_poll` finds: the characters in the channel, and
whether it reports an error behind them. -/
structure Channel where
  stk : AX25Msg
  chars : List UInt8
  error : Bool

/-- A call of `ax25_poll`. -/
def pollStep (ctx : AX25Ctx) (ch : Channel) : AX25Ctx × List HookCall :=
  ax25Poll ch.stk ctx ch.chars ch.error

/-- The calls of the hook over a run of `ax25_poll`s. -/
def hookCalls (chs : List Channel) : List HookCall := outs pollStep passThroughModem chs

def channelBytes (chs : List Channel) : List UInt8 := chs.flatMap Channel.chars

/-- `buf[0..frm_len)`, at a call of the hook. -/
def HookCall.frame (call : HookCall) : List UInt8 := Cells.slice call.ctx.buf 0 call.ctx.frmLen

/-- The segments of a stream: what stands between consecutive flags. -/
def frameSegments (cs : List UInt8) : List (List UInt8) := segments (ax25Marks.tokens cs)

/-- A segment that is a frame with a good CRC. -/
def goodSegment (s : List UInt8) : Bool :=
  decide (ax25MinFrameLen ≤ s.length ∧ s.length ≤ configAx25FrameBufLen ∧
    crcCcitt crcCcittInitVal s = ax25CrcCorrect)

/-! ### What the buffer keeps -/

/-- What `ax25_poll` keeps of the segment it is in. -/
def keptOf : Option (List UInt8) → List UInt8
  | none => []
  | some s => s.take configAx25FrameBufLen

/-- The test at a flag. -/
def frameFound (f : List UInt8) : Bool :=
  decide (ax25MinFrameLen ≤ f.length ∧ crcCcitt crcCcittInitVal f = ax25CrcCorrect)

/-- The frames delivered for the segments. -/
def deliveredOf (segs : List (List UInt8)) : List (List UInt8) :=
  (segs.map fun s => s.take configAx25FrameBufLen).filter frameFound

/-- The receiver is in a segment, none before the first flag, and has an
escape pending or not. -/
structure Follows (pending : Bool) (seg : Option (List UInt8)) (ctx : AX25Ctx) : Prop where
  escape : ctx.escape = pending
  hook : ctx.hook = true
  passThrough : ctx.passThrough = true
  frmLen : ctx.frmLen = (keptOf seg).length
  buf : Cells.At ctx.buf 0 (keptOf seg)
  crcIn : ctx.crcIn = crcCcitt crcCcittInitVal (keptOf seg)
  sync : ctx.sync = seg.any fun s => decide (s.length ≤ configAx25FrameBufLen)

variable {stk : AX25Msg} {ctx : AX25Ctx} {pending : Bool} {seg : Option (List UInt8)}

theorem follows_init : Follows false none passThroughModem := ⟨rfl, rfl, rfl, rfl, rfl, rfl, rfl⟩

/-- A byte that finds the buffer full is not kept, and the sync is gone. -/
theorem Follows.overrun {s : List UInt8} (h : Follows pending (some s) ctx)
    (hfull : configAx25FrameBufLen ≤ s.length) (c : UInt8) {sync : Bool} (hs : sync = false) (dcd : Bool)
    (stat : AX25Stat) :
    Follows false (some (s ++ [c])) { ctx with sync := sync, dcd := dcd, stat := stat, escape := false } := by
  have hkeep : keptOf (some (s ++ [c])) = keptOf (some s) := List.take_append_of_le_length hfull
  refine ⟨rfl, h.hook, h.passThrough, ?_, ?_, ?_, ?_⟩
  · rw [hkeep]
    exact h.frmLen
  · rw [hkeep]
    exact h.buf
  · rw [hkeep]
    exact h.crcIn
  · refine hs.trans (decide_eq_false ?_).symm
    rw [List.length_append, List.length_singleton]
    exact Nat.not_le_of_lt (Nat.lt_succ_of_le hfull)

theorem Follows.data (h : Follows pending seg ctx) (c : UInt8) :
    Follows false (final cut seg [.data c]) { ax25PollData ctx c with escape := false } := by
  obtain _ | s := seg
  · -- before the first flag nothing is kept
    have hs : ctx.sync = false := h.sync
    rw [ax25PollData, hs, if_neg (by decide)]
    exact ⟨rfl, h.hook, h.passThrough, h.frmLen, h.buf, h.crcIn, hs⟩
  · have hsync : ctx.sync = decide (s.length ≤ configAx25FrameBufLen) := h.sync
    have hlen : ctx.frmLen = min configAx25FrameBufLen s.length := h.frmLen.trans List.length_take
    show Follows false (some (s ++ [c])) { ax25PollData ctx c with escape := false }
    rcases Nat.lt_trichotomy s.length configAx25FrameBufLen with hlt | heq | hgt
    · -- there is room
      have hkeep : keptOf (some s) = s := List.take_of_length_le (Nat.le_of_lt hlt)
      have hkeep' : keptOf (some (s ++ [c])) = s ++ [c] :=
        List.take_of_length_le (by rw [List.length_append]; exact hlt)
      have hgot : Got ctx s ctx :=
        ⟨by rw [hsync]; exact decide_eq_true (Nat.le_of_lt hlt), by rw [h.frmLen, hkeep], by rw [← hkeep]; exact h.buf,
          by rw [h.crcIn, hkeep], rfl, rfl⟩
      have hg := hgot.data c hlt
      refine ⟨rfl, hg.hook.trans h.hook, hg.passThrough.trans h.passThrough, ?_, ?_, ?_, ?_⟩
      · rw [hkeep']; exact hg.frmLen
      · rw [hkeep']; exact hg.buf
      · rw [hkeep']; exact hg.crcIn
      · rw [hg.sync]
        exact (decide_eq_true (by rw [List.length_append]; exact hlt)).symm
    · -- the buffer is full: the byte is dropped, and with it the sync
      have hs : ctx.sync = true := by rw [hsync]; exact decide_eq_true (Nat.le_of_eq heq)
      have hfull : ¬ ctx.frmLen < configAx25FrameBufLen := by rw [hlen, heq, Nat.min_self]; exact Nat.lt_irrefl _
      rw [ax25PollData, if_pos hs, if_neg hfull]
      exact h.overrun (Nat.le_of_eq heq.symm) c rfl _ _
    · -- past it, nothing is kept
      have hs : ctx.sync = false := by rw [hsync]; exact decide_eq_false (Nat.not_le_of_lt hgt)
      rw [ax25PollData, if_neg (by rw [hs]; decide)]
      exact h.overrun (Nat.le_of_lt hgt) c hs ctx.dcd ctx.stat

/-- Calls of the hook that deliver these frames, without a message. -/
def Delivers (calls : List HookCall) (frames : List (List UInt8)) : Prop :=
  calls.map HookCall.frame = frames ∧ ∀ call ∈ calls, call.msg = none

theorem delivers_nil : Delivers [] [] := ⟨rfl, by simp⟩

theorem Delivers.append {calls calls' : List HookCall} {fs fs' : List (List UInt8)} (h : Delivers calls fs)
    (h' : Delivers calls' fs') : Delivers (calls ++ calls') (fs ++ fs') := by
  refine ⟨by rw [List.map_append, h.1, h'.1], fun call hc => ?_⟩
  rcases List.mem_append.mp hc with hc | hc
  · exact h.2 call hc
  · exact h'.2 call hc

theorem deliver_passThrough (ctx : AX25Ctx) (hhook : ctx.hook = true) (hpass : ctx.passThrough = true) :
    ax25Deliver stk ctx = [⟨ctx, none⟩] := by
  rw [ax25Deliver, if_pos hhook, if_pos hpass]

/-- A flag delivers what is kept of the segment, if it checks, and begins the
next. -/
theorem Follows.flag (h : Follows false seg ctx) (stk : AX25Msg) :
    Follows false (some []) (ax25PollFlag stk ctx).1 ∧
      Delivers (ax25PollFlag stk ctx).2 ([keptOf seg].filter frameFound) := by
  have hlen : ctx.frmLen ≥ ax25MinFrameLen ↔ ax25MinFrameLen ≤ (keptOf seg).length := by rw [h.frmLen]
  have hframe : Cells.slice ctx.buf 0 ctx.frmLen = keptOf seg := by rw [h.frmLen]; exact h.buf
  unfold ax25PollFlag
  by_cases h1 : ctx.frmLen ≥ ax25MinFrameLen
  · by_cases h2 : ctx.crcIn = ax25CrcCorrect
    · have hfound : frameFound (keptOf seg) = true := decide_eq_true ⟨hlen.mp h1, by rw [← h.crcIn, h2]⟩
      rw [if_pos h1, if_pos h2, List.filter_singleton, hfound]
      refine ⟨⟨h.escape, h.hook, h.passThrough, rfl, rfl, rfl, rfl⟩, ?_⟩
      show Delivers (ax25Deliver stk { ctx with stat.rxOk := ctx.stat.rxOk + 1 }) [keptOf seg]
      rw [deliver_passThrough { ctx with stat.rxOk := ctx.stat.rxOk + 1 } h.hook h.passThrough]
      refine ⟨congrArg (fun f => [f]) hframe, fun call hc => ?_⟩
      obtain rfl := List.mem_singleton.mp hc
      rfl
    · have hfound : frameFound (keptOf seg) = false :=
        decide_eq_false fun hf => h2 (by rw [h.crcIn, hf.2])
      rw [if_pos h1, if_neg h2, List.filter_singleton, hfound]
      exact ⟨⟨h.escape, h.hook, h.passThrough, rfl, rfl, rfl, rfl⟩, delivers_nil⟩
  · have hfound : frameFound (keptOf seg) = false := decide_eq_false fun hf => h1 (hlen.mpr hf.1)
    rw [if_neg h1, List.filter_singleton, hfound]
    exact ⟨⟨h.escape, h.hook, h.passThrough, rfl, rfl, rfl, rfl⟩, delivers_nil⟩

/-! ### A run -/

/-- One character, read by `ax25_poll` and by the marks. -/
theorem Follows.char (h : Follows pending seg ctx) (stk : AX25Msg) (c : UInt8)
    (hreset : Token.reset ∉ (ax25Marks.read pending c).2) :
    Follows (ax25Marks.read pending c).1 (final cut seg (ax25Marks.read pending c).2)
        (ax25PollChar stk ctx c).1 ∧
      Delivers (ax25PollChar stk ctx c).2 (deliveredOf (outs cut seg (ax25Marks.read pending c).2)) := by
  obtain rfl : ctx.escape = pending := h.escape
  rcases pollChar_cases stk ctx c with ⟨hr, hp⟩ | ⟨he, hr, hp⟩ | ⟨-, hr, -⟩ | ⟨he, hr, hp⟩
  · rw [hr, hp]
    refine ⟨h.data c, ?_⟩
    obtain _ | s := seg
    · exact delivers_nil
    · exact delivers_nil
  · rw [hr, hp]
    rw [he] at h
    obtain ⟨hf, hd⟩ := h.flag stk
    obtain _ | s := seg
    · exact ⟨hf, hd⟩
    · exact ⟨hf, hd⟩
  · rw [hr] at hreset
    exact absurd List.mem_cons_self hreset
  · rw [hr, hp]
    exact ⟨⟨rfl, h.hook, h.passThrough, h.frmLen, h.buf, h.crcIn, h.sync⟩, delivers_nil⟩

theorem deliveredOf_append (a b : List (List UInt8)) :
    deliveredOf (a ++ b) = deliveredOf a ++ deliveredOf b := by
  rw [deliveredOf, List.map_append, List.filter_append]
  rfl

theorem Follows.chars (cs : List UInt8) {pending : Bool} {seg : Option (List UInt8)} {ctx : AX25Ctx}
    (h : Follows pending seg ctx) (stk : AX25Msg) (hreset : Token.reset ∉ outs ax25Marks.read pending cs) :
    Follows (final ax25Marks.read pending cs) (final cut seg (outs ax25Marks.read pending cs))
        (final (ax25PollChar stk) ctx cs) ∧
      Delivers (outs (ax25PollChar stk) ctx cs)
        (deliveredOf (outs cut seg (outs ax25Marks.read pending cs))) := by
  induction cs generalizing pending seg ctx with
  | nil => exact ⟨h, delivers_nil⟩
  | cons c cs ih =>
    rw [outs_cons, List.mem_append, not_or] at hreset
    obtain ⟨h1, hd1⟩ := h.char stk c hreset.1
    obtain ⟨h2, hd2⟩ := ih h1 hreset.2
    rw [outs_cons, final_append, outs_append, deliveredOf_append, final_cons, final_cons, outs_cons]
    exact ⟨h2, hd1.append hd2⟩

/-- A run over calls of `ax25_poll`. -/
theorem Follows.polls (chs : List Channel) {pending : Bool} {seg : Option (List UInt8)} {ctx : AX25Ctx}
    (h : Follows pending seg ctx) (hreset : Token.reset ∉ outs ax25Marks.read pending (channelBytes chs)) :
    Delivers (outs pollStep ctx chs)
      (deliveredOf (outs cut seg (outs ax25Marks.read pending (channelBytes chs)))) := by
  induction chs generalizing pending seg ctx with
  | nil => exact delivers_nil
  | cons ch chs ih =>
    have hbytes : channelBytes (ch :: chs) = ch.chars ++ channelBytes chs := List.flatMap_cons
    rw [hbytes, outs_append, List.mem_append, not_or] at hreset
    obtain ⟨h1, hd1⟩ := h.chars ch.chars ch.stk hreset.1
    -- a channel error touches the carrier detection and the statistics only
    have h2 : Follows (final ax25Marks.read pending ch.chars)
        (final cut seg (outs ax25Marks.read pending ch.chars)) (pollStep ctx ch).1 := by
      unfold pollStep ax25Poll
      dsimp only
      split_ifs
      · exact ⟨h1.1, h1.2, h1.3, h1.4, h1.5, h1.6, h1.7⟩
      · exact ⟨h1.1, h1.2, h1.3, h1.4, h1.5, h1.6, h1.7⟩
      · exact h1
    rw [hbytes, outs_append, outs_append, deliveredOf_append, outs_cons]
    exact hd1.append (ih h2 hreset.2)

/-- The frames delivered are what the buffer keeps of the segments, where that
checks. -/
theorem frames_eq (chs : List Channel) (hreset : Token.reset ∉ ax25Marks.tokens (channelBytes chs)) :
    Delivers (hookCalls chs) (deliveredOf (frameSegments (channelBytes chs))) :=
  follows_init.polls chs hreset

/-! ### Segments longer than the buffer -/

/-- A segment longer than the buffer, of which the first part checks. -/
def OverrunFound (s : List UInt8) : Prop :=
  configAx25FrameBufLen < s.length ∧
    crcCcitt crcCcittInitVal (s.take configAx25FrameBufLen) = ax25CrcCorrect

/-- A segment that fits is delivered as a good one, and a longer one as none,
unless its first part checks. -/
theorem deliveredOf_one {s : List UInt8} (h : ¬ OverrunFound s) : deliveredOf [s] = [s].filter goodSegment := by
  rw [deliveredOf, List.map_singleton, List.filter_singleton, List.filter_singleton]
  by_cases hlen : s.length ≤ configAx25FrameBufLen
  · have hgood : frameFound s = goodSegment s := by
      rw [frameFound, goodSegment, decide_eq_decide]
      exact ⟨fun hf => ⟨hf.1, hlen, hf.2⟩, fun hf => ⟨hf.1, hf.2.2⟩⟩
    rw [List.take_of_length_le hlen, hgood]
  · have hgood : goodSegment s = false := decide_eq_false fun hf => hlen hf.2.1
    have hfound : frameFound (s.take configAx25FrameBufLen) = false :=
      decide_eq_false fun hf => h ⟨Nat.lt_of_not_le hlen, hf.2⟩
    rw [hgood, hfound]
    rfl

theorem deliveredOf_overrun {s : List UInt8} (h : OverrunFound s) :
    deliveredOf [s] = [s.take configAx25FrameBufLen] ∧ [s].filter goodSegment = [] := by
  have hgood : goodSegment s = false := decide_eq_false fun hf => Nat.not_le_of_lt h.1 hf.2.1
  have hmin : ax25MinFrameLen ≤ (s.take configAx25FrameBufLen).length := by
    rw [List.length_take, Nat.min_eq_left (Nat.le_of_lt h.1)]
    decide
  have hfound : frameFound (s.take configAx25FrameBufLen) = true := decide_eq_true ⟨hmin, h.2⟩
  rw [deliveredOf, List.map_singleton, List.filter_singleton, List.filter_singleton, hgood, hfound]
  exact ⟨rfl, rfl⟩

theorem deliveredOf_cons (s : List UInt8) (segs : List (List UInt8)) :
    deliveredOf (s :: segs) = deliveredOf [s] ++ deliveredOf segs :=
  deliveredOf_append [s] segs

theorem filter_cons_append (s : List UInt8) (segs : List (List UInt8)) :
    (s :: segs).filter goodSegment = [s].filter goodSegment ++ segs.filter goodSegment :=
  List.filter_append (p := goodSegment) [s] segs

theorem length_good_le (segs : List (List UInt8)) :
    (segs.filter goodSegment).length ≤ (deliveredOf segs).length := by
  induction segs with
  | nil => exact Nat.le_refl _
  | cons s segs ih =>
    rw [deliveredOf_cons, filter_cons_append, List.length_append, List.length_append]
    by_cases h : OverrunFound s
    · obtain ⟨-, h2⟩ := deliveredOf_overrun h
      rw [h2, List.length_nil]
      omega
    · rw [deliveredOf_one h]
      omega

/-- What is delivered are the good segments, exactly when no longer one has a
first part that checks. -/
theorem deliveredOf_eq_iff : ∀ segs : List (List UInt8),
    deliveredOf segs = segs.filter goodSegment ↔ ∀ s ∈ segs, ¬ OverrunFound s
  | [] => by simp [deliveredOf]
  | s :: segs => by
    rw [deliveredOf_cons, filter_cons_append, List.forall_mem_cons]
    by_cases h : OverrunFound s
    · -- one frame more comes out than there are good segments
      obtain ⟨h1, h2⟩ := deliveredOf_overrun h
      rw [h1, h2]
      refine ⟨fun heq => ?_, fun hs => absurd h hs.1⟩
      have hlen := congrArg List.length heq
      have hle := length_good_le segs
      simp only [List.length_append, List.length_singleton, List.length_nil] at hlen
      omega
    · rw [deliveredOf_one h, List.append_cancel_left_eq, deliveredOf_eq_iff segs]
      exact ⟨fun hs => ⟨h, hs⟩, fun hs => hs.2⟩

/-- **The good frames are delivered, and overrun ones that check.** For every
stream of characters without an unescaped reset, over any calls of `ax25_poll`
from `ax25_init`: the hook is told exactly the good segments between
consecutive flags, in order, each of them whole in `buf[0..frm_len)`, if and
only if no segment longer than the buffer has a good CRC over the part that
fits. -/
theorem poll_delivers_good_iff (chs : List Channel)
    (hreset : Token.reset ∉ ax25Marks.tokens (channelBytes chs)) :
    Delivers (hookCalls chs) ((frameSegments (channelBytes chs)).filter goodSegment) ↔
      ∀ s ∈ frameSegments (channelBytes chs), ¬ OverrunFound s := by
  have h := frames_eq chs hreset
  rw [← deliveredOf_eq_iff]
  constructor
  · intro hd
    rw [← h.1, hd.1]
  · intro heq
    rw [← heq]
    exact h

/-- A good frame of 330 bytes, with one more byte behind it. -/
def overrunSegment : List UInt8 := withCrc (List.replicate 328 0) ++ [0]

/-- A call of `ax25_poll` that finds a stuffed frame between two flags. -/
def oneFrame (f : List UInt8) : Channel := ⟨zeroMsg, hdlcFlag :: (ax25Stuffing.encode f ++ [hdlcFlag]), false⟩

theorem frameSegments_oneFrame (f : List UInt8) :
    Token.reset ∉ ax25Marks.tokens (channelBytes [oneFrame f]) ∧
      frameSegments (channelBytes [oneFrame f]) = [f] := by
  have hbytes : channelBytes [oneFrame f] = hdlcFlag :: (ax25Stuffing.encode f ++ [hdlcFlag]) :=
    List.flatMap_singleton Channel.chars _
  rw [frameSegments, hbytes, tokens_stuffed]
  exact ⟨by simp, segments_one f⟩

theorem poll_delivers_good_iff_short :
    Delivers (hookCalls [oneFrame (withCrc (List.replicate 16 0))]) [withCrc (List.replicate 16 0)] := by
  obtain ⟨hreset, hseg⟩ := frameSegments_oneFrame (withCrc (List.replicate 16 0))
  have h := (poll_delivers_good_iff [oneFrame (withCrc (List.replicate 16 0))] hreset).mpr
  rw [hseg] at h
  have hgood : goodSegment (withCrc (List.replicate 16 0)) = true :=
    decide_eq_true ⟨by decide, by decide, crcCcitt_withCrc _⟩
  rw [List.filter_singleton, hgood] at h
  refine h fun s hs => ?_
  obtain rfl := List.mem_singleton.mp hs
  exact fun hover => absurd hover.1 (by decide)

/-- The 331 bytes between two flags overran the buffer, and the first 330 of
them are delivered as a frame. -/
theorem overrun_delivered :
    Token.reset ∉ ax25Marks.tokens (channelBytes [oneFrame overrunSegment]) ∧
      frameSegments (channelBytes [oneFrame overrunSegment]) = [overrunSegment] ∧
      (hookCalls [oneFrame overrunSegment]).map HookCall.frame = [withCrc (List.replicate 328 0)] ∧
      ¬ Delivers (hookCalls [oneFrame overrunSegment])
        ((frameSegments (channelBytes [oneFrame overrunSegment])).filter goodSegment) := by
  obtain ⟨hreset, hseg⟩ := frameSegments_oneFrame overrunSegment
  have hlen : (withCrc (List.replicate 328 (0 : UInt8))).length = configAx25FrameBufLen := by
    rw [length_withCrc, List.length_replicate]
  have htake : overrunSegment.take configAx25FrameBufLen = withCrc (List.replicate 328 0) := by
    rw [overrunSegment, ← hlen, List.take_left]
  have hover : OverrunFound overrunSegment := by
    refine ⟨?_, by rw [htake, crcCcitt_withCrc]⟩
    rw [overrunSegment, List.length_append, hlen]
    exact Nat.lt_succ_self _
  obtain ⟨h1, h2⟩ := deliveredOf_overrun hover
  have h := frames_eq [oneFrame overrunSegment] hreset
  rw [hseg, h1, htake] at h
  refine ⟨hreset, hseg, h.1, fun hd => ?_⟩
  rw [hseg, h2, Delivers, h.1] at hd
  exact List.cons_ne_nil _ _ hd.1

end TinyAprs
