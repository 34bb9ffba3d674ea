/-
# The rx FIFO under overrun

`hdlc_parse` runs in the interrupt and pushes into the rx FIFO what it has
completed: a flag, or a character, with an escape in front of it if it is a
special one. `ax25_poll` pops in the main loop, at any time between two bits.
Each push looks for room on its own, so a special character that finds one
place leaves its escape in the FIFO and is itself lost (`splits`). While
that does not happen, the bytes popped and those still in the FIFO together
spell what was pushed (`balance`), and `ax25_poll` takes them for that. After
it, the escape makes data of whatever comes next, which is a flag.
-/
import TinyAprs.Afsk
import TinyAprs.Ax25Deliver

namespace TinyAprs

open Mealy Framing

/-! ### What a bit completes -/

/-- The character so far, with the last bit. -/
def Hdlc.char (hdlc : Hdlc) : UInt8 :=
  if hdlc.demodBits &&& 0x01 ≠ 0 then hdlc.currchar ||| 0x80 else hdlc.currchar

/-- What a bit completes: a flag, or a character of a frame. -/
def hdlcCompletes (hdlc₀ : Hdlc) (bit : Bool) : Option (Token UInt8) :=
  let hdlc := { hdlc₀ with demodBits := shiftIn hdlc₀.demodBits bit }
  if hdlc.demodBits = hdlcFlag then some .flag
  else if hdlc.demodBits &&& hdlcReset = hdlcReset then none
  else if ¬ hdlc.rxstart then none
  else if hdlc.demodBits &&& 0x3f = 0x3e then none
  else if 8 ≤ hdlc.bitIdx + 1 then some (.data hdlc.char)
  else none

/-- Bytes that are pushed, each if there is room for it. -/
def pushRoom (fifo : FIFOBuffer) (cs : List UInt8) : FIFOBuffer :=
  cs.foldl (fun fb c => if fb.isfull then fb else fb.push c) fifo

theorem hdlcPush_fifo (hdlc : Hdlc) (fifo : FIFOBuffer) (ret : Bool) (c : UInt8) :
    (hdlcPush hdlc fifo ret c).2.1 = pushRoom fifo [c] := by
  unfold hdlcPush pushRoom
  cases h : fifo.isfull <;> simp [h]

theorem hdlcData_fifo (hdlc : Hdlc) (fifo : FIFOBuffer) : (hdlcData hdlc fifo).2.1 =
    if 8 ≤ hdlc.bitIdx + 1 then pushRoom fifo (ax25Marks.spell (.data hdlc.char)) else fifo := by
  have hdef : hdlcData hdlc fifo =
      if 8 ≤ hdlc.bitIdx + 1 then
        let h := { hdlc with currchar := hdlc.char, bitIdx := hdlc.bitIdx + 1 }
        let r := if hdlc.char = hdlcFlag ∨ hdlc.char = hdlcReset ∨ hdlc.char = ax25Esc then
          hdlcPush h fifo true ax25Esc else (h, fifo, true)
        let r := hdlcPush r.1 r.2.1 r.2.2 hdlc.char
        ({ r.1 with currchar := 0, bitIdx := 0 }, r.2)
      else ({ hdlc with currchar := hdlc.char >>> 1, bitIdx := hdlc.bitIdx + 1 }, fifo, true) := rfl
  rw [hdef]
  split_ifs with h8 hc
  · rw [show ax25Marks.spell (.data hdlc.char) = [ax25Esc, hdlc.char] from if_pos hc]
    dsimp only
    rw [hdlcPush_fifo, hdlcPush_fifo]
    rfl
  · rw [show ax25Marks.spell (.data hdlc.char) = [hdlc.char] from if_neg hc]
    exact hdlcPush_fifo _ _ _ _
  · rfl

/-- The FIFO after a bit: what it completes is pushed, with its escape. -/
theorem hdlcParse_fifo (hdlc : Hdlc) (bit : Bool) (fifo : FIFOBuffer) :
    (hdlcParse hdlc bit fifo).2.1 =
      (hdlcCompletes hdlc bit).elim fifo fun t => pushRoom fifo (ax25Marks.spell t) := by
  unfold hdlcParse hdlcCompletes
  dsimp only
  split_ifs with h1 h2 h3 h4 h5
  · exact hdlcPush_fifo _ _ _ _
  · rfl
  · rfl
  · rw [hdlcData_fifo, if_pos h5]
    rfl
  · rw [hdlcData_fifo, if_neg h5]
    rfl
  · rfl

theorem completes_ne_reset (hdlc : Hdlc) (bit : Bool) : hdlcCompletes hdlc bit ≠ some .reset := by
  unfold hdlcCompletes
  dsimp only
  split_ifs <;> simp

/-! ### What goes in -/

theorem last_push (fifo : FIFOBuffer) (c : UInt8) : (fifo.push c).last = fifo.last := rfl

theorem contents_pushRoom : ∀ (cs : List UInt8) (fifo : FIFOBuffer),
    (pushRoom fifo cs).contents = fifo.contents ++ cs.take (fifo.last - fifo.contents.length)
  | [], fifo => by simp [pushRoom]
  | c :: cs, fifo => by
    have hle := fifo.count_le
    rw [← FIFOBuffer.length_contents] at hle
    have ih := contents_pushRoom cs
    cases hfull : fifo.isfull with
    | true =>
      have hlen := (FIFOBuffer.isfull_iff fifo).mp hfull
      have hstep : pushRoom fifo (c :: cs) = pushRoom fifo cs := by simp [pushRoom, hfull]
      rw [hstep, ih fifo, hlen, Nat.sub_self, List.take_zero, List.take_zero]
    | false =>
      have hlen : fifo.contents.length ≠ fifo.last := by
        rw [← Bool.not_eq_true, FIFOBuffer.isfull_iff] at hfull
        exact hfull
      have hstep : pushRoom fifo (c :: cs) = pushRoom (fifo.push c) cs := by simp [pushRoom, hfull]
      have hroom : fifo.last - fifo.contents.length = fifo.last - (fifo.contents.length + 1) + 1 := by omega
      rw [hstep, ih (fifo.push c), FIFOBuffer.contents_push hfull, last_push, List.length_append,
        List.length_singleton, hroom, List.take_succ_cons, List.append_assoc]
      rfl

/-! ### The line -/

/-- The parser and the rx FIFO. -/
structure RxLine where
  hdlc : Hdlc
  fifo : FIFOBuffer

/-- At `afsk_init`, with `CONFIG_AFSK_RX_BUFLEN`, 64, bytes. -/
def rxLine (hdlc : Hdlc) : RxLine := ⟨hdlc, .init 63⟩

/-- A bit in the interrupt, or a character read by `ax25_poll`. -/
inductive RxEvent
  | bit (b : Bool)
  | pop

/-- What happens at the FIFO: a flag or a character goes in whole, or a byte
comes out. -/
inductive RxOut
  | pushed (t : Token UInt8)
  | popped (c : UInt8)

/-- Room for a flag or a character, with its escape. -/
def hasRoom (fifo : FIFOBuffer) (t : Token UInt8) : Bool :=
  decide (fifo.contents.length + (ax25Marks.spell t).length ≤ fifo.last)

def rxStep (s : RxLine) : RxEvent → RxLine × List RxOut
  | .bit b =>
    let r := hdlcParse s.hdlc b s.fifo
    (⟨r.1, r.2.1⟩, ((hdlcCompletes s.hdlc b).filter (hasRoom s.fifo)).toList.map .pushed)
  | .pop =>
    if s.fifo.isempty then (s, []) else ({ s with fifo := s.fifo.pop.2 }, [.popped s.fifo.pop.1])

def RxOut.pushed? : RxOut → Option (Token UInt8)
  | .pushed t => some t
  | .popped _ => none

def RxOut.popped? : RxOut → Option UInt8
  | .pushed _ => none
  | .popped c => some c

/-- The flags and characters that `hdlc_parse` pushes over a run. -/
def pushedOver (s : RxLine) (es : List RxEvent) : List (Token UInt8) :=
  (outs rxStep s es).filterMap RxOut.pushed?

/-- The bytes popped over a run. -/
def poppedOver (s : RxLine) (es : List RxEvent) : List UInt8 :=
  (outs rxStep s es).filterMap RxOut.popped?

/-- The bit completes a special character, and the FIFO has one place. -/
def splits (s : RxLine) (b : Bool) : Bool :=
  (hdlcCompletes s.hdlc b).any fun t =>
    decide (s.fifo.contents.length < s.fifo.last ∧
      s.fifo.last < s.fifo.contents.length + (ax25Marks.spell t).length)

/-- No special character of the run finds exactly one place. -/
def NoSplit : RxLine → List RxEvent → Prop
  | _, [] => True
  | s, .bit b :: es => splits s b = false ∧ NoSplit (rxStep s (.bit b)).1 es
  | s, .pop :: es => NoSplit (rxStep s .pop).1 es

theorem step_balance (s : RxLine) (e : RxEvent) (h : ∀ b, e = .bit b → splits s b = false) :
    s.fifo.contents ++ ((rxStep s e).2.filterMap RxOut.pushed?).flatMap ax25Marks.spell =
      (rxStep s e).2.filterMap RxOut.popped? ++ (rxStep s e).1.fifo.contents := by
  cases e with
  | pop =>
    cases he : s.fifo.isempty with
    | true =>
      rw [rxStep, if_pos he]
      simp
    | false =>
      rw [rxStep, if_neg (by rw [he]; decide)]
      simp [RxOut.pushed?, RxOut.popped?, FIFOBuffer.contents_pop he]
  | bit b =>
    have hs := h b rfl
    have hfifo : (rxStep s (.bit b)).1.fifo = (hdlcParse s.hdlc b s.fifo).2.1 := rfl
    have hout : (rxStep s (.bit b)).2 =
        ((hdlcCompletes s.hdlc b).filter (hasRoom s.fifo)).toList.map .pushed := rfl
    rw [hfifo, hout, hdlcParse_fifo]
    unfold splits at hs
    cases hc : hdlcCompletes s.hdlc b with
    | none => simp
    | some t =>
      rw [hc, Option.any_some, decide_eq_false_iff_not] at hs
      rw [Option.elim_some, contents_pushRoom]
      have hle := s.fifo.count_le
      rw [← FIFOBuffer.length_contents] at hle
      by_cases hroom : s.fifo.contents.length + (ax25Marks.spell t).length ≤ s.fifo.last
      · have hr : hasRoom s.fifo t = true := decide_eq_true hroom
        rw [List.take_of_length_le (by omega)]
        simp [hr, RxOut.pushed?, RxOut.popped?, Option.filter]
      · -- there is no room for all of it, and so there is none at all
        have hr : hasRoom s.fifo t = false := decide_eq_false hroom
        have hfull : s.fifo.last - s.fifo.contents.length = 0 := by omega
        rw [hfull, List.take_zero]
        simp [hr, Option.filter]

theorem balance : ∀ (es : List RxEvent) (s : RxLine), NoSplit s es →
    s.fifo.contents ++ (pushedOver s es).flatMap ax25Marks.spell =
      poppedOver s es ++ (final rxStep s es).fifo.contents
  | [], s, _ => by simp [pushedOver, poppedOver]
  | e :: es, s, h => by
    have h1 : ∀ b, e = .bit b → splits s b = false := by
      rintro b rfl
      exact h.1
    have h2 : NoSplit (rxStep s e).1 es := by
      cases e with
      | bit b => exact h.2
      | pop => exact h
    have ih := balance es (rxStep s e).1 h2
    have hs := step_balance s e h1
    simp only [pushedOver, poppedOver, outs_cons, final_cons, List.filterMap_append,
      List.flatMap_append] at ih ⊢
    rw [← List.append_assoc, hs, List.append_assoc, ih, List.append_assoc]

theorem pushed_no_reset (es : List RxEvent) (s : RxLine) : Token.reset ∉ pushedOver s es := by
  have hall : ∀ o ∈ outs rxStep s es, o ≠ RxOut.pushed .reset := by
    refine outs_forall rxStep (fun _ => True) (fun s e _ => ⟨trivial, ?_⟩) s es trivial
    cases e with
    | pop =>
      unfold rxStep
      split_ifs <;> simp
    | bit b =>
      intro o ho
      obtain ⟨t, ht, rfl⟩ := List.mem_map.mp ho
      rw [Option.mem_toList, Option.filter_eq_some_iff] at ht
      rintro heq
      obtain rfl := RxOut.pushed.inj heq
      exact completes_ne_reset _ _ ht.1
  intro hmem
  obtain ⟨o, ho, h⟩ := List.mem_filterMap.mp hmem
  cases o with
  | pushed t =>
    obtain rfl := Option.some.inj h
    exact hall _ ho rfl
  | popped c => exact absurd h (by simp [RxOut.pushed?])

/-! ### What comes out -/

/-- Unescaped flags, ordinary bytes, and pairs of an escape and a special
byte; `p` says that an escape stands before the bytes, and the last pair may
still be cut off. -/
def wellFormed : Bool → List UInt8 → Bool
  | _, [] => true
  | true, c :: cs => ax25Stuffing.special c && wellFormed false cs
  | false, c :: cs =>
    if c = ax25Esc then wellFormed true cs else c != hdlcReset && wellFormed false cs

theorem wellFormed_spell {t : Token UInt8} (h : t ≠ .reset) (cs : List UInt8) :
    wellFormed false (ax25Marks.spell t ++ cs) = wellFormed false cs := by
  cases t with
  | flag =>
    show (if hdlcFlag = ax25Esc then _ else hdlcFlag != hdlcReset && wellFormed false cs) = _
    rw [if_neg (by decide), show (hdlcFlag != hdlcReset) = true by decide, Bool.true_and]
  | reset => exact absurd rfl h
  | data c =>
    rw [spell_data]
    cases hc : ax25Stuffing.special c with
    | true =>
      rw [Stuffing.word_of_special _ hc]
      show (ax25Stuffing.special c && wellFormed false cs) = wellFormed false cs
      rw [hc, Bool.true_and]
    | false =>
      have hne : ¬ (c = hdlcFlag ∨ c = hdlcReset ∨ c = ax25Esc) := by
        rw [← Bool.not_eq_true, special_iff] at hc
        exact hc
      rw [Stuffing.word_of_plain _ hc]
      show (if c = ax25Esc then wellFormed true cs else c != hdlcReset && wellFormed false cs) = _
      rw [if_neg fun h => hne (Or.inr (Or.inr h)), bne_iff_ne.mpr fun h => hne (Or.inr (Or.inl h)), Bool.true_and]

theorem wellFormed_spelled : ∀ {ts : List (Token UInt8)}, Token.reset ∉ ts →
    wellFormed false (ts.flatMap ax25Marks.spell) = true
  | [], _ => rfl
  | t :: ts, h => by
    rw [List.mem_cons, not_or] at h
    rw [List.flatMap_cons, wellFormed_spell (fun ht => h.1 ht.symm)]
    exact wellFormed_spelled h.2

theorem wellFormed_of_append : ∀ (xs ys : List UInt8) {p : Bool}, wellFormed p (xs ++ ys) = true →
    wellFormed p xs = true
  | [], _, p, _ => by cases p <;> rfl
  | c :: xs, ys, true, h => by
    simp only [List.cons_append, wellFormed, Bool.and_eq_true] at h ⊢
    exact ⟨h.1, wellFormed_of_append xs ys h.2⟩
  | c :: xs, ys, false, h => by
    simp only [List.cons_append, wellFormed] at h ⊢
    split_ifs at h ⊢
    · exact wellFormed_of_append xs ys h
    · rw [Bool.and_eq_true] at h ⊢
      exact ⟨h.1, wellFormed_of_append xs ys h.2⟩

/-- What `ax25_poll` takes the characters for, by its own escape flag: an
unescaped flag ends the frame, an unescaped reset drops the sync, an
unescaped escape sets the flag, and all the rest is data. -/
def ax25Taken (stk : AX25Msg) (ctx : AX25Ctx) (cs : List UInt8) : List (Token UInt8) :=
  outs (fun ctx c => ((ax25PollChar stk ctx c).1, (ax25Marks.read ctx.escape c).2)) ctx cs

theorem pollFlag_escape (stk : AX25Msg) (ctx : AX25Ctx) : (ax25PollFlag stk ctx).1.escape = ctx.escape := by
  unfold ax25PollFlag
  dsimp only
  split_ifs <;> rfl

theorem pollChar_escape (stk : AX25Msg) (ctx : AX25Ctx) (c : UInt8) :
    (ax25PollChar stk ctx c).1.escape = (ax25Marks.read ctx.escape c).1 := by
  rcases pollChar_cases stk ctx c with ⟨hr, hp⟩ | ⟨he, hr, hp⟩ | ⟨he, hr, hp⟩ | ⟨-, hr, hp⟩
  · rw [hr, hp]
  · rw [hr, hp, pollFlag_escape]
    exact he
  · rw [hr, hp]
    exact he
  · rw [hr, hp]

theorem ax25Taken_eq (stk : AX25Msg) : ∀ (cs : List UInt8) (ctx : AX25Ctx),
    ax25Taken stk ctx cs = outs ax25Marks.read ctx.escape cs
  | [], _ => rfl
  | c :: cs, ctx => by
    have ih := ax25Taken_eq stk cs (ax25PollChar stk ctx c).1
    rw [pollChar_escape] at ih
    rw [outs_cons, ← ih]
    rfl

/-- **The token stream under overrun.** For every sequence of bits and every
interleaving of pops, as long as no special character finds exactly one place
in the FIFO: the bytes popped are well formed, `ax25_poll` takes them for the
flags and characters that were pushed, in order, up to those still in the
FIFO, and so it finds the segments that were pushed. -/
theorem rx_tokens_of_noSplit (stk : AX25Msg) (hook : Bool) (hdlc : Hdlc) (es : List RxEvent)
    (h : NoSplit (rxLine hdlc) es) :
    wellFormed false (poppedOver (rxLine hdlc) es) = true ∧
      ax25Taken stk (ax25Init hook) (poppedOver (rxLine hdlc) es) <+: pushedOver (rxLine hdlc) es ∧
      segments (ax25Taken stk (ax25Init hook) (poppedOver (rxLine hdlc) es)) <+:
        segments (pushedOver (rxLine hdlc) es) ∧
      ((final rxStep (rxLine hdlc) es).fifo.contents = [] →
        ax25Taken stk (ax25Init hook) (poppedOver (rxLine hdlc) es) = pushedOver (rxLine hdlc) es) := by
  have hb := balance es (rxLine hdlc) h
  have hempty : (rxLine hdlc).fifo.contents = [] := FIFOBuffer.contents_init 63
  rw [hempty, List.nil_append] at hb
  have htokens := (Marks.tokens_spell ax25Marks_distinct (pushedOver (rxLine hdlc) es)).1
  have htaken : ax25Taken stk (ax25Init hook) (poppedOver (rxLine hdlc) es) =
      ax25Marks.tokens (poppedOver (rxLine hdlc) es) := ax25Taken_eq stk _ _
  have hprefix : ax25Marks.tokens (poppedOver (rxLine hdlc) es) <+: pushedOver (rxLine hdlc) es := by
    rw [hb] at htokens
    rw [← htokens]
    exact ax25Marks.tokens_prefix (List.prefix_append _ _)
  rw [htaken]
  refine ⟨?_, hprefix, ?_, fun hcontents => ?_⟩
  · have hw := wellFormed_spelled (pushed_no_reset es (rxLine hdlc))
    rw [hb] at hw
    exact wellFormed_of_append _ _ hw
  · obtain ⟨rest, hrest⟩ := hprefix
    rw [← hrest, segments, segments, outs_append]
    exact List.prefix_append _ _
  · rw [hcontents, List.append_nil] at hb
    rw [← hb, htokens]

/-- The bits of a byte, the lowest first. -/
def bitsOf (c : UInt8) : List RxEvent :=
  (List.range 8).map fun k => .bit (c.toNat.testBit k)

/-- A flag and a character, read at once. -/
def calmRun : List RxEvent := bitsOf hdlcFlag ++ bitsOf ax25Esc ++ [.pop, .pop, .pop]

instance : ∀ (s : RxLine) (es : List RxEvent), Decidable (NoSplit s es)
  | _, [] => .isTrue trivial
  | s, .bit b :: es => @instDecidableAnd _ _ _ (instDecidableNoSplit (rxStep s (.bit b)).1 es)
  | s, .pop :: es => instDecidableNoSplit (rxStep s .pop).1 es

theorem rx_tokens_of_noSplit_calm :
    ax25Taken zeroMsg (ax25Init true) (poppedOver (rxLine ⟨0, 0, 0, false⟩) calmRun) =
      pushedOver (rxLine ⟨0, 0, 0, false⟩) calmRun ∧
    pushedOver (rxLine ⟨0, 0, 0, false⟩) calmRun = [.flag, .data ax25Esc] :=
  ⟨(rx_tokens_of_noSplit zeroMsg true ⟨0, 0, 0, false⟩ calmRun (by decide +kernel)).2.2.2 (by decide +kernel),
    by decide +kernel⟩

/-- 62 flags, a character that is an escape, and once there is room again, a
flag; then the FIFO is read. -/
def splitRun : List RxEvent :=
  (List.replicate 62 (bitsOf hdlcFlag)).flatten ++ bitsOf ax25Esc ++ [.pop] ++ bitsOf hdlcFlag ++
    List.replicate 63 .pop

/-- The character finds one place: its escape is in the FIFO, and makes data
of the next flag. -/
theorem flag_taken_as_data :
    pushedOver (rxLine ⟨0, 0, 0, false⟩) splitRun = List.replicate 63 .flag ∧
      ax25Taken zeroMsg (ax25Init true) (poppedOver (rxLine ⟨0, 0, 0, false⟩) splitRun) =
        List.replicate 62 .flag ++ [.data hdlcFlag] ∧
      ¬ ax25Taken zeroMsg (ax25Init true) (poppedOver (rxLine ⟨0, 0, 0, false⟩) splitRun) <+:
        pushedOver (rxLine ⟨0, 0, 0, false⟩) splitRun := by
  decide +kernel

end TinyAprs
