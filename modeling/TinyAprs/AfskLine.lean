/-
# From FIFO to FIFO

Modulator and parser, back to back: the frame that `afsk_write` queues is
the frame that `hdlc_parse` pushes. Whatever the order of main loop and
interrupt, if the interrupt is never out of bytes inside the frame, the bits
of the transmission are flags, the stuffed data and flags (`Progress.line`),
and the parser makes of these, from any state it may be in, flags, the data
with its escapes and flags (`outs_frame`).
-/
import TinyAprs.AfskRx
import TinyAprs.AfskTx

namespace TinyAprs

open Mealy BitStuff Transmitter

/-- A modem with nothing to send. -/
structure Idle (af : Afsk) : Prop where
  off : af.sending = false
  gate : af.dacIsr = false
  done : af.txBit = 0
  start : af.sampleCount = 0
  empty : af.txFifo.contents = []

theorem idle_afskInit : Idle afskInit := ⟨rfl, rfl, rfl, rfl, rfl⟩

/-- Only flags, and one copy of the data between two of them. -/
def Framed (data pushed : List UInt8) : Prop :=
  ∃ a b, pushed = List.replicate (a + 1) hdlcFlag ++ (ax25Stuffing.encode data ++ List.replicate (b + 1) hdlcFlag)

/-- The characters behind the first one that is a flag. -/
def afterFlag (pushed : List UInt8) : List UInt8 := (pushed.dropWhile (· != hdlcFlag)).tail

/-- Behind the first flag, the data is framed. Before it may come one
character that the parser was in the middle of; should that be an escaped
flag, the data is framed behind it just as well. -/
def HeardFramed (data pushed : List UInt8) : Prop :=
  (∃ g r, (g = [] ∨ ∃ c, g = ax25Stuffing.word c) ∧ pushed = g ++ hdlcFlag :: r ∧ Framed data r) ∧
    Framed data (afterFlag pushed)

theorem afterFlag_flag (cs : List UInt8) : afterFlag (hdlcFlag :: cs) = cs := by
  simp [afterFlag]

theorem afterFlag_other {c : UInt8} (hc : c ≠ hdlcFlag) (cs : List UInt8) : afterFlag (c :: cs) = afterFlag cs := by
  simp [afterFlag, hc]

theorem afterFlag_word (c : UInt8) (cs : List UInt8) :
    afterFlag (ax25Stuffing.word c ++ cs) = afterFlag cs ∨ afterFlag (ax25Stuffing.word c ++ cs) = cs := by
  by_cases hs : ax25Stuffing.special c = true
  · rw [Stuffing.word_of_special _ hs, List.cons_append, afterFlag_other (by decide)]
    by_cases hc : c = hdlcFlag
    · subst hc
      exact Or.inr (afterFlag_flag cs)
    · exact Or.inl (afterFlag_other hc cs)
  · have hc : c ≠ hdlcFlag := by
      rintro rfl
      exact hs (by decide)
    rw [Stuffing.word_of_plain _ (by simpa using hs)]
    exact Or.inl (afterFlag_other hc cs)

theorem heardFramed (data : List UInt8) {g : List UInt8} (hg : g = [] ∨ ∃ c, g = ax25Stuffing.word c) (a b : ℕ) :
    HeardFramed data (g ++ (List.replicate (a + 2) hdlcFlag ++
      (ax25Stuffing.encode data ++ List.replicate (b + 1) hdlcFlag))) := by
  have hframed : Framed data (List.replicate (a + 1) hdlcFlag ++
      (ax25Stuffing.encode data ++ List.replicate (b + 1) hdlcFlag)) := ⟨a, b, rfl⟩
  refine ⟨⟨g, _, hg, rfl, hframed⟩, ?_⟩
  have hall : afterFlag (List.replicate (a + 2) hdlcFlag ++
      (ax25Stuffing.encode data ++ List.replicate (b + 1) hdlcFlag)) =
      List.replicate (a + 1) hdlcFlag ++ (ax25Stuffing.encode data ++ List.replicate (b + 1) hdlcFlag) := by
    rw [List.replicate_succ, List.cons_append, afterFlag_flag]
  rcases hg with rfl | ⟨c, rfl⟩
  · rw [List.nil_append, hall]
    exact hframed
  · rcases afterFlag_word c (List.replicate (a + 2) hdlcFlag ++
      (ax25Stuffing.encode data ++ List.replicate (b + 1) hdlcFlag)) with h | h
    · rw [h, hall]
      exact hframed
    · rw [h]
      exact ⟨a + 1, b, rfl⟩

/-- **A frame goes from one FIFO to the other.** From an idle modem, in any
order of main loop and interrupt that queues the whole frame without the
interrupt being out of bytes before, the transmission comes to its end; and
then its bits, given to a parser in any state, have pushed the data framed by
flags: no byte lost, added or altered. -/
theorem afsk_round_trip (data : List UInt8) {af : Afsk} (hidle : Idle af) (hdlc : Hdlc) {fifo : FIFOBuffer}
    (hfifo : Drained fifo) (es : List TxEvent) (hfed : fed ⟨af, tokens data, false⟩ es = true)
    (hwritten : (final Transmitter.step ⟨af, tokens data, false⟩ es).Written) :
    (∃ n, (final Transmitter.step ⟨af, tokens data, false⟩ (es ++ List.replicate n .isr)).af.sending = false) ∧
    ∀ n, (final Transmitter.step ⟨af, tokens data, false⟩ (es ++ List.replicate n .isr)).af.sending = false →
      HeardFramed data (outs hdlcBit (hdlc, fifo)
        (outs Transmitter.step ⟨af, tokens data, false⟩ (es ++ List.replicate n .isr))) := by
  have hok : af.Ok := ⟨Or.inl hidle.done, fun h => by simp [hidle.off] at h, hidle.gate.trans hidle.off.symm,
    fun _ => ⟨hidle.done, hidle.start⟩⟩
  have hwait : Progress data [] ⟨af, tokens data, false⟩ :=
    .waiting hidle.off (by rw [queue, hidle.empty]; rfl) (Or.inr rfl) rfl
  refine ⟨?_, fun n hoff => ?_⟩
  · obtain ⟨-, hok'⟩ := hwait.run es hok hfed
    obtain ⟨n, hn⟩ := silent_within _ hok' (Nat.lt_succ_self _)
    exact ⟨n, by rw [final_append]; exact hn⟩
  · obtain ⟨hfed', hwritten'⟩ := isr_written n hwritten
    have hfed_all : fed ⟨af, tokens data, false⟩ (es ++ List.replicate n .isr) = true := by
      rw [fed_append, hfed, hfed']
      rfl
    obtain ⟨h, hok'⟩ := hwait.run _ hok hfed_all
    rw [← final_append] at hwritten'
    obtain ⟨c, hline⟩ := h.line hok' hwritten' hoff
    obtain ⟨g, e, hg, hpushed⟩ := outs_frame hdlc hfifo data 53 (c + 1)
    rw [List.nil_append] at hline
    rw [hline, hpushed, show 53 + 1 + e = (52 + e) + 2 by omega]
    exact heardFramed data hg _ c

/-- A frame with one byte, a flag, queued at once after power-up, and a
parser that has just begun a character. -/
theorem afsk_round_trip_flag : ∃ n,
    HeardFramed [hdlcFlag] (outs hdlcBit (⟨0x3F, 7, 0x3F, true⟩, .init 63)
      (outs Transmitter.step ⟨afskInit, tokens [hdlcFlag], false⟩
        (List.replicate 8 .write ++ List.replicate n .isr))) := by
  obtain ⟨⟨n, hn⟩, h⟩ := @afsk_round_trip [hdlcFlag] afskInit idle_afskInit ⟨0x3F, 7, 0x3F, true⟩ (.init 63)
    ⟨rfl, rfl⟩ (List.replicate 8 .write) (by decide) ⟨by decide, by decide⟩
  exact ⟨n, h n hn⟩

end TinyAprs
