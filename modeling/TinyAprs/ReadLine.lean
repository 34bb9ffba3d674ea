/-
# Reading lines

`serialreader_readline` (`reader.c`), called again and again: each call takes
one character from the serial port, if there is one, and returns the length of
a line when one is complete. The buffer has 128 bytes, or 330 in a firmware
with KISS, but the number of bytes in it is a `uint8_t`.

The machine `Lines.step` is what the reader is for. The reader takes its steps
as long as a line has at most 255 bytes (`Reads.step`); a longer one makes the
counter start at 0 again, in the large buffer only. So the lines returned are
the lines that are due exactly when none of these is longer
(`lines_read_iff`).
-/
import TinyAprs.Lib.Lines
import TinyAprs.Serial

namespace TinyAprs

open Lines Mealy

/-! ### Calls of the reader -/

/-- CR and LF end a line. -/
def isLineEnd (c : UInt8) : Bool := c == 0x0d || c == 0x0a

/-- `serialreader_init`, with a buffer of `bufLen` bytes. -/
def readerOf (bufLen : UInt16) : SerialReader := { serialreaderInit with bufLen := bufLen }

/-- A line that is returned: its length, and the buffer with it. -/
structure Returned where
  len : ℕ
  buf : ℕ → UInt8

def Returned.line (x : Returned) : List UInt8 := Cells.slice x.buf 0 x.len

/-- What `serialreader_readline` does with a character: the reader, and the
line if one is returned. `use` is what the caller of the reader makes of the
buffer then. -/
def readChar (use : (ℕ → UInt8) → ℕ → ℕ → UInt8) (r : SerialReader) (c : UInt8) : SerialReader × List Returned :=
  let p := readlineChar r c
  if p.2 = 0 then (p.1, []) else ({ p.1 with buf := use p.1.buf p.2 }, [⟨p.2, p.1.buf⟩])

/-- A call of `serialreader_readline`; `none` is EOF. -/
def readCall (use : (ℕ → UInt8) → ℕ → ℕ → UInt8) (r : SerialReader) : Option UInt8 → SerialReader × List Returned
  | none => (r, [])
  | some c => readChar use r c

def linesRead (bufLen : UInt16) (use : (ℕ → UInt8) → ℕ → ℕ → UInt8) (calls : List (Option UInt8)) : List Returned :=
  outs (readCall use) (readerOf bufLen) calls

theorem outs_readCall (use : (ℕ → UInt8) → ℕ → ℕ → UInt8) (r : SerialReader) (calls : List (Option UInt8)) :
    outs (readCall use) r calls = outs (readChar use) r (calls.filterMap id) := by
  induction calls generalizing r with
  | nil => rfl
  | cons call calls ih =>
    cases call with
    | none => exact ih r
    | some c => exact congrArg ((readChar use r c).2 ++ ·) (ih (readChar use r c).1)

/-! ### One character -/

theorem readChar_quiet (use : (ℕ → UInt8) → ℕ → ℕ → UInt8) {r r' : SerialReader} {c : UInt8}
    (h : readlineChar r c = (r', 0)) : readChar use r c = (r', []) := by
  rw [readChar, h]
  rfl

theorem readChar_line (use : (ℕ → UInt8) → ℕ → ℕ → UInt8) {r r' : SerialReader} {c : UInt8} {n : ℕ}
    (h : readlineChar r c = (r', n)) (hn : n ≠ 0) :
    readChar use r c = ({ r' with buf := use r'.buf n }, [⟨n, r'.buf⟩]) := by
  rw [readChar, h]
  exact if_neg hn

theorem pos_iff_toNat (x : UInt8) : x > 0 ↔ x.toNat ≠ 0 := by
  simp [UInt8.lt_iff_toNat_lt, Nat.pos_iff_ne_zero]

theorem readlineChar_end (r : SerialReader) {c : UInt8} (hc : isLineEnd c = true) : readlineChar r c =
    if r.readLen > 0 then ({ r with buf := Function.update r.buf r.readLen.toNat 0, readLen := 0 }, r.readLen.toNat)
    else (r, 0) := by
  have htext : ¬ (c ≠ 0x0d ∧ c ≠ 0x0a) := by
    rintro ⟨hcr, hlf⟩
    simp [isLineEnd, hcr, hlf] at hc
  rw [readlineChar, if_neg htext, if_neg (fun h => htext h.1)]

/-- What a line end does: the line is returned, if there is one. -/
theorem readChar_end (use : (ℕ → UInt8) → ℕ → ℕ → UInt8) (r : SerialReader) {c : UInt8} (hc : isLineEnd c = true) :
    (r.readLen.toNat = 0 ∧ readChar use r c = (r, [])) ∨
    (r.readLen.toNat ≠ 0 ∧ ∃ buf, readChar use r c = ({ r with buf := buf, readLen := 0 },
      [⟨r.readLen.toNat, Function.update r.buf r.readLen.toNat 0⟩])) := by
  have hchar := readlineChar_end r hc
  by_cases h0 : r.readLen.toNat = 0
  · rw [if_neg (fun h => (pos_iff_toNat _).mp h h0)] at hchar
    exact Or.inl ⟨h0, readChar_quiet use hchar⟩
  · rw [if_pos ((pos_iff_toNat _).mpr h0)] at hchar
    exact Or.inr ⟨h0, _, readChar_line use hchar h0⟩

/-- What another character does: it is stored, and the line is returned if the
counter says that it is full. -/
theorem readChar_text (use : (ℕ → UInt8) → ℕ → ℕ → UInt8) (r : SerialReader) {c : UInt8} (hc : isLineEnd c = false)
    (hroom : 0 < (r.bufLen - 1).toNat) :
    ((r.readLen + 1).toNat < (r.bufLen - 1).toNat ∧ readChar use r c =
      ({ r with buf := Function.update r.buf r.readLen.toNat c, readLen := r.readLen + 1 }, [])) ∨
    ((r.bufLen - 1).toNat ≤ (r.readLen + 1).toNat ∧ ∃ buf, readChar use r c = ({ r with buf := buf, readLen := 0 },
      [⟨(r.readLen + 1).toNat,
        Function.update (Function.update r.buf r.readLen.toNat c) (r.readLen + 1).toNat 0⟩])) := by
  have htext : c ≠ 0x0d ∧ c ≠ 0x0a := by simpa [isLineEnd] using hc
  have hlt : (r.readLen + 1).toUInt16 < r.bufLen - 1 ↔ (r.readLen + 1).toNat < (r.bufLen - 1).toNat := by
    rw [UInt16.lt_iff_toNat_lt, UInt8.toNat_toUInt16]
  by_cases hfull : (r.readLen + 1).toNat < (r.bufLen - 1).toNat
  · refine Or.inl ⟨hfull, readChar_quiet use ?_⟩
    rw [readlineChar, if_pos htext]
    exact if_pos ⟨htext, hlt.mpr hfull⟩
  · rw [Nat.not_lt] at hfull
    have hpos : (r.readLen + 1).toNat ≠ 0 := by omega
    have hchar : readlineChar r c = ({ r with
        buf := Function.update (Function.update r.buf r.readLen.toNat c) (r.readLen + 1).toNat 0
        readLen := 0 }, (r.readLen + 1).toNat) := by
      rw [readlineChar, if_pos htext]
      refine (if_neg fun h => ?_).trans (if_pos ((pos_iff_toNat _).mpr hpos))
      exact absurd (hlt.mp h.2) (Nat.not_lt.mpr hfull)
    exact Or.inr ⟨hfull, _, readChar_line use hchar hpos⟩

/-! ### The reader takes the steps of the machine -/

variable (use : (ℕ → UInt8) → ℕ → ℕ → UInt8) {m : ℕ} {r : SerialReader} {w : List UInt8}

/-- The reader has room for lines of `m` bytes, and has read `w` of one. -/
structure Reads (m : ℕ) (r : SerialReader) (w : List UInt8) : Prop where
  room : (r.bufLen - 1).toNat = m
  count : r.readLen.toNat = w.length
  bytes : Cells.At r.buf 0 w

theorem Reads.fresh {r : SerialReader} (h : Reads m r w) (buf : ℕ → UInt8) :
    Reads m { r with buf := buf, readLen := 0 } [] :=
  ⟨h.room, rfl, rfl⟩

theorem line_terminated {buf : ℕ → UInt8} (h : Cells.At buf 0 w) :
    (Returned.mk w.length (Function.update buf w.length 0)).line = w := by
  change Cells.slice (Function.update buf w.length 0) 0 w.length = w
  rw [Cells.slice_update_of_le _ _ (by omega)]
  exact h

theorem Reads.step (h : Reads m r w) (hw : w.length < m) {c : UInt8} (hfit : isLineEnd c = true ∨ w.length < 255) :
    (readChar use r c).2.map Returned.line = (Lines.step isLineEnd m w c).2 ∧
      Reads m (readChar use r c).1 (Lines.step isLineEnd m w c).1 := by
  rw [Lines.step]
  cases hc : isLineEnd c with
  | true =>
    rw [if_pos rfl]
    rcases readChar_end use r hc with ⟨hzero, hread⟩ | ⟨hpos, buf, hread⟩
    · obtain rfl : w = [] := List.length_eq_zero_iff.mp (h.count.symm.trans hzero)
      rw [hread]
      exact ⟨rfl, h⟩
    · rw [hread, h.count]
      refine ⟨?_, h.fresh buf⟩
      have hne : w ≠ [] := by
        rintro rfl
        exact hpos h.count
      rw [List.map_singleton, line_terminated h.bytes, List.filter_cons_of_pos (by simpa using hne), List.filter_nil]
  | false =>
    have hlt : w.length < 255 := hfit.resolve_left (by simp [hc])
    have hnext : (r.readLen + 1).toNat = w.length + 1 := by
      rw [Cells.toNat_succ (by rw [h.count]; exact hlt), h.count]
    have hbytes : Cells.At (Function.update r.buf w.length c) 0 (w ++ [c]) := by
      simpa using h.bytes.snoc c
    rw [if_neg (by simp)]
    rcases readChar_text use r hc (by rw [h.room]; omega) with ⟨hroom, hread⟩ | ⟨hfull, buf, hread⟩
    · rw [hnext, h.room] at hroom
      rw [if_neg (by omega), hread]
      refine ⟨rfl, h.room, ?_, ?_⟩
      · simpa using hnext
      · rw [h.count]
        exact hbytes
    · rw [hnext, h.room] at hfull
      rw [if_pos (by omega), hread]
      refine ⟨?_, h.fresh buf⟩
      have hline := line_terminated hbytes
      rw [List.length_append, List.length_singleton] at hline
      rw [List.map_singleton, hnext, h.count, hline]

/-- A run of characters, with lines or a run of at most 255 bytes: the reader
does what the machine does. -/
theorem Reads.run (h : Reads m r []) (hm : 0 < m) {u : List UInt8} (hu : ∀ c ∈ u, isLineEnd c = false)
    (hfit : m ≤ 255 ∨ u.length ≤ 255) :
    (outs (readChar use) r u).map Returned.line = outs (Lines.step isLineEnd m) [] u ∧
      Reads m (final (readChar use) r u) (final (Lines.step isLineEnd m) [] u) := by
  induction u using List.reverseRecOn with
  | nil => exact ⟨rfl, h⟩
  | append_singleton u c ih =>
    have hu' : ∀ d ∈ u, isLineEnd d = false := fun d hd => hu d (List.mem_append_left _ hd)
    rw [List.length_append, List.length_singleton] at hfit
    obtain ⟨houts, hreads⟩ := ih hu' (by omega)
    have hlen : (final (Lines.step isLineEnd m) [] u).length = u.length % m := by
      rw [(outs_run isLineEnd hm hu').2, length_rest]
    have hmod := Nat.mod_lt u.length hm
    have hle := Nat.mod_le u.length m
    obtain ⟨hout, hnext⟩ := hreads.step use (by omega) (c := c) (Or.inr (by omega))
    rw [outs_append, final_append, outs_append, final_append, List.map_append, houts]
    simpa [hout] using hnext

/-- In the large buffer the counter never says that a line is full. -/
theorem Reads.silent (hm : 255 < m) : ∀ {u : List UInt8} {r : SerialReader}, (r.bufLen - 1).toNat = m →
    (∀ c ∈ u, isLineEnd c = false) → outs (readChar use) r u = []
  | [], _, _, _ => rfl
  | c :: u, r, hroom, hu => by
    have hbyte := (r.readLen + 1).toNat_lt
    rcases readChar_text use r (hu c List.mem_cons_self) (by omega) with ⟨-, hread⟩ | ⟨hfull, -⟩
    · rw [outs_cons, hread]
      exact silent hm hroom fun d hd => hu d (List.mem_cons_of_mem c hd)
    · omega

/-! ### Streams -/

/-- A run whose lines have at most 255 bytes is one the reader can follow. -/
theorem fit_of_ended {u : List UInt8} (h : ∀ l ∈ ended m u, l.length ≤ 255) : m ≤ 255 ∨ u.length ≤ 255 := by
  by_contra hlong
  rw [not_or, Nat.not_le, Nat.not_le] at hlong
  by_cases hlt : u.length < m
  · have := h u (mem_ended_of_lt hlt (List.ne_nil_of_length_pos (by omega)))
    omega
  · have hmem : u.take m ∈ ended m u := by
      have hpos : 0 < u.length / m := Nat.div_pos (by omega) (by omega)
      rw [ended, pieces, List.mem_append, List.mem_map]
      exact Or.inl ⟨0, List.mem_range.mpr hpos, by simp⟩
    have := h _ hmem
    rw [List.length_take] at this
    omega

/-- While no line is longer than 255 bytes, the lines that are due are
returned. -/
theorem Reads.due (hm : 0 < m) (h : Reads m r []) {cs : List UInt8}
    (hfit : ∀ l ∈ due isLineEnd m cs, l.length ≤ 255) :
    (outs (readChar use) r cs).map Returned.line = Lines.due isLineEnd m cs := by
  rw [← outs_step hm cs]
  induction cs using runs_induction isLineEnd generalizing r with
  | last u hu =>
    by_cases hshort : m ≤ 255 ∨ u.length ≤ 255
    · exact (h.run use hm hu hshort).1
    · -- the counter has started again, but the run has not ended and no line is due
      rw [not_or, Nat.not_le, Nat.not_le] at hshort
      rw [due_run hu] at hfit
      have hnone : pieces m u = [] := by
        refine List.eq_nil_iff_forall_not_mem.mpr fun l hl => ?_
        have := length_of_mem_pieces hl
        have := hfit l hl
        omega
      rw [Reads.silent use hshort.1 h.room hu, (outs_run isLineEnd hm hu).1, hnone]
      rfl
  | more u e cs hu he ih =>
    rw [due_more hu he] at hfit
    obtain ⟨houts, hreads⟩ := h.run use hm hu (fit_of_ended fun l hl => hfit l (List.mem_append_left _ hl))
    have hlen : (final (Lines.step isLineEnd m) [] u).length = u.length % m := by
      rw [(outs_run isLineEnd hm hu).2, length_rest]
    have hmod := Nat.mod_lt u.length hm
    obtain ⟨hout, hnext⟩ := hreads.step use (by omega) (c := e) (Or.inl he)
    have hempty : (Lines.step isLineEnd m (final (Lines.step isLineEnd m) [] u) e).1 = [] := by
      rw [Lines.step, if_pos he]
    rw [hempty] at hnext
    rw [outs_append, outs_cons, outs_append, outs_cons, hempty, List.map_append, List.map_append, houts, hout,
      ih hnext fun l hl => hfit l (List.mem_append_right _ hl)]

/-- The counter stays below the length of the buffer, and every line ends in
it with a NUL. -/
theorem linesRead_bounded {bufLen : UInt16} (hlow : 0 < (bufLen - 1).toNat) (hhigh : (bufLen - 1).toNat < bufLen.toNat)
    (cs : List UInt8) : ∀ x ∈ outs (readChar use) (readerOf bufLen) cs,
      x.len < bufLen.toNat ∧ x.len ≤ 255 ∧ x.buf x.len = 0 := by
  refine outs_forall (readChar use) (fun r => r.bufLen = bufLen ∧ r.readLen.toNat < (bufLen - 1).toNat) ?_ _ cs
    ⟨rfl, hlow⟩
  rintro r c ⟨hbuf, hlen⟩
  have hbyte := r.readLen.toNat_lt
  have hbyte' := (r.readLen + 1).toNat_lt
  have hnext : (r.readLen + 1).toNat ≤ r.readLen.toNat + 1 := by
    rw [UInt8.toNat_add]
    exact Nat.mod_le ..
  have hline : ∀ {n : ℕ} {buf : ℕ → UInt8}, n < bufLen.toNat → n ≤ 255 →
      ∀ x ∈ [Returned.mk n (Function.update buf n 0)], x.len < bufLen.toNat ∧ x.len ≤ 255 ∧ x.buf x.len = 0 := by
    intro n buf h1 h2 x hx
    rw [List.mem_singleton.mp hx]
    exact ⟨h1, h2, Function.update_self ..⟩
  cases hc : isLineEnd c with
  | true =>
    rcases readChar_end use r hc with ⟨-, hread⟩ | ⟨-, buf, hread⟩
    · rw [hread]
      exact ⟨⟨hbuf, hlen⟩, by simp⟩
    · rw [hread]
      exact ⟨⟨hbuf, hlow⟩, hline (by omega) (by omega)⟩
  | false =>
    rcases readChar_text use r hc (by rw [hbuf]; exact hlow) with ⟨hroom, hread⟩ | ⟨-, buf, hread⟩
    · rw [hbuf] at hroom
      rw [hread]
      exact ⟨⟨hbuf, hroom⟩, by simp⟩
    · rw [hread]
      exact ⟨⟨hbuf, hlow⟩, hline (by omega) (by omega)⟩

/-- What reading lines should do: the lines returned are the runs of bytes
between CRs and LFs, cut to `bufLen - 1` bytes; no byte of a run is lost; and
every line ends with a NUL inside the buffer. -/
structure ReadsLines (bufLen : UInt16) (bytes : List UInt8) (lines : List Returned) : Prop where
  due : lines.map Returned.line = due isLineEnd (bufLen.toNat - 1) bytes
  kept : ∃ w, (lines.map Returned.line).flatten ++ w = bytes.filter (fun c => !isLineEnd c) ∧
    w.length < bufLen.toNat - 1
  terminated : ∀ x ∈ lines, x.len < bufLen.toNat ∧ x.buf x.len = 0

/-- **Lines of at most 255 bytes are read.** With the buffer of 128 bytes and
with that of 330, for every stream of bytes, however the calls and the bytes
come together and whatever is done to the buffer after a line: the lines
returned are those of the stream, exactly when none of these is longer than
255 bytes. -/
theorem lines_read_iff (bufLen : UInt16) (hbuf : bufLen = 128 ∨ bufLen = 330) (use : (ℕ → UInt8) → ℕ → ℕ → UInt8)
    (calls : List (Option UInt8)) :
    ReadsLines bufLen (calls.filterMap id) (linesRead bufLen use calls) ↔
      ∀ l ∈ due isLineEnd (bufLen.toNat - 1) (calls.filterMap id), l.length ≤ 255 := by
  have hroom : (bufLen - 1).toNat = bufLen.toNat - 1 ∧ 1 < bufLen.toNat := by
    rcases hbuf with rfl | rfl <;> decide
  have hm : 0 < bufLen.toNat - 1 := by omega
  have hlow : 0 < (bufLen - 1).toNat := by omega
  have hbounded := linesRead_bounded use hlow (by omega) (calls.filterMap id)
  rw [linesRead, outs_readCall]
  constructor
  · intro h l hl
    rw [← h.due] at hl
    obtain ⟨x, hx, rfl⟩ := List.mem_map.mp hl
    rw [Returned.line, Cells.length_slice]
    exact (hbounded x hx).2.1
  · intro hfit
    have hreads : Reads (bufLen.toNat - 1) (readerOf bufLen) [] := ⟨hroom.1, rfl, rfl⟩
    have hdue := hreads.due use hm hfit
    refine ⟨hdue, ?_, fun x hx => ⟨(hbounded x hx).1, (hbounded x hx).2.2⟩⟩
    rw [hdue]
    exact flatten_due hm _

/-- Two lines, with an empty one between them. -/
theorem lines_read_two : ReadsLines 330 [0x41, 0x42, 0x0d, 0x0a, 0x43, 0x0d]
    (linesRead 330 (fun buf _ => buf) [some 0x41, some 0x42, none, some 0x0d, some 0x0a, some 0x43, some 0x0d]) :=
  (lines_read_iff 330 (Or.inr rfl) (fun buf _ => buf)
    [some 0x41, some 0x42, none, some 0x0d, some 0x0a, some 0x43, some 0x0d]).mpr (by decide)

/-- 256 times `A`. -/
def longRun : List UInt8 := List.replicate 256 0x41

theorem longRun_text : ∀ c ∈ longRun, isLineEnd c = false := by
  intro c hc
  rw [(List.mem_replicate.mp hc).2]
  rfl

/-- With a CR behind it, the run is a line that is due, and none is
returned. -/
theorem long_line_lost :
    linesRead 330 (fun buf _ => buf) ((longRun ++ [0x0d]).map some) = [] ∧
    ¬ReadsLines 330 (longRun ++ [0x0d]) (linesRead 330 (fun buf _ => buf) ((longRun ++ [0x0d]).map some)) := by
  have hlost : linesRead 330 (fun buf _ => buf) ((longRun ++ [0x0d]).map some) = [] :=
    List.eq_nil_of_length_eq_zero (by decide +kernel)
  refine ⟨hlost, fun h => ?_⟩
  have hlen : longRun.length = 256 := List.length_replicate
  have hmem : longRun ∈ ended 329 longRun :=
    mem_ended_of_lt (by omega) (List.ne_nil_of_length_pos (by omega))
  have hdue : [] = due isLineEnd 329 (longRun ++ [0x0d]) := by
    have := h.due
    rwa [hlost] at this
  rw [due_more longRun_text rfl] at hdue
  exact List.ne_nil_of_mem (List.mem_append_left _ hmem) hdue.symm

end TinyAprs
