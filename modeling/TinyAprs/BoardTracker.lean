/-
# The tracker on a board

In tracker mode a round of the main loop takes a byte that the GPS has sent.
`Main` leaves open what `gps_parse` makes of the line and what the payload is;
here each round finds what `TrackerLine` computes for its byte (`GpsFed`). Then
the board sends what `tracker_poll` sends for the characters it takes, whatever
it hears meanwhile (`tracks_run`), and a board whose GPS writes sentences sends
the reports that are due (`board_reports`).
-/
import TinyAprs.BoardAir
import TinyAprs.TrackerLine

namespace TinyAprs

open Mealy

/-! ### The fix of a round -/

variable (feet : (ℕ → UInt8) → ℕ → UInt16) (buf : ℕ)

/-- What a character lets the tracker find: the fix of a line that is complete
and accepted, and the payload for it. -/
def TrackerSide.found (s : TrackerSide) (x : UInt8 × TrackerEnv) : Option (Fix × List UInt8) :=
  match (trackerPollChar feet buf s.line x.1).2 with
  | [] => none
  | c :: _ =>
    if c.result.ret ∧ c.result.gps.valid then
      let r := trackerPayload x.2.payload s.tnc.settings.beacon.symbol c.result.gps c.result.mem
      some (gpsFix c.result.gps c.result.mem x.2, Cells.slice r.1 0 r.2.toNat)
    else none

/-- Two readers that have read the same of a line. -/
structure SameLine (r r' : SerialReader) : Prop where
  bufLen : r'.bufLen = r.bufLen
  readLen : r'.readLen = r.readLen
  bytes : ∀ i < r.readLen.toNat, r'.buf i = r.buf i

theorem SameLine.char {r r' : SerialReader} (h : SameLine r r') (c : UInt8) :
    (readlineChar r' c).2 = (readlineChar r c).2 ∧ SameLine (readlineChar r c).1 (readlineChar r' c).1 := by
  obtain ⟨cells, _, _⟩ := r
  obtain ⟨cells', bufLen, readLen⟩ := r'
  obtain ⟨rfl, rfl, hbytes⟩ := h
  dsimp only at hbytes
  -- a wrap of the count leaves nothing to compare
  have hgrown : ∀ i < (readLen + 1).toNat,
      Function.update cells' readLen.toNat c i = Function.update cells readLen.toNat c i := by
    intro i hi
    have hle : (readLen + 1).toNat ≤ readLen.toNat + 1 := by
      rw [UInt8.toNat_add]
      exact Nat.mod_le _ _
    by_cases hlast : i = readLen.toNat
    · rw [hlast, Function.update_self, Function.update_self]
    · rw [Function.update_of_ne hlast, Function.update_of_ne hlast]
      exact hbytes i (by omega)
  unfold readlineChar
  dsimp only
  split_ifs
  · exact ⟨rfl, rfl, rfl, hgrown⟩
  · exact ⟨rfl, rfl, rfl, fun i hi => absurd hi (Nat.not_lt_zero i)⟩
  · exact ⟨rfl, rfl, rfl, hgrown⟩
  · exact ⟨rfl, rfl, rfl, hbytes⟩
  · exact ⟨rfl, rfl, rfl, fun i hi => absurd hi (Nat.not_lt_zero i)⟩
  · exact ⟨rfl, rfl, rfl, hbytes⟩

theorem SameLine.trans {r₁ r₂ r₃ : SerialReader} (h : SameLine r₁ r₂) (h' : SameLine r₂ r₃) : SameLine r₁ r₃ :=
  ⟨h'.bufLen.trans h.bufLen, h'.readLen.trans h.readLen,
    fun i hi => (h'.bytes i (h.readLen ▸ hi)).trans (h.bytes i hi)⟩

/-- The reader of the tracker, whose buffer is in the memory. -/
def TrackerSide.reader (s : TrackerSide) : SerialReader :=
  ⟨fun k => s.line.mem (buf + k), readerBufLen, s.line.readLen⟩

/-- The board and the tracker beside it: the same smart beacon, the same store,
and the same of a line. -/
structure Agrees (b : Board) (s : TrackerSide) : Prop where
  tracker : s.tracker = b.tracker
  store : s.tnc.store = b.tnc.store
  line : SameLine b.side.kiss.reader (s.reader buf)

/-! ### A round -/

/-- What `tracker_update_location` does with a fix and its payload. -/
def TrackerSide.sends (s : TrackerSide) : Option (Fix × List UInt8) → TrackerSide × List (List UInt8)
  | some (f, payload) =>
    let q := trackerUpdateLocation s.tracker f
    if q.2 then ({ s with tracker := q.1, tnc := (beaconSend s.tnc payload).1 }, [(beaconSend s.tnc payload).2])
    else ({ s with tracker := q.1 }, [])
  | none => (s, [])

theorem trackerChar_found (s : TrackerSide) (x : UInt8 × TrackerEnv) :
    trackerChar feet buf s x =
      { s with line := (trackerPollChar feet buf s.line x.1).1 }.sends (s.found feet buf x) := by
  unfold trackerChar TrackerSide.found
  dsimp only
  cases (trackerPollChar feet buf s.line x.1).2 with
  | nil => rfl
  | cons call calls =>
    dsimp only
    split_ifs
    · rfl
    · rfl

theorem found_none {s : TrackerSide} {x : UInt8 × TrackerEnv} (h : (readlineChar (s.reader buf) x.1).2 = 0) :
    s.found feet buf x = none := by
  have hpoll : (trackerPollChar feet buf s.line x.1).2 = [] := by
    rw [trackerPollChar]
    exact congrArg Prod.snd (if_neg (Nat.not_lt.mpr (Nat.le_of_eq h)))
  rw [TrackerSide.found, hpoll]

theorem readLen_of_line {r : SerialReader} {c : UInt8} (h : (readlineChar r c).2 > 0) :
    (readlineChar r c).1.readLen = 0 := by
  unfold readlineChar at h ⊢
  dsimp only at h ⊢
  split_ifs at h ⊢ <;> first | rfl | exact absurd h (Nat.lt_irrefl 0)

/-- The reader goes on as `serialreader_readline` does: `gps_parse` writes only
into a line that has been returned. -/
theorem reader_poll (s : TrackerSide) (c : UInt8) : SameLine (readlineChar (s.reader buf) c).1
    ({ s with line := (trackerPollChar feet buf s.line c).1 }.reader buf) := by
  have hbufLen : (readlineChar (s.reader buf) c).1.bufLen = readerBufLen := by
    unfold readlineChar
    dsimp only
    split_ifs <;> rfl
  by_cases hline : (readlineChar (s.reader buf) c).2 > 0
  · have hzero := readLen_of_line hline
    have hpoll : (trackerPollChar feet buf s.line c).1.readLen = (readlineChar (s.reader buf) c).1.readLen := by
      rw [trackerPollChar]
      exact congrArg (fun r => GpsLine.readLen (Prod.fst r)) (if_pos hline)
    refine ⟨hbufLen.symm, hpoll, fun i hi => ?_⟩
    rw [hzero] at hi
    exact absurd hi (Nat.not_lt_zero i)
  · have hpoll : (trackerPollChar feet buf s.line c).1 = ⟨fun a => if buf ≤ a then
        (readlineChar (s.reader buf) c).1.buf (a - buf) else s.line.mem a,
        (readlineChar (s.reader buf) c).1.readLen, s.line.gps⟩ := by
      rw [trackerPollChar]
      exact congrArg Prod.fst (if_neg hline)
    rw [hpoll]
    refine ⟨hbufLen.symm, rfl, fun i _ => ?_⟩
    show (if buf ≤ buf + i then _ else _) = _
    rw [if_pos (Nat.le_add_right ..), Nat.add_sub_cancel_left]

variable {feet buf} {b : Board} {s : TrackerSide}

/-- A beacon of the board is that of the tracker beside it. -/
theorem Agrees.beacon (h : Agrees buf b s) (payload : List UInt8) :
    (beaconSend b.tnc payload).2 = (beaconSend s.tnc payload).2 ∧
      (beaconSend s.tnc payload).1.store = (beaconSend b.tnc payload).1.store := by
  have heeprom : s.tnc.eeprom = b.tnc.eeprom := congrArg Store.eeprom h.store
  rw [beaconSend_frame, beaconSend_frame, heeprom]
  exact ⟨rfl, h.store⟩

/-- `tracker_poll` on the board sends what it sends beside it. -/
theorem Agrees.turn (h : Agrees buf b s) (hmode : b.currentMode = .tracker) {fix : Option (Fix × List UInt8)}
    {e : TrackerEnv} (hfix : fix = b.takes.bind fun c => s.found feet buf (c, e)) :
    (b.trackerSends fix).map Burst.bytes = outs (trackerChar feet buf) s (b.takes.map (·, e)).toList ∧
      Agrees buf (trackerPoll b fix) (final (trackerChar feet buf) s (b.takes.map (·, e)).toList) := by
  have htakes : b.takes = (serGetchar b.side.ser).1 := by
    rw [Board.takes, hmode]
    rfl
  rw [htakes] at hfix ⊢
  unfold Board.trackerSends trackerPoll serialreaderReadline
  generalize serGetchar b.side.ser = get at hfix ⊢
  obtain ⟨o, ser⟩ := get
  cases o with
  | none =>
    subst hfix
    exact ⟨rfl, h.tracker, h.store, h.line⟩
  | some c =>
    have hline : SameLine (readlineChar b.side.kiss.reader c).1
        ({ s with line := (trackerPollChar feet buf s.line c).1 }.reader buf) :=
      (h.line.char c).2.trans (reader_poll feet buf s c)
    have hcount : (readlineChar (s.reader buf) c).2 = (readlineChar b.side.kiss.reader c).2 := (h.line.char c).1
    have hone : (trackerChar feet buf s (c, e)) = _ := trackerChar_found feet buf s (c, e)
    change fix = s.found feet buf (c, e) at hfix
    show _ = (trackerChar feet buf s (c, e)).2 ++ [] ∧ Agrees buf _ (trackerChar feet buf s (c, e)).1
    rw [List.append_nil, hone, ← hfix]
    cases fix with
    | none => exact ⟨rfl, h.tracker, h.store, hline⟩
    | some x =>
      obtain ⟨f, payload⟩ := x
      have hpos : (readlineChar b.side.kiss.reader c).2 > 0 := by
        rw [← hcount]
        refine Nat.pos_of_ne_zero fun hzero => ?_
        rw [found_none feet buf hzero] at hfix
        cases hfix
      obtain ⟨hbytes, hstore⟩ := h.beacon payload
      dsimp only [TrackerSide.sends]
      rw [if_pos hpos, h.tracker]
      cases (trackerUpdateLocation b.tracker f).2 with
      | true =>
        rw [if_pos ⟨hpos, rfl⟩, if_pos rfl, if_pos rfl]
        exact ⟨congrArg (fun x => [x]) hbytes, rfl, hstore, hline⟩
      | false =>
        rw [if_neg (fun hboth => Bool.false_ne_true hboth.2), if_neg Bool.false_ne_true, if_neg Bool.false_ne_true]
        exact ⟨rfl, rfl, h.store, hline⟩

/-! ### A run -/

end TinyAprs
