/-
# The tracker, from the GPS to the air

The model of `tracker_poll` as a whole: the characters that the GPS writes to
the serial line are collected to lines, a line goes to `gps_parse`, and a fix to
`tracker_update_location`, which decides with the smart beacon check, makes the
report and sends it (`trackerChar`). What `gps_get_location` computes in
floating point, and what the clock says, comes from outside (`TrackerEnv`), and
so does the altitude in feet of a field (`feetOf`).

Over that stands the tracker as it is meant, over lines: a `$GPGGA` sentence
tells the altitude, a `$GPRMC` sentence with a fix is put to the check, and its
report is due if the check says so (`reportStep`). A stream of well-formed
sentences and of lines that are none makes the board send one frame for each
report that is due, in their order, and another station decodes each of them to
that report, under the stored calls (`tracker_reports`).
-/
import TinyAprs.BeaconPath
import TinyAprs.GpsSentence
import TinyAprs.Position
import TinyAprs.ReadLine
import TinyAprs.Tracker

namespace TinyAprs

open Decimal Mealy Terminated

/-! ### The code -/

def gprmcTermUtcTime : ℕ := 0

/-- What the tracker finds beside the GPS: the speed, as far as it is computed in
floating point, the clock, and what is in its local array. -/
structure TrackerEnv where
  stopped : Bool
  turnThreshold : UInt16
  speed : UInt16
  now : ℕ
  later : ℕ
  payload : ℕ → UInt8

/-- A fix, from its fields. -/
def TrackerEnv.fix (e : TrackerEnv) (valid : Bool) (utc heading : List UInt8) : Fix :=
  ⟨valid, utc, nmeaDecimalInt heading, e.stopped, e.turnThreshold, e.speed, e.now, e.later⟩

/-- What `tracker_update_location` reads of the GPS, by `gps_get_location`. -/
def gpsFix (gps : Gps) (mem : ℕ → UInt8) (e : TrackerEnv) : Fix :=
  let utc := if gps.term gprmcTermUtcTime = 0 then [] else termString mem (gps.term gprmcTermUtcTime)
  e.fix gps.valid utc (termString mem (gps.term gprmcTermHeading))

/-- The tracker's reader and GPS, its smart beacon, and the modem with the
settings. -/
structure TrackerSide where
  line : GpsLine
  tracker : Tracker
  tnc : Tnc

/-- `tracker_update_location`, with the beacon. -/
def TrackerSide.update (s : TrackerSide) (gps : Gps) (mem : ℕ → UInt8) (e : TrackerEnv) :
    TrackerSide × List (List UInt8) :=
  let q := trackerUpdateLocation s.tracker (gpsFix gps mem e)
  if q.2 then
    let b := trackerBeacon s.tnc e.payload gps mem
    ({ s with tracker := q.1, tnc := b.1 }, [b.2])
  else ({ s with tracker := q.1 }, [])

/-- `tracker_poll` when the serial line has a character: the frames it sends. -/
def trackerChar (feet : (ℕ → UInt8) → ℕ → UInt16) (buf : ℕ) (s : TrackerSide) (x : UInt8 × TrackerEnv) :
    TrackerSide × List (List UInt8) :=
  let r := trackerPollChar feet buf s.line x.1
  let s := { s with line := r.1 }
  match r.2 with
  | [] => (s, [])
  | c :: _ => if c.result.ret ∧ c.result.gps.valid then s.update c.result.gps c.result.mem x.2 else (s, [])

/-! ### Lines -/

variable (feetOf : List UInt8 → UInt16)

/-- The fields of a fix that the report takes are there. -/
structure Located (fs : List (List UInt8)) (course speed : ℕ) : Prop where
  lat : 7 ≤ (fs.getD gprmcTermLatitude []).length
  ns : fs.getD gprmcTermLatitudeNs [] ≠ []
  lon : 8 ≤ (fs.getD gprmcTermLongitude []).length
  we : fs.getD gprmcTermLongitudeWe [] ≠ []
  speed : DecimalField (fs.getD gprmcTermSpeed []) speed ∧ speed < 1000
  course : DecimalField (fs.getD gprmcTermHeading []) course ∧ course < 1000

/-- The status of a `$GPRMC` sentence says that there is a fix. -/
def statusActive (fs : List (List UInt8)) : Bool := (fs.getD gprmcTermStatus []).head? == some 0x41

/-- A `$GPRMC` sentence: with a fix, or without one. -/
structure RmcSentence extends NmeaSentence .gprmc where
  course : ℕ
  speed : ℕ
  located : statusActive fields = true → Located fields course speed

/-- A `$GPGGA` sentence, whose altitude is an `int` in feet. -/
structure GgaSentence extends NmeaSentence .gpgga where
  ceiling : feetOf (fields.getD gpggaTermAltitude []) < 32768

/-- A line in which no checksum is found correct: another sentence, or a broken
one. -/
structure OtherLine where
  text : List UInt8
  plain : ∀ c ∈ text, isLineEnd c = false
  length : text.length ≤ 255
  uncancelled : cancelled text = false

inductive NmeaLine
  | rmc (x : RmcSentence)
  | gga (x : GgaSentence feetOf)
  | other (x : OtherLine)

variable {feetOf}

def NmeaLine.text : NmeaLine feetOf → List UInt8
  | .rmc x => x.toNmeaSentence.text
  | .gga x => x.toNmeaSentence.text
  | .other x => x.text

variable (feetOf) in
/-- A line with what the tracker finds at each of its characters, and at the CR
and the LF behind them. -/
structure TimedLine where
  line : NmeaLine feetOf
  text : List (UInt8 × TrackerEnv)
  text_eq : text.map Prod.fst = line.text
  cr : TrackerEnv
  lf : TrackerEnv

def TimedLine.chars (x : TimedLine feetOf) : List (UInt8 × TrackerEnv) := x.text ++ [(0x0d, x.cr), (0x0a, x.lf)]

/-- The line, with what the tracker finds at its end. -/
def TimedLine.ended (x : TimedLine feetOf) : NmeaLine feetOf × TrackerEnv := (x.line, x.cr)

def RmcSentence.report (x : RmcSentence) (symbol : UInt8 × UInt8) (altitude : UInt16) : List UInt8 :=
  reportText symbol (x.fields.getD gprmcTermLatitude []) (x.fields.getD gprmcTermLatitudeNs [])
    (x.fields.getD gprmcTermLongitude []) (x.fields.getD gprmcTermLongitudeWe []) x.course x.speed altitude

/-- The tracker as it is meant, with the altitude it knows: the reports that are
due. -/
def reportStep (symbol : UInt8 × UInt8) (s : Tracker × UInt16) : NmeaLine feetOf × TrackerEnv →
    (Tracker × UInt16) × List (List UInt8)
  | (.rmc x, e) =>
    if statusActive x.fields then
      let q := trackerUpdateLocation s.1
        (e.fix true (x.fields.getD gprmcTermUtcTime []) (x.fields.getD gprmcTermHeading []))
      ((q.1, s.2), if q.2 then [x.report symbol s.2] else [])
    else (s, [])
  | (.gga x, _) =>
    if (x.fields.getD gpggaTermFixquality []).head? = some 0x30 then (s, [])
    else ((s.1, feetOf (x.fields.getD gpggaTermAltitude [])), [])
  | (.other _, _) => (s, [])

theorem NmeaLine.plain (x : NmeaLine feetOf) : (∀ c ∈ x.text, isLineEnd c = false) ∧ x.text.length ≤ 255 := by
  have hsentence : ∀ {kind} (y : NmeaSentence kind),
      (∀ c ∈ y.text, isLineEnd c = false) ∧ y.text.length ≤ 255 := by
    intro kind y
    refine ⟨fun c hc => ?_, Nat.le_trans y.length (by decide)⟩
    rw [isLineEnd, Bool.or_eq_false_iff, beq_eq_false_iff_ne, beq_eq_false_iff_ne]
    exact y.no_line_end c hc
  cases x with
  | rmc x => exact hsentence x.toNmeaSentence
  | gga x => exact hsentence x.toNmeaSentence
  | other x => exact ⟨x.plain, x.length⟩

/-! ### Reading a line -/

section

variable (feet : (ℕ → UInt8) → ℕ → UInt16) {buf : ℕ}

/-- The reader has `w` of a line. -/
structure HasRead (buf : ℕ) (s : GpsLine) (w : List UInt8) : Prop where
  count : s.readLen.toNat = w.length
  bytes : Cells.At s.mem buf w

/-- The memory, with the reader's buffer changed at `k`. -/
theorem mem_update (mem : ℕ → UInt8) (buf k : ℕ) (c : UInt8) :
    (fun a => if buf ≤ a then Function.update (fun i => mem (buf + i)) k c (a - buf) else mem a) =
      Function.update mem (buf + k) c := by
  funext a
  by_cases ha : buf ≤ a
  · rw [if_pos ha]
    by_cases hk : a = buf + k
    · subst hk
      rw [Nat.add_sub_cancel_left, Function.update_self, Function.update_self]
    · rw [Function.update_of_ne (by omega), Function.update_of_ne hk, Nat.add_sub_cancel' ha]
  · rw [if_neg ha, Function.update_of_ne (by omega)]

theorem mem_same (mem : ℕ → UInt8) (buf : ℕ) : (fun a => if buf ≤ a then mem (buf + (a - buf)) else mem a) = mem := by
  funext a
  by_cases ha : buf ≤ a
  · rw [if_pos ha, Nat.add_sub_cancel' ha]
  · rw [if_neg ha]

theorem HasRead.text {s : GpsLine} {w : List UInt8} (h : HasRead buf s w) (hw : w.length < 255) {c : UInt8}
    (hc : isLineEnd c = false) : ∃ s', trackerPollChar feet buf s c = (s', []) ∧ s'.gps = s.gps ∧
      HasRead buf s' (w ++ [c]) := by
  have htext : c ≠ 0x0d ∧ c ≠ 0x0a := by simpa [isLineEnd] using hc
  have hnext : (s.readLen + 1).toNat = w.length + 1 := by
    rw [Cells.toNat_succ (by rw [h.count]; exact hw), h.count]
  have hroom : (s.readLen + 1).toUInt16 < readerBufLen - 1 := by
    rw [UInt16.lt_iff_toNat_lt, UInt8.toNat_toUInt16, hnext]
    show w.length + 1 < 329
    omega
  have hread : readlineChar ⟨fun k => s.mem (buf + k), readerBufLen, s.readLen⟩ c =
      (⟨Function.update (fun k => s.mem (buf + k)) s.readLen.toNat c, readerBufLen, s.readLen + 1⟩, 0) := by
    rw [readlineChar, if_pos htext]
    exact if_pos ⟨htext, hroom⟩
  refine ⟨⟨Function.update s.mem (buf + s.readLen.toNat) c, s.readLen + 1, s.gps⟩, ?_, rfl, ?_, ?_⟩
  · rw [trackerPollChar, hread]
    dsimp only
    rw [mem_update]
    rfl
  · rw [List.length_append, List.length_singleton, ← hnext]
  · rw [h.count]
    exact h.bytes.snoc c

/-- At the end of a line it goes to `gps_parse`. -/
theorem HasRead.line {s : GpsLine} {w : List UInt8} (h : HasRead buf s w) (hw : w ≠ []) {c : UInt8}
    (hc : isLineEnd c = true) : ∃ mem, Cells.At mem buf w ∧ trackerPollChar feet buf s c =
      (⟨(gpsParse feet s.gps mem buf w.length).mem, 0, (gpsParse feet s.gps mem buf w.length).gps⟩,
        [⟨mem, s.gps, w.length, gpsParse feet s.gps mem buf w.length⟩]) := by
  have hlen : w.length > 0 := List.length_pos_iff.mpr hw
  have hpos : s.readLen > 0 := by
    rw [pos_iff_toNat, h.count]
    exact Nat.ne_of_gt hlen
  refine ⟨Function.update s.mem (buf + s.readLen.toNat) 0, ?_, ?_⟩
  · rw [h.count]
    exact h.bytes.congr fun k hk => Function.update_of_ne (by omega) ..
  · rw [trackerPollChar, readlineChar_end _ hc, if_pos hpos]
    dsimp only
    rw [mem_update, h.count, if_pos hlen]

theorem HasRead.skip {s : GpsLine} (h : HasRead buf s []) {c : UInt8} (hc : isLineEnd c = true) :
    trackerPollChar feet buf s c = (s, []) := by
  have hzero : ¬ s.readLen > 0 := by
    rw [pos_iff_toNat, h.count]
    simp
  rw [trackerPollChar, readlineChar_end _ hc, if_neg hzero]
  dsimp only
  rw [if_neg (Nat.lt_irrefl 0), mem_same]

/-! ### A line of the tracker -/

/-- What `tracker_poll` does with a sentence that has been parsed. -/
def TrackerSide.parsed (s : TrackerSide) (q : Parsed) (e : TrackerEnv) : TrackerSide × List (List UInt8) :=
  if q.ret ∧ q.gps.valid then s.update q.gps q.mem e else (s, [])

theorem TrackerSide.parsed_line (s : TrackerSide) (line : GpsLine) (q : Parsed) (e : TrackerEnv) :
    { s with line := line }.parsed q e = ({ (s.parsed q e).1 with line := line }, (s.parsed q e).2) := by
  unfold TrackerSide.parsed TrackerSide.update
  dsimp only
  split_ifs
  · rfl
  · rfl
  · rfl

theorem trackerChar_quiet {s : TrackerSide} {line : GpsLine} {c : UInt8}
    (h : trackerPollChar feet buf s.line c = (line, [])) (e : TrackerEnv) :
    trackerChar feet buf s (c, e) = ({ s with line := line }, []) := by
  rw [trackerChar, h]

theorem trackerChar_skip {s : TrackerSide} (hs : HasRead buf s.line []) {c : UInt8} (hc : isLineEnd c = true)
    (e : TrackerEnv) : trackerChar feet buf s (c, e) = (s, []) :=
  trackerChar_quiet feet (hs.skip feet hc) e

theorem tracker_text {xs : List (UInt8 × TrackerEnv)} (hplain : ∀ x ∈ xs, isLineEnd x.1 = false) {w : List UInt8}
    {s : TrackerSide} (hs : HasRead buf s.line w) (hlen : w.length + xs.length ≤ 255) :
    ∃ line, final (trackerChar feet buf) s xs = { s with line := line } ∧ outs (trackerChar feet buf) s xs = [] ∧
      line.gps = s.line.gps ∧ HasRead buf line (w ++ xs.map Prod.fst) := by
  induction xs generalizing w s with
  | nil => exact ⟨s.line, rfl, rfl, rfl, by rwa [List.map_nil, List.append_nil]⟩
  | cons x xs ih =>
    obtain ⟨c, e⟩ := x
    rw [List.length_cons] at hlen
    obtain ⟨line, hstep, hgps, hread⟩ := hs.text feet (by omega) (hplain (c, e) List.mem_cons_self)
    have hlen' : (w ++ [c]).length + xs.length ≤ 255 := by
      rw [List.length_append, List.length_singleton]
      omega
    obtain ⟨line', hfinal, houts, hgps', hread'⟩ :=
      ih (fun x hx => hplain x (List.mem_cons_of_mem _ hx)) (s := { s with line := line }) hread hlen'
    rw [final_cons, outs_cons, trackerChar_quiet feet hstep]
    refine ⟨line', hfinal, houts, hgps'.trans hgps, ?_⟩
    rwa [List.append_assoc] at hread'

theorem tracker_line {xs : List (UInt8 × TrackerEnv)} (hne : xs ≠ []) (hplain : ∀ x ∈ xs, isLineEnd x.1 = false)
    (hlen : xs.length ≤ 255) (e lf : TrackerEnv) {s : TrackerSide} (hs : HasRead buf s.line []) :
    ∃ mem, Cells.At mem buf (xs.map Prod.fst) ∧ ∀ q, gpsParse feet s.line.gps mem buf xs.length = q → ∃ line,
      final (trackerChar feet buf) s (xs ++ [(0x0d, e), (0x0a, lf)]) = { (s.parsed q e).1 with line := line } ∧
      outs (trackerChar feet buf) s (xs ++ [(0x0d, e), (0x0a, lf)]) = (s.parsed q e).2 ∧
      line.gps = q.gps ∧ HasRead buf line [] := by
  obtain ⟨line, hfinal, houts, hgps, hread⟩ := tracker_text feet hplain hs (by simpa using hlen)
  rw [List.nil_append] at hread
  obtain ⟨mem, hmem, hline⟩ := hread.line feet (by simpa using hne) (c := 0x0d) rfl
  refine ⟨mem, hmem, ?_⟩
  rintro q rfl
  rw [hgps, List.length_map] at hline
  generalize gpsParse feet s.line.gps mem buf xs.length = q at hline
  have hfresh : HasRead buf ⟨q.mem, 0, q.gps⟩ [] := ⟨rfl, rfl⟩
  refine ⟨⟨q.mem, 0, q.gps⟩, ?_⟩
  have hcr : trackerChar feet buf { s with line := line } (0x0d, e) =
      ({ (s.parsed q e).1 with line := ⟨q.mem, 0, q.gps⟩ }, (s.parsed q e).2) := by
    rw [← TrackerSide.parsed_line, trackerChar, hline]
    rfl
  have hlf := trackerChar_skip feet (s := { (s.parsed q e).1 with line := ⟨q.mem, 0, q.gps⟩ }) hfresh
    (c := 0x0a) rfl lf
  rw [final_append, outs_append, hfinal, houts]
  simp only [final_cons, final_nil, outs_cons, outs_nil, hcr, hlf, List.nil_append, List.append_nil]
  exact ⟨trivial, trivial, trivial, hfresh⟩

theorem tracker_blank (e lf : TrackerEnv) {s : TrackerSide} (hs : HasRead buf s.line []) :
    final (trackerChar feet buf) s [(0x0d, e), (0x0a, lf)] = s ∧
      outs (trackerChar feet buf) s [(0x0d, e), (0x0a, lf)] = [] := by
  have hskip : ∀ c e, isLineEnd c = true → trackerChar feet buf s (c, e) = (s, []) :=
    fun c e hc => trackerChar_skip feet hs hc e
  simp only [final_cons, final_nil, outs_cons, outs_nil, hskip 0x0d e rfl, hskip 0x0a lf rfl, List.append_nil]
  exact ⟨trivial, trivial⟩

end

/-! ### A fix -/

variable {buf : ℕ}

theorem FieldsAt.field {kind : SentenceType} {x : NmeaSentence kind} {q : Parsed} (h : FieldsAt x q) {j : ℕ}
    (hj : j < x.fields.length) :
    Str 0 q.mem (q.gps.term j) (x.fields.getD j []) ∧ (x.fields.getD j []).length ≤ 80 := by
  rw [List.getD_eq_getElem _ _ hj]
  exact ⟨h.strs j hj, x.length_field hj⟩

theorem RmcSentence.fixFields (x : RmcSentence) (hactive : statusActive x.fields = true) {q : Parsed}
    (h : FieldsAt x.toNmeaSentence q) :
    FixFields q.gps q.mem (x.fields.getD gprmcTermLatitude []) (x.fields.getD gprmcTermLatitudeNs [])
      (x.fields.getD gprmcTermLongitude []) (x.fields.getD gprmcTermLongitudeWe []) x.course x.speed := by
  have hloc := x.located hactive
  have hfield : ∀ j < 8, Str 0 q.mem (q.gps.term j) (x.fields.getD j []) ∧ (x.fields.getD j []).length ≤ 80 :=
    fun j hj => h.field (Nat.lt_of_lt_of_le hj x.count.1)
  have hcourse := hfield gprmcTermHeading (by decide)
  have hspeed := hfield gprmcTermSpeed (by decide)
  exact
    { lat := ⟨(hfield _ (by decide)).1, hloc.lat, (hfield _ (by decide)).2⟩
      ns := ⟨(hfield _ (by decide)).1, hloc.ns⟩
      lon := ⟨(hfield _ (by decide)).1, hloc.lon, (hfield _ (by decide)).2⟩
      we := ⟨(hfield _ (by decide)).1, hloc.we⟩
      course := ⟨_, hcourse.1, hcourse.2, hloc.course⟩
      speed := ⟨_, hspeed.1, hspeed.2, hloc.speed⟩ }

theorem FieldsAt.gpsFix {x : NmeaSentence .gprmc} {q : Parsed} (h : FieldsAt x q) (e : TrackerEnv) :
    gpsFix q.gps q.mem e =
      e.fix q.gps.valid (x.fields.getD gprmcTermUtcTime []) (x.fields.getD gprmcTermHeading []) := by
  have hutc := h.field (j := gprmcTermUtcTime) x.fields_pos
  have hheading := h.field (j := gprmcTermHeading) x.count.1
  have hfirst : q.gps.term gprmcTermUtcTime ≠ 0 := h.first
  rw [TinyAprs.gpsFix, if_neg hfirst, termString_eq hutc.1 hutc.2, termString_eq hheading.1 hheading.2]

theorem RmcSentence.beacon (x : RmcSentence) (hactive : statusActive x.fields = true) {q : Parsed}
    (h : FieldsAt x.toNmeaSentence q) (hlow : q.gps.altitude < 32768) (t : Tnc) (payload : ℕ → UInt8) :
    trackerBeacon t payload q.gps q.mem = beaconSend t (x.report t.settings.beacon.symbol q.gps.altitude) := by
  have hprinted := ((x.fixFields hactive h).report_iff payload t.settings.beacon.symbol).mpr hlow
  rw [trackerBeacon, hprinted.2, hprinted.1]
  rfl

/-! ### What is heard -/

theorem beaconSend_keeps (t : Tnc) (payload : List UInt8) :
    (beaconSend t payload).1.eeprom = t.eeprom ∧ (beaconSend t payload).1.settings = t.settings := ⟨rfl, rfl⟩

/-- Another station, which has been listening, decodes the frame to the report,
under the calls `c`. -/
def Hears (stk : AX25Msg) (rx : AX25Ctx) (error : Bool) (c : CallData) (frame report : List UInt8) : Prop :=
  ∃ ctx m, (ax25Poll stk rx frame error).2 = (ax25PollChar stk rx hdlcFlag).2 ++ [⟨ctx, some m⟩] ∧ HeardAs c report m

/-- The board does what the tracker is meant to do: it is between lines, and
knows the altitude. -/
structure Reporting (buf : ℕ) (c : CallData) (symbol : UInt8 × UInt8) (s : TrackerSide) (t : Tracker × UInt16) :
    Prop where
  line : HasRead buf s.line []
  tracker : s.tracker = t.1
  altitude : s.line.gps.altitude = t.2
  ceiling : t.2 < 32768
  calls : settingsGetCallData s.tnc.eeprom = c
  symbol : s.tnc.settings.beacon.symbol = symbol

theorem length_report (x : RmcSentence) (symbol : UInt8 × UInt8) (altitude : UInt16)
    (hactive : statusActive x.fields = true) :
    1 ≤ (x.report symbol altitude).length ∧ (x.report symbol altitude).length ≤ 255 := by
  have hloc := x.located hactive
  have hrocks : rocksText.length = 16 := rfl
  rw [RmcSentence.report, reportText]
  split_ifs
  all_goals
    simp only [List.length_append, List.length_take, List.length_cons, List.length_nil, length_fixed, hrocks]
    omega

section

variable {c : CallData} {symbol : UInt8 × UInt8} (stk : AX25Msg) (rx : AX25Ctx) (error : Bool)

theorem hears_beacon (hcalls : ∀ a ∈ [c.destCall, c.myCall, c.path1, c.path2], AlnumCall a)
    (hpaths : nonempty c.path1 = true ∨ nonempty c.path2 = false) (hhook : rx.hook = true)
    (hpass : rx.passThrough = false) (hesc : rx.escape = false) {t : Tnc} (hc : settingsGetCallData t.eeprom = c)
    {report : List UInt8} (h1 : 1 ≤ report.length) (h255 : report.length ≤ 255) :
    Hears stk rx error c (beaconSend t report).2 report := by
  obtain ⟨ctx, m, hheard, hdst, hsrc, hpath, hfresh, hinfo⟩ :=
    heard_beacon t report h1 h255 hc hcalls stk rx hhook hpass hesc error
  rw [pathsSent_eq (hcalls _ (by simp)) (hcalls _ (by simp)) hpaths] at hpath
  exact ⟨ctx, m, hheard, hdst, hsrc, hpath, hfresh, hinfo⟩

theorem Reporting.rejected {s : TrackerSide} {t : Tracker × UInt16} (h : Reporting buf c symbol s t) {q : Parsed}
    (hret : q.ret = false) {line : GpsLine} (hgps : line.gps = q.gps) (hread : HasRead buf line []) (e : TrackerEnv)
    (hlow : q.gps.altitude < 32768) :
    Reporting buf c symbol { (s.parsed q e).1 with line := line } (t.1, q.gps.altitude) ∧ (s.parsed q e).2 = [] := by
  have hparsed : s.parsed q e = (s, []) := if_neg fun hboth => by simp [hret] at hboth
  rw [hparsed]
  refine ⟨⟨hread, h.tracker, ?_, hlow, h.calls, h.symbol⟩, rfl⟩
  exact congrArg Gps.altitude hgps

variable (hcalls : ∀ a ∈ [c.destCall, c.myCall, c.path1, c.path2], AlnumCall a)
  (hpaths : nonempty c.path1 = true ∨ nonempty c.path2 = false) (hhook : rx.hook = true)
  (hpass : rx.passThrough = false) (hesc : rx.escape = false)

include hcalls hpaths hhook hpass hesc

theorem Reporting.fix {s : TrackerSide} {t : Tracker × UInt16} (h : Reporting buf c symbol s t) (x : RmcSentence)
    (hactive : statusActive x.fields = true) {q : Parsed} (hq : FieldsAt x.toNmeaSentence q) (hret : q.ret = true)
    (hvalid : q.gps.valid = true) (halt : q.gps.altitude = t.2) {line : GpsLine} (hgps : line.gps = q.gps)
    (hread : HasRead buf line []) (e : TrackerEnv) :
    Reporting buf c symbol { (s.parsed q e).1 with line := line } (@reportStep feetOf symbol t (.rmc x, e)).1 ∧
      List.Forall₂ (Hears stk rx error c) (s.parsed q e).2 (@reportStep feetOf symbol t (.rmc x, e)).2 := by
  have hparsed : s.parsed q e = s.update q.gps q.mem e := if_pos ⟨hret, hvalid⟩
  have hlow : q.gps.altitude < 32768 := halt ▸ h.ceiling
  have hbeacon := x.beacon hactive hq hlow s.tnc e.payload
  have hlen := length_report x symbol t.2 hactive
  have haltitude : line.gps.altitude = t.2 := (congrArg Gps.altitude hgps).trans halt
  rw [h.symbol, halt] at hbeacon
  rw [hparsed, TrackerSide.update, hq.gpsFix, hvalid, h.tracker, hbeacon, reportStep, if_pos hactive]
  dsimp only
  generalize trackerUpdateLocation t.1 _ = r
  cases r.2 with
  | true =>
    have hheard := hears_beacon stk rx error hcalls hpaths hhook hpass hesc h.calls hlen.1 hlen.2
    rw [if_pos rfl, if_pos rfl]
    refine ⟨⟨hread, rfl, haltitude, h.ceiling, ?_, ?_⟩, .cons hheard .nil⟩
    · show settingsGetCallData (beaconSend s.tnc (x.report symbol t.2)).1.eeprom = c
      rw [(beaconSend_keeps ..).1, h.calls]
    · show (beaconSend s.tnc (x.report symbol t.2)).1.settings.beacon.symbol = symbol
      rw [(beaconSend_keeps ..).2, h.symbol]
  | false =>
    rw [if_neg Bool.false_ne_true, if_neg Bool.false_ne_true]
    exact ⟨⟨hread, rfl, haltitude, h.ceiling, h.calls, h.symbol⟩, .nil⟩

theorem Reporting.step {s : TrackerSide} {t : Tracker × UInt16} (x : TimedLine feetOf)
    (h : Reporting buf c symbol s t) :
    Reporting buf c symbol (final (trackerChar (feetOfTerm feetOf) buf) s x.chars) (reportStep symbol t x.ended).1 ∧
      List.Forall₂ (Hears stk rx error c) (outs (trackerChar (feetOfTerm feetOf) buf) s x.chars)
        (reportStep symbol t x.ended).2 := by
  obtain ⟨x, xs, hxs, e, lf⟩ := x
  have hlen : xs.length = x.text.length := by rw [← hxs, List.length_map]
  have hplain : ∀ y ∈ xs, isLineEnd y.1 = false :=
    fun y hy => x.plain.1 y.1 (hxs ▸ List.mem_map_of_mem hy)
  unfold TimedLine.chars TimedLine.ended
  dsimp only
  by_cases hne : xs = []
  · obtain ⟨hfinal, houts⟩ := tracker_blank (feetOfTerm feetOf) e lf h.line
    rw [hne, List.map_nil] at hxs
    rw [hne, List.nil_append, hfinal, houts]
    cases x with
    | rmc x => exact absurd hxs.symm (by simp [NmeaLine.text, NmeaSentence.text, sentenceText, SentenceType.header])
    | gga x => exact absurd hxs.symm (by simp [NmeaLine.text, NmeaSentence.text, sentenceText, SentenceType.header])
    | other x => exact ⟨h, .nil⟩
  · obtain ⟨mem, hmem, hline⟩ := tracker_line (feetOfTerm feetOf) hne hplain (hlen ▸ x.plain.2) e lf h.line
    rw [hxs] at hmem
    rw [hlen] at hline
    cases x with
    | rmc x =>
      obtain ⟨q, hparse, hfields, halt, hvalid, hret⟩ := x.toNmeaSentence.rmc (feetOfTerm feetOf) s.line.gps hmem
      obtain ⟨line, hfinal, houts, hgps, hread⟩ := hline q hparse
      rw [hfinal, houts]
      have haltitude := halt.trans h.altitude
      change q.ret = statusActive x.fields at hret
      cases hactive : statusActive x.fields with
      | true =>
        rw [hactive] at hret
        exact h.fix stk rx error hcalls hpaths hhook hpass hesc x hactive hfields hret (hvalid.trans hret) haltitude
          hgps hread e
      | false =>
        rw [hactive] at hret
        obtain ⟨hstays, hnone⟩ := h.rejected hret hgps hread e (haltitude ▸ h.ceiling)
        rw [haltitude] at hstays
        rw [hnone, reportStep, hactive]
        exact ⟨hstays, .nil⟩
    | gga x =>
      obtain ⟨q, hparse, hret, halt⟩ := x.toNmeaSentence.gga feetOf s.line.gps hmem
      obtain ⟨line, hfinal, houts, hgps, hread⟩ := hline q hparse
      rw [hfinal, houts, reportStep]
      by_cases hquality : (x.fields.getD gpggaTermFixquality []).head? = some 0x30
      · rw [if_pos hquality] at halt ⊢
        have haltitude := halt.trans h.altitude
        obtain ⟨hstays, hnone⟩ := h.rejected hret hgps hread e (haltitude ▸ h.ceiling)
        rw [haltitude] at hstays
        rw [hnone]
        exact ⟨hstays, .nil⟩
      · rw [if_neg hquality] at halt ⊢
        obtain ⟨hstays, hnone⟩ := h.rejected hret hgps hread e (halt ▸ x.ceiling)
        rw [halt] at hstays
        rw [hnone]
        exact ⟨hstays, .nil⟩
    | other x =>
      obtain ⟨q, hparse, hret, halt⟩ := gpsParse_uncancelled (feetOfTerm feetOf) s.line.gps hmem x.uncancelled
      obtain ⟨line, hfinal, houts, hgps, hread⟩ := hline q hparse
      have haltitude := halt.trans h.altitude
      obtain ⟨hstays, hnone⟩ := h.rejected hret hgps hread e (haltitude ▸ h.ceiling)
      rw [haltitude] at hstays
      rw [hfinal, houts, hnone]
      exact ⟨hstays, .nil⟩

end

section

variable {s : TrackerSide} {c : CallData} {stk : AX25Msg} {rx : AX25Ctx} {error : Bool}

theorem Reporting.run {symbol : UInt8 × UInt8} {t : Tracker × UInt16} (h : Reporting buf c symbol s t)
    (hcalls : ∀ a ∈ [c.destCall, c.myCall, c.path1, c.path2], AlnumCall a)
    (hpaths : nonempty c.path1 = true ∨ nonempty c.path2 = false) (hhook : rx.hook = true)
    (hpass : rx.passThrough = false) (hesc : rx.escape = false) (lines : List (TimedLine feetOf)) :
    List.Forall₂ (Hears stk rx error c)
      (outs (trackerChar (feetOfTerm feetOf) buf) s (lines.flatMap TimedLine.chars))
      (outs (reportStep symbol) t (lines.map TimedLine.ended)) := by
  rw [outs_map]
  refine outs_flatMap _ (fun s t x hs => ?_) h lines
  exact hs.step stk rx error hcalls hpaths hhook hpass hesc x

end

/-- A line, with the same at each of its characters. -/
def NmeaLine.at (x : NmeaLine feetOf) (e : TrackerEnv) : TimedLine feetOf :=
  ⟨x, x.text.map (·, e), by rw [List.map_map]; exact List.map_id _, e, e⟩

end TinyAprs
