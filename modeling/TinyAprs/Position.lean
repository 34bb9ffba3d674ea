/-
# The position report

The model of how `tracker_update_location` (`tracker.c`) builds its payload
from the terms of a fix, with `snprintf_P` into an array of 64 bytes. `int`
has 16 bits: `%d` prints the 16 bits it is given as a signed number, and the
altitude is a `uint16_t`.
-/
import TinyAprs.BeaconSend
import TinyAprs.GpsFields
import TinyAprs.KissStore
import TinyAprs.Lib.Decimal

namespace TinyAprs

open Decimal Mealy Terminated

/-! ### Printing -/

/-- `%0wd` -/
def printInt (w : ℕ) (x : Int16) : List UInt8 :=
  if x < 0 then 0x2d :: padded (w - 1) x.toInt.natAbs else padded w x.toInt.natAbs

/-- `snprintf_P` to `buf + off`: what it would print is cut to `size - 1`
characters and a NUL, and its whole length is returned. -/
def snprintf (buf : ℕ → UInt8) (off size : ℕ) (text : List UInt8) : (ℕ → UInt8) × ℕ :=
  (if size = 0 then buf else Cells.write buf off (text.take (size - 1) ++ [0]), text.length)

/-- `nmea_decimal_int` -/
def nmeaDecimalInt (s : List UInt8) : UInt16 :=
  let s := if s.headD 0 = 0x2d ∨ s.headD 0 = 0x2b then s.drop 1 else s
  (s.takeWhile (· != 0x2e)).foldl (fun rl c => 10 * rl + (charInt c - 48).toUInt16) 0

def gprmcTermLatitude : ℕ := 2
def gprmcTermLatitudeNs : ℕ := 3
def gprmcTermLongitude : ℕ := 4
def gprmcTermLongitudeWe : ℕ := 5
def gprmcTermSpeed : ℕ := 6
def gprmcTermHeading : ℕ := 7

/-- `%.7s%c%c%.8s%c%c%03d/%03d` behind a `!` -/
def positionText (symbol : UInt8 × UInt8) (gps : Gps) (mem : ℕ → UInt8) : List UInt8 :=
  let term j := termString mem (gps.term j)
  let char j := mem (gps.term j)
  let s1 := if symbol.1 = 0 then 0x2f else symbol.1
  let s2 := if symbol.2 = 0 then 0x3e else symbol.2
  [0x21] ++ (term gprmcTermLatitude).take 7 ++ [char gprmcTermLatitudeNs] ++ [s1] ++
    (term gprmcTermLongitude).take 8 ++ [char gprmcTermLongitudeWe] ++ [s2] ++
    printInt 3 (nmeaDecimalInt (term gprmcTermHeading)).toInt16 ++ [0x2f] ++
    printInt 3 (nmeaDecimalInt (term gprmcTermSpeed)).toInt16

/-- `/A=%06d` -/
def altitudeText (altitude : UInt16) : List UInt8 := [0x2f, 0x41, 0x3d] ++ printInt 6 altitude.toInt16

/-- ` TinyAPRS Rocks!` -/
def rocksText : List UInt8 :=
  [0x20, 0x54, 0x69, 0x6e, 0x79, 0x41, 0x50, 0x52, 0x53, 0x20, 0x52, 0x6f, 0x63, 0x6b, 0x73, 0x21]

/-- `payload` and `len` of `tracker_update_location`; `payload` is a local
array. -/
def trackerPayload (payload : ℕ → UInt8) (symbol : UInt8 × UInt8) (gps : Gps) (mem : ℕ → UInt8) :
    (ℕ → UInt8) × UInt8 :=
  let r := snprintf payload 0 63 (positionText symbol gps mem)
  let payload := r.1
  let len := UInt8.ofNat r.2
  let r := if gps.altitude > 0 then
      snprintf payload len.toNat (63 - len.toUInt16).toNat (altitudeText gps.altitude)
    else (payload, 0)
  let payload := r.1
  let len := len + UInt8.ofNat r.2
  let r := snprintf payload len.toNat (63 - len.toUInt16).toNat rocksText
  (r.1, len + UInt8.ofNat r.2)

/-- The beacon of `tracker_update_location`. -/
def trackerBeacon (t : Tnc) (payload : ℕ → UInt8) (gps : Gps) (mem : ℕ → UInt8) : Tnc × List UInt8 :=
  let r := trackerPayload payload t.settings.beacon.symbol gps mem
  beaconSend t (Cells.slice r.1 0 r.2.toNat)

/-! ### What is printed -/

/-- A `uint16_t` read as an `int`. -/
theorem toInt_toInt16 (a : UInt16) :
    a.toInt16.toInt = if a.toNat < 32768 then (a.toNat : ℤ) else (a.toNat : ℤ) - 65536 := by
  have hlt := a.toNat_lt
  have hint : a.toInt16.toInt = Int.bmod a.toNat 65536 := by
    conv_lhs => rw [← UInt16.ofNat_toNat (x := a), UInt16.toInt16_ofNat', Int16.toInt_ofNat']
  rw [hint, Int.bmod_def]
  split_ifs <;> omega

theorem printInt_of_lt {w : ℕ} {a : UInt16} (hw : 0 < w) (h : a.toNat < 32768) (hfit : a.toNat < 10 ^ w) :
    printInt w a.toInt16 = fixed w a.toNat := by
  have hint : a.toInt16.toInt = a.toNat := by rw [toInt_toInt16, if_pos h]
  have hpos : ¬ a.toInt16 < 0 := by
    rw [Int16.lt_iff_toInt_lt, hint]
    exact Int.not_lt.mpr (Int.natCast_nonneg _)
  rw [printInt, if_neg hpos, hint, Int.natAbs_natCast, padded_eq_fixed hw hfit]

theorem printInt_of_ge {a : UInt16} (h : 32768 ≤ a.toNat) (w : ℕ) : ∃ l, printInt w a.toInt16 = 0x2d :: l := by
  have hlt := a.toNat_lt
  have hneg : a.toInt16 < 0 := by
    rw [Int16.lt_iff_toInt_lt, toInt_toInt16, if_neg (Nat.not_lt.mpr h), Int16.toInt_zero]
    omega
  exact ⟨_, by rw [printInt, if_pos hneg]⟩

theorem length_printInt_six (x : Int16) : (printInt 6 x).length = 6 := by
  have hlt := x.toInt_lt
  have hle := x.le_toInt
  have hfit : x.toInt.natAbs < 10 ^ 5 := by omega
  rw [printInt]
  split_ifs
  · rw [List.length_cons, padded_eq_fixed (by decide) hfit, length_fixed]
  · rw [padded_eq_fixed (by decide) (Nat.lt_trans hfit (by decide)), length_fixed]

theorem fixed_six_ne (n : ℕ) (l : List UInt8) : fixed 6 n ≠ 0x2d :: l := by
  have hdigit : ∀ d < 10, digit d ≠ 0x2d := by decide
  intro h
  have hhead := congrArg List.head? h
  simp only [fixed, List.nil_append, List.cons_append, List.head?_cons, Option.some.injEq] at hhead
  exact hdigit _ (Nat.mod_lt _ (by decide)) hhead

/-! ### Numbers in a field -/

/-- An unsigned decimal number with the integer part `n`. -/
def DecimalField (f : List UInt8) (n : ℕ) : Prop :=
  ∃ int frac, (∀ c ∈ int, 0x30 ≤ c ∧ c ≤ 0x39) ∧ value int = n ∧
    (f = int ∨ (f = int ++ 0x2e :: frac ∧ ∀ c ∈ frac, 0x30 ≤ c ∧ c ≤ 0x39))

theorem digit_facts : ∀ c : UInt8, 0x30 ≤ c ∧ c ≤ 0x39 →
    c ≠ 0 ∧ c ≠ 0x2d ∧ c ≠ 0x2b ∧ (c != 0x2e) = true ∧ (charInt c - 48).toUInt16 = UInt16.ofNat (c.toNat - 48) := by
  decide +kernel

theorem foldl_digits {cs : List UInt8} (h : ∀ c ∈ cs, 0x30 ≤ c ∧ c ≤ 0x39) (v : ℕ) :
    cs.foldl (fun rl c => 10 * rl + (charInt c - 48).toUInt16) (UInt16.ofNat v) =
      UInt16.ofNat (cs.foldl (fun v c => 10 * v + (c.toNat - 48)) v) := by
  induction cs generalizing v with
  | nil => rfl
  | cons c cs ih =>
    have hstep : 10 * UInt16.ofNat v + (charInt c - 48).toUInt16 = UInt16.ofNat (10 * v + (c.toNat - 48)) := by
      rw [(digit_facts c (h c List.mem_cons_self)).2.2.2.2, UInt16.ofNat_add, UInt16.ofNat_mul]
      rfl
    rw [List.foldl_cons, List.foldl_cons, hstep, ih fun c hc => h c (List.mem_cons_of_mem _ hc)]

theorem DecimalField.free {f : List UInt8} {n : ℕ} (h : DecimalField f n) : 0 ∉ f := by
  obtain ⟨int, frac, hint, -, rfl | ⟨rfl, hfrac⟩⟩ := h
  · intro hc
    exact (digit_facts 0 (hint 0 hc)).1 rfl
  · intro hc
    rcases List.mem_append.mp hc with hc | hc
    · exact (digit_facts 0 (hint 0 hc)).1 rfl
    · rcases List.mem_cons.mp hc with hc | hc
      · exact absurd hc (by decide)
      · exact (digit_facts 0 (hfrac 0 hc)).1 rfl

theorem nmeaDecimalInt_eq {f : List UInt8} {n : ℕ} (h : DecimalField f n) :
    nmeaDecimalInt f = UInt16.ofNat n := by
  obtain ⟨int, frac, hint, rfl, hf⟩ := h
  have hsign : ¬ (f.headD 0 = 0x2d ∨ f.headD 0 = 0x2b) := by
    cases int with
    | nil =>
      rcases hf with rfl | ⟨rfl, -⟩
      · decide
      · exact (by decide : ¬ ((0x2e : UInt8) = 0x2d ∨ (0x2e : UInt8) = 0x2b))
    | cons c int =>
      have hc := digit_facts c (hint c List.mem_cons_self)
      have hhead : f.headD 0 = c := by
        rcases hf with rfl | ⟨rfl, -⟩
        · rfl
        · rfl
      rw [hhead]
      exact not_or.mpr ⟨hc.2.1, hc.2.2.1⟩
  have htake : f.takeWhile (· != 0x2e) = int := by
    have hall : ∀ c ∈ int, (c != 0x2e) = true := fun c hc => (digit_facts c (hint c hc)).2.2.2.1
    rcases hf with rfl | ⟨rfl, -⟩
    · exact List.takeWhile_eq_self_iff.mpr hall
    · rw [List.takeWhile_append_of_pos hall, List.takeWhile_cons_of_neg (by decide), List.append_nil]
  rw [nmeaDecimalInt, if_neg hsign, htake]
  exact foldl_digits hint 0

/-! ### The payload -/

theorem snprintf_of_fits {buf : ℕ → UInt8} {off size : ℕ} {text : List UInt8} (h : text.length < size) :
    snprintf buf off size text = (Cells.write buf off (text ++ [0]), text.length) := by
  rw [snprintf, if_neg (by omega), List.take_of_length_le (by omega)]

/-- What has been printed: the text, and its length. -/
def Printed (r : (ℕ → UInt8) × UInt8) (text : List UInt8) : Prop :=
  Cells.At r.1 0 text ∧ r.2.toNat = text.length

theorem Printed.unique {r : (ℕ → UInt8) × UInt8} {a b : List UInt8} (ha : Printed r a) (hb : Printed r b) : a = b := by
  rw [← ha.1, ← hb.1, ← ha.2, ← hb.2]

/-- Printing behind what has been printed, with room for it. -/
theorem Printed.snprintf {buf : ℕ → UInt8} {len : UInt8} {a : List UInt8} (h : Printed (buf, len) a)
    (text : List UInt8) (hfit : a.length + text.length < 63) :
    Printed ((TinyAprs.snprintf buf len.toNat (63 - len.toUInt16).toNat text).1,
      len + UInt8.ofNat (TinyAprs.snprintf buf len.toNat (63 - len.toUInt16).toNat text).2) (a ++ text) := by
  obtain ⟨hat, hlen⟩ := h
  dsimp only at hat hlen
  have hroom : (63 - len.toUInt16).toNat = 63 - a.length := by
    have hle : len.toUInt16 ≤ 63 := by
      rw [UInt16.le_iff_toNat_le, UInt8.toNat_toUInt16, hlen]
      exact Nat.le_of_lt (Nat.lt_of_le_of_lt (Nat.le_add_right ..) hfit)
    rw [UInt16.toNat_sub_of_le _ _ hle, UInt8.toNat_toUInt16, hlen]
    rfl
  rw [hroom, snprintf_of_fits (by omega)]
  refine ⟨?_, ?_⟩
  · have hwrite := hat.write_append text [0]
    rwa [Nat.zero_add, ← hlen] at hwrite
  · rw [UInt8.toNat_add, UInt8.toNat_ofNat_of_lt' (show text.length < 256 by omega), hlen, List.length_append]
    exact Nat.mod_eq_of_lt (by omega)

/-- What is printed, if all of it is. -/
def payloadText (symbol : UInt8 × UInt8) (gps : Gps) (mem : ℕ → UInt8) : List UInt8 :=
  positionText symbol gps mem ++ (if gps.altitude > 0 then altitudeText gps.altitude else []) ++ rocksText

theorem length_altitudeText (altitude : UInt16) : (altitudeText altitude).length = 9 := by
  rw [altitudeText, List.length_append, length_printInt_six]
  rfl

theorem printed_trackerPayload (payload : ℕ → UInt8) {symbol : UInt8 × UInt8} {gps : Gps} {mem : ℕ → UInt8}
    (h : (positionText symbol gps mem).length = 27) :
    Printed (trackerPayload payload symbol gps mem) (payloadText symbol gps mem) := by
  have hrocks : rocksText.length = 16 := rfl
  rw [trackerPayload, payloadText]
  generalize positionText symbol gps mem = text at h
  have hpos : Printed ((snprintf payload 0 63 text).1, UInt8.ofNat (snprintf payload 0 63 text).2) text := by
    have hat := Cells.at_write (text ++ [0]) payload 0
    rw [Cells.at_append] at hat
    rw [snprintf_of_fits (by rw [h]; decide), h]
    exact ⟨hat.1, by rw [h]; rfl⟩
  by_cases halt : gps.altitude > 0
  · rw [if_pos halt, if_pos halt]
    have hboth := hpos.snprintf (altitudeText gps.altitude) (by rw [h, length_altitudeText]; decide)
    refine hboth.snprintf rocksText ?_
    rw [List.length_append, h, length_altitudeText, hrocks]
    decide
  · rw [if_neg halt, if_neg halt, List.append_nil]
    have hzero : ∀ a : UInt8, a + UInt8.ofNat 0 = a := fun a => UInt8.add_zero a
    dsimp only
    rw [hzero]
    refine hpos.snprintf rocksText ?_
    rw [h, hrocks]
    decide

/-! ### The report -/

/-- The position report of a fix. -/
def reportText (symbol : UInt8 × UInt8) (lat ns lon we : List UInt8) (course speed : ℕ) (altitude : UInt16) :
    List UInt8 :=
  [0x21] ++ lat.take 7 ++ [ns.headD 0] ++ [if symbol.1 = 0 then 0x2f else symbol.1] ++ lon.take 8 ++
    [we.headD 0] ++ [if symbol.2 = 0 then 0x3e else symbol.2] ++ fixed 3 course ++ [0x2f] ++ fixed 3 speed ++
    (if altitude > 0 then [0x2f, 0x41, 0x3d] ++ fixed 6 altitude.toNat else []) ++ rocksText

theorem termString_eq {mem : ℕ → UInt8} {ptr : ℕ} {w : List UInt8} (h : Str 0 mem ptr w) (hlen : w.length ≤ 80) :
    termString mem ptr = w := by
  exact termString_of_str h (Nat.le_trans hlen (by decide))

theorem printInt_field {f : List UInt8} {n : ℕ} (h : DecimalField f n) (hn : n < 1000) :
    printInt 3 (nmeaDecimalInt f).toInt16 = fixed 3 n := by
  have hnat : (UInt16.ofNat n).toNat = n := UInt16.toNat_ofNat_of_lt' (show n < 65536 by omega)
  calc printInt 3 (nmeaDecimalInt f).toInt16 = printInt 3 (UInt16.ofNat n).toInt16 := by rw [nmeaDecimalInt_eq h]
    _ = fixed 3 (UInt16.ofNat n).toNat := printInt_of_lt (by decide) (by omega) (by rw [hnat]; exact hn)
    _ = fixed 3 n := by rw [hnat]

/-- The fields of a fix that the report is made of. -/
structure FixFields (gps : Gps) (mem : ℕ → UInt8) (lat ns lon we : List UInt8) (course speed : ℕ) : Prop where
  lat : Str 0 mem (gps.term gprmcTermLatitude) lat ∧ 7 ≤ lat.length ∧ lat.length ≤ 80
  ns : Str 0 mem (gps.term gprmcTermLatitudeNs) ns ∧ ns ≠ []
  lon : Str 0 mem (gps.term gprmcTermLongitude) lon ∧ 8 ≤ lon.length ∧ lon.length ≤ 80
  we : Str 0 mem (gps.term gprmcTermLongitudeWe) we ∧ we ≠ []
  course : ∃ f, Str 0 mem (gps.term gprmcTermHeading) f ∧ f.length ≤ 80 ∧ DecimalField f course ∧ course < 1000
  speed : ∃ f, Str 0 mem (gps.term gprmcTermSpeed) f ∧ f.length ≤ 80 ∧ DecimalField f speed ∧ speed < 1000

section

variable {gps : Gps} {mem : ℕ → UInt8} {lat ns lon we : List UInt8} {course speed : ℕ}

theorem FixFields.positionText (h : FixFields gps mem lat ns lon we course speed) (symbol : UInt8 × UInt8) :
    positionText symbol gps mem = [0x21] ++ lat.take 7 ++ [ns.headD 0] ++ [if symbol.1 = 0 then 0x2f else symbol.1] ++
      lon.take 8 ++ [we.headD 0] ++ [if symbol.2 = 0 then 0x3e else symbol.2] ++ fixed 3 course ++ [0x2f] ++
      fixed 3 speed := by
  obtain ⟨fc, hfc, hfclen, hfcdec, hfclt⟩ := h.course
  obtain ⟨fs, hfs, hfslen, hfsdec, hfslt⟩ := h.speed
  rw [TinyAprs.positionText]
  dsimp only
  rw [termString_eq h.lat.1 h.lat.2.2, termString_eq h.lon.1 h.lon.2.2, termString_eq hfc hfclen,
    termString_eq hfs hfslen, h.ns.1.head, h.we.1.head, printInt_field hfcdec hfclt, printInt_field hfsdec hfslt]

theorem FixFields.length_positionText (h : FixFields gps mem lat ns lon we course speed) (symbol : UInt8 × UInt8) :
    (TinyAprs.positionText symbol gps mem).length = 27 := by
  rw [h.positionText]
  simp only [List.length_append, List.length_take, length_fixed, List.length_singleton, Nat.min_eq_left h.lat.2.1,
    Nat.min_eq_left h.lon.2.1]

/-- The payload is the report if and only if the altitude is positive as an
`int`. -/
theorem FixFields.report_iff (h : FixFields gps mem lat ns lon we course speed) (payload : ℕ → UInt8)
    (symbol : UInt8 × UInt8) :
    Printed (trackerPayload payload symbol gps mem) (reportText symbol lat ns lon we course speed gps.altitude) ↔
      gps.altitude < 32768 := by
  have hprinted := printed_trackerPayload payload (h.length_positionText symbol)
  have hreport : reportText symbol lat ns lon we course speed gps.altitude = TinyAprs.positionText symbol gps mem ++
      (if gps.altitude > 0 then [0x2f, 0x41, 0x3d] ++ fixed 6 gps.altitude.toNat else []) ++ rocksText := by
    rw [h.positionText, reportText]
  rw [hreport]
  constructor
  · intro hright
    by_contra hbig
    have hge : 32768 ≤ gps.altitude.toNat := by
      rw [UInt16.lt_iff_toNat_lt] at hbig
      exact Nat.le_of_not_lt hbig
    have hpos : gps.altitude > 0 := by
      rw [gt_iff_lt, UInt16.lt_iff_toNat_lt]
      exact Nat.lt_of_lt_of_le (by decide) hge
    obtain ⟨l, hl⟩ := printInt_of_ge hge 6
    have hsame := hprinted.unique hright
    rw [payloadText, if_pos hpos, if_pos hpos, altitudeText, hl] at hsame
    have halt := List.append_cancel_left (List.append_cancel_left (List.append_cancel_right hsame))
    exact fixed_six_ne _ _ halt.symm
  · intro hsmall
    have htext : payloadText symbol gps mem = TinyAprs.positionText symbol gps mem ++
        (if gps.altitude > 0 then [0x2f, 0x41, 0x3d] ++ fixed 6 gps.altitude.toNat else []) ++ rocksText := by
      rw [UInt16.lt_iff_toNat_lt] at hsmall
      rw [payloadText, altitudeText, printInt_of_lt (by decide) hsmall (Nat.lt_trans hsmall (by decide))]
    rw [← htext]
    exact hprinted

end

/-- A sentence that is accepted leaves its fields at the terms. -/
theorem strs_of_accepted {feet : (ℕ → UInt8) → ℕ → UInt16} {gps : Gps} {mem : ℕ → UInt8} {sentence len : ℕ}
    {pre rest : List UInt8} {fs : List (List UInt8)}
    (hline : Cells.slice mem sentence len = gprmcHeader ++ (pre ++ fieldsText fs ++ star :: rest))
    (hpre : comma ∉ pre ∧ star ∉ pre) (hfs : ∀ f ∈ fs, comma ∉ f ∧ star ∉ f)
    (hret : (gpsParse feet gps mem sentence len).ret = true) :
    (gpsParse feet gps mem sentence len).gps.altitude = gps.altitude ∧
      ∀ j (hj : j < fs.length), fs[j].length ≤ 80 ∧ (0 ∉ fs[j] → Str 0 (gpsParse feet gps mem sentence len).mem
        ((gpsParse feet gps mem sentence len).gps.term j) fs[j]) := by
  cases hkind : scannedAs (Cells.slice mem sentence len) with
  | none =>
    rw [gpsParse_none _ _ hkind] at hret
    exact absurd hret Bool.false_ne_true
  | some kind =>
    obtain ⟨-, hlen, hhead⟩ := scannedAs_some hkind
    obtain rfl : kind = .gprmc := by
      rw [hline, show (gprmcHeader ++ _).take 6 = gprmcHeader from rfl] at hhead
      cases kind with
      | gprmc => rfl
      | gpgga => exact absurd hhead (by decide)
    rw [gpsParse_some _ _ hkind] at hret ⊢
    refine ⟨final_altitude feet sentence _ _, fun j hj => ⟨?_, fun hfree => ?_⟩⟩
    · rw [hline, fieldsText_split fs hj] at hlen
      simp only [List.length_append, List.length_cons] at hlen
      omega
    · obtain ⟨text, rest', s, hbody, hstar, hscan, -, hold, -, hmem⟩ := scan_accepted hkind rfl (of_decide_eq_true hret)
      -- both texts end at the first `*`
      obtain rfl : text = pre ++ fieldsText fs := by
        have hfree' : star ∉ pre ++ fieldsText fs := by
          intro hc
          rcases List.mem_append.mp hc with hc | hc
          · exact hpre.2 hc
          · rcases mem_fieldsText hc with hc | ⟨f, hf, hc⟩
            · exact absurd hc (by decide)
            · exact (hfs f hf).2 hc
        have hdrop : pre ++ fieldsText fs ++ star :: rest = text ++ star :: rest' := by
          rw [← hbody, hline]
          rfl
        rw [← takeWhile_free hstar rest', ← hdrop, takeWhile_free hfree']
      have hcount : j < (pre ++ fieldsText fs).count comma := by
        rw [List.count_append, List.count_eq_zero.mpr hpre.1, count_fieldsText fun f hf => (hfs f hf).1, Nat.zero_add]
        exact hj
      dsimp only
      rw [hold j hcount]
      exact strs_of_scanned pre hscan rfl hpre.1 (fun f hf => (hfs f hf).1) hmem hj hfree

/-- The fields of the report, of a sentence that is accepted. -/
theorem fixFields_of_accepted {feet : (ℕ → UInt8) → ℕ → UInt16} {gps : Gps} {mem : ℕ → UInt8} {sentence len : ℕ}
    {pre rest : List UInt8} {fs : List (List UInt8)}
    (hline : Cells.slice mem sentence len = gprmcHeader ++ (pre ++ fieldsText fs ++ star :: rest))
    (hpre : comma ∉ pre ∧ star ∉ pre) (hfs : ∀ f ∈ fs, comma ∉ f ∧ star ∉ f) (h8 : 8 ≤ fs.length)
    (hret : (gpsParse feet gps mem sentence len).ret = true) (hlat : 7 ≤ fs[2].length ∧ 0 ∉ fs[2])
    (hns : fs[3] ≠ [] ∧ 0 ∉ fs[3]) (hlon : 8 ≤ fs[4].length ∧ 0 ∉ fs[4]) (hwe : fs[5] ≠ [] ∧ 0 ∉ fs[5])
    {speed course : ℕ} (hspeed : DecimalField fs[6] speed ∧ speed < 1000)
    (hcourse : DecimalField fs[7] course ∧ course < 1000) :
    (gpsParse feet gps mem sentence len).gps.altitude = gps.altitude ∧
      FixFields (gpsParse feet gps mem sentence len).gps (gpsParse feet gps mem sentence len).mem
        fs[2] fs[3] fs[4] fs[5] course speed := by
  obtain ⟨halt, hstrs⟩ := strs_of_accepted hline hpre hfs hret
  exact ⟨halt,
    { lat := ⟨(hstrs 2 (by omega)).2 hlat.2, hlat.1, (hstrs 2 (by omega)).1⟩
      ns := ⟨(hstrs 3 (by omega)).2 hns.2, hns.1⟩
      lon := ⟨(hstrs 4 (by omega)).2 hlon.2, hlon.1, (hstrs 4 (by omega)).1⟩
      we := ⟨(hstrs 5 (by omega)).2 hwe.2, hwe.1⟩
      course := ⟨_, (hstrs 7 (by omega)).2 hcourse.1.free, (hstrs 7 (by omega)).1, hcourse.1, hcourse.2⟩
      speed := ⟨_, (hstrs 6 (by omega)).2 hspeed.1.free, (hstrs 6 (by omega)).1, hspeed.1, hspeed.2⟩ }⟩

/-- **The position report is exact up to an altitude of 32767.** For every
`$GPRMC` sentence that is accepted, from any GPS state, whose latitude and
longitude have at least 7 and 8 characters, whose hemispheres are not empty
and whose course and speed are decimal numbers below 1000, and every symbol:
the payload is the report, its length is the one passed on, and so the beacon
is that of the report, if and only if the altitude is below 32768. -/
theorem position_report_iff (feet : (ℕ → UInt8) → ℕ → UInt16) (gps : Gps) (mem : ℕ → UInt8) (sentence len : ℕ)
    (pre rest : List UInt8) (fs : List (List UInt8))
    (hline : Cells.slice mem sentence len = gprmcHeader ++ (pre ++ fieldsText fs ++ star :: rest))
    (hpre : comma ∉ pre ∧ star ∉ pre) (hfs : ∀ f ∈ fs, comma ∉ f ∧ star ∉ f) (h8 : 8 ≤ fs.length)
    (hret : (gpsParse feet gps mem sentence len).ret = true) (hlat : 7 ≤ fs[2].length ∧ 0 ∉ fs[2])
    (hns : fs[3] ≠ [] ∧ 0 ∉ fs[3]) (hlon : 8 ≤ fs[4].length ∧ 0 ∉ fs[4]) (hwe : fs[5] ≠ [] ∧ 0 ∉ fs[5])
    (speed course : ℕ) (hspeed : DecimalField fs[6] speed ∧ speed < 1000)
    (hcourse : DecimalField fs[7] course ∧ course < 1000) (t : Tnc) (payload : ℕ → UInt8) :
    (Printed (trackerPayload payload t.settings.beacon.symbol (gpsParse feet gps mem sentence len).gps
        (gpsParse feet gps mem sentence len).mem)
        (reportText t.settings.beacon.symbol fs[2] fs[3] fs[4] fs[5] course speed gps.altitude) ∧
      trackerBeacon t payload (gpsParse feet gps mem sentence len).gps (gpsParse feet gps mem sentence len).mem =
        beaconSend t (reportText t.settings.beacon.symbol fs[2] fs[3] fs[4] fs[5] course speed gps.altitude)) ↔
      gps.altitude < 32768 := by
  obtain ⟨halt, hfields⟩ := fixFields_of_accepted hline hpre hfs h8 hret hlat hns hlon hwe hspeed hcourse
  have hiff := hfields.report_iff payload t.settings.beacon.symbol
  rw [halt] at hiff
  refine ⟨fun h => hiff.mp h.1, fun h => ⟨hiff.mpr h, ?_⟩⟩
  rw [trackerBeacon, (hiff.mpr h).2, (hiff.mpr h).1]

theorem sample_line : Cells.slice (memWith (gprmcSentence sampleFields 0x36 0x41)) 0x100 68 =
    gprmcHeader ++ ([] ++ fieldsText sampleFields ++ star :: [0x36, 0x41]) := by
  decide +kernel

/-- `022.4` and `084.4` -/
theorem sample_decimals : (DecimalField [0x30, 0x32, 0x32, 0x2e, 0x34] 22 ∧ 22 < 1000) ∧
    DecimalField [0x30, 0x38, 0x34, 0x2e, 0x34] 84 ∧ 84 < 1000 :=
  ⟨⟨⟨[0x30, 0x32, 0x32], [0x34], by decide +kernel, rfl, Or.inr ⟨rfl, by decide +kernel⟩⟩, by decide⟩,
    ⟨[0x30, 0x38, 0x34], [0x34], by decide +kernel, rfl, Or.inr ⟨rfl, by decide +kernel⟩⟩, by decide⟩

theorem position_report_iff_sample :
    trackerBeacon factoryTnc (fun _ => 0)
        (gpsParse (fun _ _ => 0) gpsInit (memWith (gprmcSentence sampleFields 0x36 0x41)) 0x100 68).gps
        (gpsParse (fun _ _ => 0) gpsInit (memWith (gprmcSentence sampleFields 0x36 0x41)) 0x100 68).mem =
      beaconSend factoryTnc (reportText factoryTnc.settings.beacon.symbol sampleFields[2] sampleFields[3]
        sampleFields[4] sampleFields[5] 84 22 0) :=
  ((position_report_iff (fun _ _ => 0) gpsInit (memWith (gprmcSentence sampleFields 0x36 0x41)) 0x100 68 []
    [0x36, 0x41] sampleFields sample_line (by decide) (by decide) (by decide) (by decide +kernel) (by decide)
    (by decide) (by decide) (by decide) 22 84 sample_decimals.1 sample_decimals.2 factoryTnc
    (fun _ => 0)).mpr (by decide)).2

def highGps : Gps := { gpsInit with altitude := 40000 }

/-- There the altitude is sent as `/A=-25536`. -/
theorem high_altitude_negative :
    (gpsParse (fun _ _ => 0) highGps (memWith (gprmcSentence sampleFields 0x36 0x41)) 0x100 68).ret = true ∧
    altitudeText highGps.altitude = [0x2f, 0x41, 0x3d, 0x2d, 0x32, 0x35, 0x35, 0x33, 0x36] ∧
    ¬ Printed (trackerPayload (fun _ => 0) factoryTnc.settings.beacon.symbol
        (gpsParse (fun _ _ => 0) highGps (memWith (gprmcSentence sampleFields 0x36 0x41)) 0x100 68).gps
        (gpsParse (fun _ _ => 0) highGps (memWith (gprmcSentence sampleFields 0x36 0x41)) 0x100 68).mem)
      (reportText factoryTnc.settings.beacon.symbol sampleFields[2] sampleFields[3] sampleFields[4] sampleFields[5]
        84 22 highGps.altitude) := by
  have hret : (gpsParse (fun _ _ => 0) highGps (memWith (gprmcSentence sampleFields 0x36 0x41)) 0x100 68).ret =
      true := by
    decide +kernel
  obtain ⟨halt, hfields⟩ := fixFields_of_accepted sample_line (by decide) (by decide) (by decide) hret (by decide)
    (by decide) (by decide) (by decide) sample_decimals.1 sample_decimals.2
  refine ⟨hret, by decide +kernel, fun hprinted => ?_⟩
  rw [← halt] at hprinted
  have hlow := (hfields.report_iff (fun _ => 0) factoryTnc.settings.beacon.symbol).mp hprinted
  rw [halt] at hlow
  exact absurd hlow (by decide)

end TinyAprs
