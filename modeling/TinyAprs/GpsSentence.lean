/-
# Sentences of both types

What `gps_parse` makes of a line, by what the line is. A well-formed sentence
of either type is taken up to its checksum, with its fields at the terms
(`NmeaSentence.scanned`): of a `$GPRMC` sentence the status decides
(`NmeaSentence.rmc`), and a `$GPGGA` sentence with a fix sets the altitude, by
the string of its field (`NmeaSentence.gga`). A line in which no checksum is
found correct leaves the altitude and is not accepted, whatever else it is
(`gpsParse_uncancelled`).
-/
import TinyAprs.Console
import TinyAprs.GpsFields

namespace TinyAprs

open Mealy Terminated

/-- The fields that are read of a sentence, counted from the first. -/
def SentenceType.fieldsRead : SentenceType → ℕ
  | .gprmc => 8
  | .gpgga => 9

/-- `$GPRMC` or `$GPGGA`, with its fields and two digits behind a `*`. -/
def sentenceText (kind : SentenceType) (fs : List (List UInt8)) (h l : UInt8) : List UInt8 :=
  kind.header ++ (fieldsText fs ++ [star, h, l])

/-- A well-formed sentence: it has the fields that are read, and its digits are
the XOR of what stands between `$` and `*`. -/
structure NmeaSentence (kind : SentenceType) where
  fields : List (List UInt8)
  high : UInt8
  low : UInt8
  length : (sentenceText kind fields high low).length ≤ 80
  count : kind.fieldsRead ≤ fields.length ∧ fields.length ≤ 14
  chars : ∀ f ∈ fields, ∀ c ∈ f, FieldChar c
  digits : isHexDigit high = true ∧ isHexDigit low = true
  sum : 16 * hexValue high + hexValue low = (xorOf (kind.header.drop 1 ++ fieldsText fields)).toNat

variable {feet : (ℕ → UInt8) → ℕ → UInt16} {kind : SentenceType} {gps : Gps} {mem : ℕ → UInt8} {buf : ℕ}

def NmeaSentence.text (x : NmeaSentence kind) : List UInt8 := sentenceText kind x.fields x.high x.low

theorem length_header (kind : SentenceType) : kind.header.length = 6 := by
  cases kind with
  | gprmc => rfl
  | gpgga => rfl

theorem NmeaSentence.length_text (x : NmeaSentence kind) : x.text.length = 6 + (fieldsText x.fields).length + 3 := by
  rw [NmeaSentence.text, sentenceText, List.length_append, List.length_append, length_header, ← Nat.add_assoc]
  rfl

theorem NmeaSentence.fields_pos (x : NmeaSentence kind) : 0 < x.fields.length := by
  have hread : 0 < kind.fieldsRead := by
    cases kind with
    | gprmc => decide
    | gpgga => decide
  exact Nat.lt_of_lt_of_le hread x.count.1

theorem NmeaSentence.length_field (x : NmeaSentence kind) {j : ℕ} (hj : j < x.fields.length) :
    (x.fields[j]).length ≤ 80 := by
  have hlen : x.text.length ≤ 80 := x.length
  rw [x.length_text, fieldsText_split x.fields hj] at hlen
  simp only [List.length_append, List.length_cons] at hlen
  omega

theorem NmeaSentence.scannedAs (x : NmeaSentence kind) : scannedAs x.text = some kind := by
  have hlen : x.text.length ≤ 80 := x.length
  have hrange : ¬ (x.text.length ≤ minSentencenChars ∨ x.text.length > maxSentencenChars) := by
    have hcount := x.length_text
    rw [show minSentencenChars = 7 from rfl, show maxSentencenChars = 80 from rfl]
    omega
  have htake : x.text.take 6 = kind.header := List.take_left' (length_header kind)
  rw [TinyAprs.scannedAs, if_neg hrange, htake]
  cases kind with
  | gprmc => rfl
  | gpgga => rfl

theorem NmeaSentence.no_line_end (x : NmeaSentence kind) : ∀ c ∈ x.text, c ≠ 0x0d ∧ c ≠ 0x0a := by
  have hheader : ∀ c ∈ kind.header, c ≠ 0x0d ∧ c ≠ 0x0a := by
    cases kind with
    | gprmc => decide +kernel
    | gpgga => decide +kernel
  have hdigit : ∀ c : UInt8, isHexDigit c = true → c ≠ 0x0d ∧ c ≠ 0x0a := by decide +kernel
  intro c hc
  rcases List.mem_append.mp hc with hc | hc
  · exact hheader c hc
  · rcases List.mem_append.mp hc with hc | hc
    · rcases mem_fieldsText hc with rfl | ⟨f, hf, hc⟩
      · decide
      · exact ⟨(x.chars f hf c hc).2.2.2.1, (x.chars f hf c hc).2.2.2.2.1⟩
    · simp only [List.mem_cons, List.not_mem_nil, or_false] at hc
      rcases hc with rfl | rfl | rfl
      · decide
      · exact hdigit _ x.digits.1
      · exact hdigit _ x.digits.2

/-! ### What the loop makes of it -/

/-- Behind the sentence, with its checksum found correct. -/
structure SentenceScanned (x : NmeaSentence kind) (gps : Gps) (t : Scan) : Prop where
  ret : t.ret = none
  altitude : t.gps.altitude = gps.altitude
  /-- The term of each field is the field. -/
  strs : ∀ j (hj : j < x.fields.length), Str 0 t.mem (t.gps.term j) x.fields[j]
  first : t.gps.term 0 ≠ 0

theorem NmeaSentence.sum_lt (x : NmeaSentence kind) : xorOf (kind.header.drop 1 ++ fieldsText x.fields) < 128 := by
  have hheader : ∀ c ∈ kind.header.drop 1, c < 128 := by
    cases kind with
    | gprmc => decide +kernel
    | gpgga => decide +kernel
  refine xorOf_lt fun c hc => ?_
  rcases List.mem_append.mp hc with hc | hc
  · exact hheader c hc
  · rcases mem_fieldsText hc with rfl | ⟨f, hf, hc⟩
    · decide
    · exact (x.chars f hf c hc).1

/-- The digits leave nothing of the parity behind the text. -/
theorem NmeaSentence.parity (x : NmeaSentence kind) :
    remainder (parityOf kind.parityInitial (fieldsText x.fields)) x.high x.low = 0 := by
  rw [parity_header]
  exact (remainder_eq_zero x.sum_lt x.digits.1 x.digits.2).mpr x.sum

/-- The terms of the fields, behind the text and the first digit. -/
theorem NmeaSentence.strs (x : NmeaSentence kind) {s : Scan}
    (hscan : TextScanned buf 6 (fieldsText x.fields) (.start gps mem kind) s) {j : ℕ} (hj : j < x.fields.length) :
    Str 0 (s.half buf (6 + (fieldsText x.fields).length) x.high).mem
      ((s.half buf (6 + (fieldsText x.fields).length) x.high).gps.term j) x.fields[j] := by
  have hfree : ∀ f ∈ x.fields, comma ∉ f := comma_free x.chars
  have hcells : Cells.At (s.half buf (6 + (fieldsText x.fields).length) x.high).mem (buf + 6)
      ((fieldsText x.fields).map cut ++ [0]) := by
    have hsnoc := hscan.cells.snoc 0
    rw [List.length_map, Nat.add_assoc] at hsnoc
    exact hsnoc
  have hterms : s.terms = x.fields.length := terms_of_fields hscan rfl hfree
  have hterm : (s.half buf (6 + (fieldsText x.fields).length) x.high).gps.term j = s.gps.term j :=
    Function.update_of_ne (show j ≠ s.terms by omega) ..
  rw [hterm]
  apply strs_of_scanned [] hscan rfl List.not_mem_nil hfree hcells hj
  intro hc
  exact (x.chars _ (List.getElem_mem hj) 0 hc).2.2.2.2.2 rfl

theorem NmeaSentence.first (x : NmeaSentence kind) {s : Scan}
    (hscan : TextScanned buf 6 (fieldsText x.fields) (.start gps mem kind) s) : s.gps.term 0 ≠ 0 := by
  obtain ⟨f, fs, hfs⟩ := List.exists_cons_of_length_pos x.fields_pos
  have hterm := hscan.term 0 (by rw [hfs, fieldsText_cons]; rfl)
  have hzero : (Scan.start gps mem kind).terms + ((fieldsText x.fields).take 0).count comma = 0 := by
    rw [List.take_zero]
    rfl
  rw [hzero] at hterm
  rw [hterm]
  exact Nat.succ_ne_zero _

/-- A sentence is taken to its checksum, which is found correct. -/
theorem NmeaSentence.scanned (feet : (ℕ → UInt8) → ℕ → UInt16) (gps : Gps) (x : NmeaSentence kind)
    (hmem : Cells.At mem buf x.text) : ∃ t sets, SentenceScanned x gps t ∧
      gpsParse feet gps mem buf x.text.length = ⟨(scanCorrect feet kind t).gps, (scanCorrect feet kind t).mem,
        (scanCorrect feet kind t).ret = some true, sets⟩ := by
  have hkind : TinyAprs.scannedAs (Cells.slice mem buf x.text.length) = some kind := by
    rw [show Cells.slice mem buf _ = _ from hmem]
    exact x.scannedAs
  obtain ⟨htext, hgroup⟩ := (Cells.at_append ..).mp ((Cells.at_append ..).mp hmem).2
  rw [length_header] at htext hgroup
  have hscan := (scan_text feet kind (fieldsText x.fields) 6 (.start gps mem kind) rfl rfl
    (star_not_mem_fieldsText x.chars) htext).resolve_left fun hstop => hstop.2 (passes_fieldsText x.chars x.count.2)
  have hsplit : List.range' 6 (x.text.length - 6) =
      List.range' 6 (fieldsText x.fields).length ++ [6 + (fieldsText x.fields).length,
        6 + (fieldsText x.fields).length + 1, 6 + (fieldsText x.fields).length + 1 + 1] := by
    rw [x.length_text, show 6 + (fieldsText x.fields).length + 3 - 6 = (fieldsText x.fields).length + 3 by omega,
      ← List.range'_append_1]
    rfl
  have hparse := gpsParse_some feet gps hkind
  rw [hsplit, final_append] at hparse
  generalize final (gpsStep feet kind buf) (.start gps mem kind) (List.range' 6 (fieldsText x.fields).length) = s
    at hscan hparse
  have hmax : s.terms + 1 < maxTerms := by
    have hcount := x.count.2
    rw [terms_of_fields hscan rfl (comma_free x.chars), show maxTerms = 16 from rfl]
    omega
  have hgroup' : Cells.At s.mem (buf + (6 + (fieldsText x.fields).length)) [star, x.high, x.low] := by
    rw [← Nat.add_assoc]
    exact hgroup.congr fun k _ => hscan.frame _ (Or.inr (Nat.le_add_right ..))
  rw [scan_group hscan.ret hscan.state hgroup' hmax (scanEnds_hexDigit x.digits.1 (Nat.lt_of_succ_lt hmax))
    (scanEnds_hexDigit x.digits.2 hmax)] at hparse
  have hparity : s.parity = parityOf kind.parityInitial (fieldsText x.fields) := hscan.parity
  have hzero : (s.half buf (6 + (fieldsText x.fields).length) x.high).parity - nmeaDehex x.low = 0 := by
    rw [← x.parity, ← hparity]
    rfl
  have hterm : (s.half buf (6 + (fieldsText x.fields).length) x.high).gps.term 0 = s.gps.term 0 := by
    have hpos := x.fields_pos
    rw [← terms_of_fields hscan rfl (comma_free x.chars)] at hpos
    exact Function.update_of_ne (Nat.ne_of_lt hpos) ..
  rw [scanLsb_right hzero] at hparse
  refine ⟨{ s.half buf (6 + (fieldsText x.fields).length) x.high with
    state := .text, parity := (s.half buf (6 + (fieldsText x.fields).length) x.high).parity - nmeaDehex x.low }, _,
    ⟨hscan.ret, hscan.altitude, fun j hj => x.strs hscan hj, ?_⟩, hparse⟩
  show (s.half buf (6 + (fieldsText x.fields).length) x.high).gps.term 0 ≠ 0
  rw [hterm]
  exact x.first hscan

/-! ### By its type -/

/-- What is left by a sentence that has been taken. -/
structure FieldsAt (x : NmeaSentence kind) (q : Parsed) : Prop where
  strs : ∀ j (hj : j < x.fields.length), Str 0 q.mem (q.gps.term j) x.fields[j]
  first : q.gps.term 0 ≠ 0

/-- A `$GPRMC` sentence is accepted if its status is `A`, with its fields at the
terms. -/
theorem NmeaSentence.rmc (feet : (ℕ → UInt8) → ℕ → UInt16) (gps : Gps) (x : NmeaSentence .gprmc)
    (hmem : Cells.At mem buf x.text) : ∃ q, gpsParse feet gps mem buf x.text.length = q ∧ FieldsAt x q ∧
      q.gps.altitude = gps.altitude ∧ q.gps.valid = q.ret ∧
      q.ret = ((x.fields.getD gprmcTermStatus []).head? == some 0x41) := by
  obtain ⟨t, sets, ht, hparse⟩ := x.scanned feet gps hmem
  obtain ⟨hgps, hsmem, hret⟩ := scanCorrect_gprmc feet t
  have hcount : 1 < x.fields.length := Nat.lt_of_lt_of_le (by decide) x.count.1
  have hhead : (t.mem (t.gps.term gprmcTermStatus) == 0x41) =
      ((x.fields.getD gprmcTermStatus []).head? == some 0x41) := by
    rw [show gprmcTermStatus = 1 from rfl, (ht.strs 1 hcount).head, List.getD_eq_getElem _ _ hcount]
    cases x.fields[1] with
    | nil => rfl
    | cons c f => rfl
  have hdec : decide ((scanCorrect feet .gprmc t).ret = some true) = (t.mem (t.gps.term gprmcTermStatus) == 0x41) := by
    rw [Bool.eq_iff_iff, decide_eq_true_iff, hret ht.ret]
  rw [hgps, hsmem, hdec] at hparse
  exact ⟨_, hparse, ⟨ht.strs, ht.first⟩, ht.altitude, rfl, hhead⟩

/-- The altitude, by its string. -/
def feetOfTerm (feetOf : List UInt8 → UInt16) (mem : ℕ → UInt8) (ptr : ℕ) : UInt16 := feetOf (termString mem ptr)

/-- A `$GPGGA` sentence is not accepted. With a fix it sets the altitude. -/
theorem NmeaSentence.gga (feetOf : List UInt8 → UInt16) (gps : Gps) (x : NmeaSentence .gpgga)
    (hmem : Cells.At mem buf x.text) : ∃ q, gpsParse (feetOfTerm feetOf) gps mem buf x.text.length = q ∧
      q.ret = false ∧ q.gps.altitude = if (x.fields.getD gpggaTermFixquality []).head? = some 0x30 then gps.altitude
        else feetOf (x.fields.getD gpggaTermAltitude []) := by
  obtain ⟨t, sets, ht, hparse⟩ := x.scanned (feetOfTerm feetOf) gps hmem
  have hcount : 8 < x.fields.length := Nat.lt_of_lt_of_le (by decide) x.count.1
  have hhead : (t.mem (t.gps.term gpggaTermFixquality) != 0x30) =
      !((x.fields.getD gpggaTermFixquality []).head? == some 0x30) := by
    have h5 : 5 < x.fields.length := Nat.lt_trans (by decide) hcount
    rw [show gpggaTermFixquality = 5 from rfl, (ht.strs 5 h5).head, List.getD_eq_getElem _ _ h5]
    cases x.fields[5] with
    | nil => rfl
    | cons c f => rfl
  have hfeet : feetOfTerm feetOf t.mem (t.gps.term gpggaTermAltitude) =
      feetOf (x.fields.getD gpggaTermAltitude []) := by
    rw [feetOfTerm, show gpggaTermAltitude = 8 from rfl, List.getD_eq_getElem _ _ hcount,
      termString_of_str (ht.strs 8 hcount) (Nat.le_trans (x.length_field hcount) (by decide))]
  refine ⟨_, hparse, ?_⟩
  by_cases hq : (x.fields.getD gpggaTermFixquality []).head? = some 0x30
  · rw [if_pos hq]
    have hvalid : termValid .gpgga t = false := by
      rw [termValid, hhead, hq]
      rfl
    simp [scanCorrect, hvalid, ht.ret, ht.altitude]
  · rw [if_neg hq]
    have hvalid : termValid .gpgga t = true := by
      rw [termValid, hhead, beq_eq_false_iff_ne.mpr hq]
      rfl
    simp [scanCorrect, hvalid, hfeet]

/-- A line in which no checksum is found correct is not accepted, and leaves
the altitude. -/
theorem gpsParse_uncancelled (feet : (ℕ → UInt8) → ℕ → UInt16) (gps : Gps) {line : List UInt8}
    (hmem : Cells.At mem buf line) (h : cancelled line = false) :
    ∃ q, gpsParse feet gps mem buf line.length = q ∧ q.ret = false ∧ q.gps.altitude = gps.altitude := by
  have hline : Cells.slice mem buf line.length = line := hmem
  cases hkind : scannedAs (Cells.slice mem buf line.length) with
  | none => exact ⟨_, gpsParse_none feet gps hkind, rfl, rfl⟩
  | some kind =>
    have hbody := at_drop hkind
    have hhits := hits_eq feet kind kind.parityInitial 0 ((Cells.slice mem buf line.length).drop 6) 6
      (.start gps mem kind) rfl rfl rfl rfl hbody
    rw [hline] at hkind
    rw [cancelled, hkind, Option.any_some] at h
    rw [List.length_drop, Cells.length_slice, hline, h] at hhits
    obtain ⟨-, halt, hret⟩ := final_quiet _ _ hhits
    rw [← hline] at hkind
    refine ⟨_, gpsParse_some feet gps hkind, ?_, halt⟩
    exact decide_eq_false fun htrue => absurd (hret htrue) (by simp [Scan.start])

end TinyAprs
