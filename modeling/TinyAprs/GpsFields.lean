/-
# The fields of a sentence

Each field of a sentence stands behind a comma, and its term points there
(`strs_of_scanned`): so a well-formed sentence is parsed into its fields
(`gprmc_parsed`). The number of fields is not checked, and the checksum takes
a term too. Of a sentence that is accepted, the first eight terms are its own
fields exactly when it has eight of them before its first `*`
(`accepted_terms_iff`).
-/
import Mathlib.Data.FinEnum
import TinyAprs.GpsSum
import TinyAprs.Lib.Terminated

namespace TinyAprs

open Mealy Terminated

variable {feet : (ℕ → UInt8) → ℕ → UInt16} {kind : SentenceType} {sentence : ℕ} {s s' : Scan}

/-! ### Fields in a text -/

/-- Fields, each behind its comma. -/
def fieldsText (fs : List (List UInt8)) : List UInt8 := fs.flatMap (comma :: ·)

theorem fieldsText_append (fs gs : List (List UInt8)) : fieldsText (fs ++ gs) = fieldsText fs ++ fieldsText gs :=
  List.flatMap_append

theorem fieldsText_cons (f : List UInt8) (fs : List (List UInt8)) :
    fieldsText (f :: fs) = comma :: (f ++ fieldsText fs) := rfl

theorem count_fieldsText {fs : List (List UInt8)} (h : ∀ f ∈ fs, comma ∉ f) :
    (fieldsText fs).count comma = fs.length := by
  induction fs with
  | nil => rfl
  | cons f fs ih =>
    rw [fieldsText_cons, List.count_cons_self, List.count_append, List.count_eq_zero.mpr (h f List.mem_cons_self),
      ih fun g hg => h g (List.mem_cons_of_mem _ hg), Nat.zero_add, List.length_cons]

theorem fieldsText_split (fs : List (List UInt8)) {j : ℕ} (hj : j < fs.length) :
    fieldsText fs = fieldsText (fs.take j) ++ comma :: (fs[j] ++ fieldsText (fs.drop (j + 1))) := by
  conv_lhs => rw [← List.take_append_drop j fs, List.drop_eq_getElem_cons hj]
  rw [fieldsText_append, fieldsText_cons]

theorem map_cut_of_free {f : List UInt8} (h : comma ∉ f) : f.map cut = f := by
  refine (List.map_congr_left fun c hc => ?_).trans (List.map_id f)
  refine if_neg ?_
  rintro rfl
  exact h hc

theorem map_cut_fields (fs : List (List UInt8)) : ∃ l, (fieldsText fs).map cut ++ [0] = 0 :: l := by
  cases fs with
  | nil => exact ⟨[], rfl⟩
  | cons f fs => exact ⟨_, rfl⟩

theorem terms_of_fields {n : ℕ} {fs : List (List UInt8)} (h : TextScanned sentence n (fieldsText fs) s s')
    (h0 : s.terms = 0) (hfs : ∀ f ∈ fs, comma ∉ f) : s'.terms = fs.length := by
  rw [h.terms, h0, Nat.zero_add, count_fieldsText hfs]

/-- Behind the head `pre`, the term of each field is the field. -/
theorem strs_of_scanned {n : ℕ} (pre : List UInt8) {fs : List (List UInt8)}
    (h : TextScanned sentence n (pre ++ fieldsText fs) s s') (h0 : s.terms = 0) (hpre : comma ∉ pre)
    (hfs : ∀ f ∈ fs, comma ∉ f) {mem : ℕ → UInt8}
    (hmem : Cells.At mem (sentence + n) ((pre ++ fieldsText fs).map cut ++ [0])) {j : ℕ} (hj : j < fs.length)
    (hfree : 0 ∉ fs[j]) : Str 0 mem (s'.gps.term j) fs[j] := by
  have hsplit : pre ++ fieldsText fs =
      (pre ++ fieldsText (fs.take j)) ++ comma :: (fs[j] ++ fieldsText (fs.drop (j + 1))) := by
    rw [fieldsText_split fs hj, List.append_assoc]
  -- the field's comma, which has `j` commas before it
  have hcount : (pre ++ fieldsText (fs.take j)).count comma = j := by
    rw [List.count_append, List.count_eq_zero.mpr hpre, Nat.zero_add,
      count_fieldsText fun f hf => hfs f (List.mem_of_mem_take hf), List.length_take_of_le (Nat.le_of_lt hj)]
  have hterm := h.term (pre ++ fieldsText (fs.take j)).length (by rw [hsplit]; simp)
  rw [hsplit, List.take_left, hcount, h0, Nat.zero_add] at hterm
  refine ⟨?_, hfree⟩
  obtain ⟨l, hl⟩ := map_cut_fields (fs.drop (j + 1))
  have hcells : (pre ++ fieldsText fs).map cut ++ [0] =
      ((pre ++ fieldsText (fs.take j)).map cut ++ [0]) ++ ((fs[j] ++ [0]) ++ l) := by
    have hfield : fs[j].map cut = fs[j] := map_cut_of_free (hfs _ (List.getElem_mem hj))
    rw [hsplit]
    simp only [List.map_append, List.map_cons, hfield, List.append_assoc, List.cons_append, List.nil_append, hl]
    rfl
  rw [hcells] at hmem
  have hat := ((Cells.at_append ..).mp ((Cells.at_append ..).mp hmem).2).1
  rw [List.length_append, List.length_map, List.length_singleton, ← Nat.add_assoc] at hat
  rw [hterm]
  exact hat

/-! ### The parity -/

theorem charInt_xor (a b : UInt8) : charInt (a ^^^ b) = charInt a ^^^ charInt b := by
  simp [charInt]

theorem parityOf_charInt (x : UInt8) (cs : List UInt8) : parityOf (charInt x) cs = charInt (cs.foldl (· ^^^ ·) x) := by
  induction cs generalizing x with
  | nil => rfl
  | cons c cs ih =>
    rw [List.foldl_cons, ← ih, charInt_xor]
    rfl

/-- The parity is the XOR of what stands behind the `$`. -/
theorem parity_header (kind : SentenceType) (text : List UInt8) :
    parityOf kind.parityInitial text = charInt (xorOf (kind.header.drop 1 ++ text)) := by
  have hinit : kind.parityInitial = charInt (xorOf (kind.header.drop 1)) := by
    cases kind with
    | gprmc => decide
    | gpgga => decide
  rw [hinit, parityOf_charInt, xorOf, xorOf, List.foldl_append]

theorem nmeaDehex_hexDigit : ∀ c : UInt8, isHexDigit c = true →
    nmeaDehex c = Int16.ofNat (hexValue c) ∧ hexValue c < 16 := by
  decide +kernel

theorem charInt_ascii : ∀ c : UInt8, c < 128 → charInt c = Int16.ofNat c.toNat := by decide +kernel

/-- Of an ASCII character, hexadecimal digits leave nothing when they are its
value. -/
theorem remainder_eq_zero {x h l : UInt8} (hx : x < 128) (hh : isHexDigit h = true) (hl : isHexDigit l = true) :
    remainder (charInt x) h l = 0 ↔ 16 * hexValue h + hexValue l = x.toNat := by
  obtain ⟨hh, hhlt⟩ := nmeaDehex_hexDigit h hh
  obtain ⟨hl, hllt⟩ := nmeaDehex_hexDigit l hl
  have hxlt := x.toNat_lt
  have hval : 16 * Int16.ofNat (hexValue h) + Int16.ofNat (hexValue l) =
      Int16.ofNat (16 * hexValue h + hexValue l) := by
    rw [Int16.ofNat_add, Int16.ofNat_mul]
    rfl
  have hzero : remainder (charInt x) h l = 0 ↔
      Int16.ofNat x.toNat = Int16.ofNat (16 * hexValue h + hexValue l) := by
    rw [remainder, charInt_ascii x hx, hh, hl, ← hval]
    grind
  rw [hzero]
  constructor
  · intro heq
    have hint := congrArg Int16.toInt heq
    rw [Int16.toInt_ofNat_of_lt (by omega), Int16.toInt_ofNat_of_lt (by omega)] at hint
    omega
  · intro heq
    rw [heq]

theorem xorOf_lt {cs : List UInt8} (h : ∀ c ∈ cs, c < 128) : xorOf cs < 128 := by
  have hxor : ∀ a b : UInt8, a < 128 → b < 128 → a ^^^ b < 128 := by
    intro a b ha hb
    rw [UInt8.lt_iff_toNat_lt] at *
    rw [UInt8.toNat_xor]
    exact Nat.xor_lt_two_pow (n := 7) ha hb
  rw [xorOf]
  exact List.foldlRecOn cs _ (by decide) fun a ha c hc => hxor a c ha (h c hc)

/-! ### A well-formed sentence -/

/-- `$GPRMC,f0,...,f(k-1)*HL` -/
def gprmcSentence (fs : List (List UInt8)) (h l : UInt8) : List UInt8 :=
  gprmcHeader ++ (fieldsText fs ++ [star, h, l])

/-- The characters between `$` and `*`. -/
def gprmcSummed (fs : List (List UInt8)) : List UInt8 := gprmcHeader.drop 1 ++ fieldsText fs

/-- ASCII without the comma, the `*`, line ends and NUL. -/
def FieldChar (c : UInt8) : Prop := c < 128 ∧ c ≠ comma ∧ c ≠ star ∧ c ≠ 0x0d ∧ c ≠ 0x0a ∧ c ≠ 0

instance (c : UInt8) : Decidable (FieldChar c) := inferInstanceAs (Decidable (_ ∧ _))

theorem mem_fieldsText {fs : List (List UInt8)} {c : UInt8} (h : c ∈ fieldsText fs) : c = comma ∨ ∃ f ∈ fs, c ∈ f := by
  obtain ⟨f, hf, hc⟩ := List.mem_flatMap.mp h
  rcases List.mem_cons.mp hc with rfl | hc
  · exact Or.inl rfl
  · exact Or.inr ⟨f, hf, hc⟩

section

variable {fs : List (List UInt8)} (hfs : ∀ f ∈ fs, ∀ c ∈ f, FieldChar c)

include hfs

theorem comma_free : ∀ f ∈ fs, comma ∉ f := fun f hf hc => (hfs f hf comma hc).2.1 rfl

theorem star_not_mem_fieldsText : star ∉ fieldsText fs := by
  intro hc
  rcases mem_fieldsText hc with h | ⟨f, hf, hc⟩
  · exact absurd h (by decide)
  · exact (hfs f hf _ hc).2.2.1 rfl

theorem passes_fieldsText (h14 : fs.length ≤ 14) : Passes 0 (fieldsText fs) := by
  refine ⟨fun c hc => ?_, ?_⟩
  · rcases mem_fieldsText hc with rfl | ⟨f, hf, hc⟩
    · decide
    · exact ⟨(hfs f hf c hc).2.2.2.2.1, (hfs f hf c hc).2.2.2.1⟩
  · rw [count_fieldsText (comma_free hfs), show maxTerms = 16 from rfl]
    omega

theorem xorOf_gprmc_lt : xorOf (gprmcSummed fs) < 128 := by
  refine xorOf_lt fun c hc => ?_
  rcases List.mem_append.mp hc with hc | hc
  · have hhead : ∀ c ∈ gprmcHeader.drop 1, c < 128 := by decide +kernel
    exact hhead c hc
  · rcases mem_fieldsText hc with rfl | ⟨f, hf, hc⟩
    · decide
    · exact (hfs f hf c hc).1

end

theorem length_gprmcSentence (fs : List (List UInt8)) (h l : UInt8) :
    (gprmcSentence fs h l).length = 6 + (fieldsText fs).length + 3 := by
  rw [gprmcSentence, List.length_append, List.length_append, ← Nat.add_assoc]
  rfl

theorem scannedAs_gprmc {fs : List (List UInt8)} {h l : UInt8} (hlen : (gprmcSentence fs h l).length ≤ 80) :
    scannedAs (gprmcSentence fs h l) = some .gprmc := by
  have hrange : ¬ ((gprmcSentence fs h l).length ≤ minSentencenChars ∨
      (gprmcSentence fs h l).length > maxSentencenChars) := by
    rw [length_gprmcSentence, show minSentencenChars = 7 from rfl, show maxSentencenChars = 80 from rfl] at *
    omega
  rw [scannedAs, if_neg hrange]
  exact if_pos rfl

theorem scanEnds_hexDigit {c : UInt8} (hc : isHexDigit c = true) {terms : ℕ} (hterms : terms < maxTerms) :
    scanEnds c terms = false := by
  have hline : ∀ c : UInt8, isHexDigit c = true → (c == 0x0a || c == 0x0d) = false := by decide +kernel
  rw [scanEnds, hline c hc, Bool.false_or, beq_eq_false_iff_ne]
  exact Nat.ne_of_lt hterms

/-- The loop over a well-formed sentence takes its text, and then its
checksum. -/
theorem scan_gprmc (feet : (ℕ → UInt8) → ℕ → UInt16) (gps : Gps) {mem : ℕ → UInt8} {fs : List (List UInt8)}
    {h l : UInt8} (hmem : Cells.At mem sentence (gprmcSentence fs h l)) (hlen : (gprmcSentence fs h l).length ≤ 80)
    (h14 : fs.length ≤ 14) (hfs : ∀ f ∈ fs, ∀ c ∈ f, FieldChar c) (hh : isHexDigit h = true)
    (hl : isHexDigit l = true) : ∃ s s' sets,
      TextScanned sentence 6 (fieldsText fs) (.start gps mem .gprmc) s ∧
      s' = scanLsb feet .gprmc l (s.half sentence (6 + (fieldsText fs).length) h) ∧
      gpsParse feet gps mem sentence (gprmcSentence fs h l).length = ⟨s'.gps, s'.mem, s'.ret = some true, sets⟩ := by
  have hkind : scannedAs (Cells.slice mem sentence (gprmcSentence fs h l).length) = some .gprmc := by
    rw [show Cells.slice mem sentence _ = _ from hmem]
    exact scannedAs_gprmc hlen
  obtain ⟨htext, hgroup⟩ := (Cells.at_append ..).mp ((Cells.at_append ..).mp hmem).2
  have hscan := (scan_text feet .gprmc (fieldsText fs) 6 (.start gps mem .gprmc) rfl rfl
    (star_not_mem_fieldsText hfs) htext).resolve_left fun hstop => hstop.2 (passes_fieldsText hfs h14)
  have hsplit : List.range' 6 ((gprmcSentence fs h l).length - 6) =
      List.range' 6 (fieldsText fs).length ++ [6 + (fieldsText fs).length, 6 + (fieldsText fs).length + 1,
        6 + (fieldsText fs).length + 1 + 1] := by
    rw [length_gprmcSentence, show 6 + (fieldsText fs).length + 3 - 6 = (fieldsText fs).length + 3 by omega,
      ← List.range'_append_1]
    rfl
  have hparse := gpsParse_some feet gps hkind
  rw [hsplit, final_append] at hparse
  generalize final (gpsStep feet .gprmc sentence) (.start gps mem .gprmc) (List.range' 6 (fieldsText fs).length) = s
    at hscan hparse
  have hterms : s.terms = fs.length := terms_of_fields hscan rfl (comma_free hfs)
  have hmax : s.terms + 1 < maxTerms := by
    rw [hterms, show maxTerms = 16 from rfl]
    omega
  have hgroup' : Cells.At s.mem (sentence + (6 + (fieldsText fs).length)) [star, h, l] := by
    rw [← Nat.add_assoc]
    exact hgroup.congr fun k _ => hscan.frame _ (Or.inr (Nat.le_add_right ..))
  rw [scan_group hscan.ret hscan.state hgroup' hmax (scanEnds_hexDigit hh (Nat.lt_of_succ_lt hmax))
    (scanEnds_hexDigit hl hmax)] at hparse
  exact ⟨s, _, _, hscan, rfl, hparse⟩

section

variable {gps : Gps} {mem : ℕ → UInt8} {fs : List (List UInt8)} (hfs : ∀ f ∈ fs, ∀ c ∈ f, FieldChar c)
  (hscan : TextScanned sentence 6 (fieldsText fs) (.start gps mem .gprmc) s)

include hfs hscan

/-- Behind the text, the checksum is found correct when it is. -/
theorem half_eq_zero_iff {h l : UInt8} (hh : isHexDigit h = true) (hl : isHexDigit l = true) :
    (s.half sentence (6 + (fieldsText fs).length) h).parity - nmeaDehex l = 0 ↔
      16 * hexValue h + hexValue l = (xorOf (gprmcSummed fs)).toNat := by
  have hparity : s.parity = charInt (xorOf (gprmcSummed fs)) :=
    hscan.parity.trans (parity_header .gprmc (fieldsText fs))
  rw [← remainder_eq_zero (xorOf_gprmc_lt hfs) hh hl, ← hparity]
  rfl

/-- Behind the text, the term of each field is the field: the checksum has taken
the term behind them. -/
theorem strs_of_half (h : UInt8) {j : ℕ} (hj : j < fs.length) :
    Str 0 (s.half sentence (6 + (fieldsText fs).length) h).mem
      ((s.half sentence (6 + (fieldsText fs).length) h).gps.term j) fs[j] := by
  have hcells : Cells.At (s.half sentence (6 + (fieldsText fs).length) h).mem (sentence + 6)
      ((fieldsText fs).map cut ++ [0]) := by
    have hsnoc := hscan.cells.snoc 0
    rw [List.length_map, Nat.add_assoc] at hsnoc
    exact hsnoc
  have hterms : s.terms = fs.length := terms_of_fields hscan rfl (comma_free hfs)
  have hterm : (s.half sentence (6 + (fieldsText fs).length) h).gps.term j = s.gps.term j :=
    Function.update_of_ne (show j ≠ s.terms by omega) ..
  rw [hterm]
  apply strs_of_scanned [] hscan rfl List.not_mem_nil (comma_free hfs) hcells hj
  intro hc
  exact (hfs _ (List.getElem_mem hj) 0 hc).2.2.2.2.2 rfl

end

/-- **A well-formed `$GPRMC` sentence is parsed exactly.** For every sentence
of at most 80 characters with 8 to 14 fields and two hexadecimal digits, at
any address, and every GPS state: if the digits are the XOR of what stands
between `$` and `*`, `gps_parse` returns 1 exactly when the second field
starts with `A`, `valid` says so, and the term of every field is the field as
a string; else it returns 0 and leaves `valid` and `altitude`. -/
theorem gprmc_parsed (feet : (ℕ → UInt8) → ℕ → UInt16) (gps : Gps) (mem : ℕ → UInt8) (sentence : ℕ)
    (fs : List (List UInt8)) (h l : UInt8) (hmem : Cells.At mem sentence (gprmcSentence fs h l))
    (hlen : (gprmcSentence fs h l).length ≤ 80) (h8 : 8 ≤ fs.length) (h14 : fs.length ≤ 14)
    (hfs : ∀ f ∈ fs, ∀ c ∈ f, FieldChar c) (hh : isHexDigit h = true) (hl : isHexDigit l = true) :
    (16 * hexValue h + hexValue l = (xorOf (gprmcSummed fs)).toNat →
      ((gpsParse feet gps mem sentence (gprmcSentence fs h l).length).ret = true ↔ fs[1].head? = some 0x41) ∧
      (gpsParse feet gps mem sentence (gprmcSentence fs h l).length).gps.valid = (fs[1].head? == some 0x41) ∧
      ∀ j (hj : j < fs.length), Str 0 (gpsParse feet gps mem sentence (gprmcSentence fs h l).length).mem
        ((gpsParse feet gps mem sentence (gprmcSentence fs h l).length).gps.term j) fs[j]) ∧
    (16 * hexValue h + hexValue l ≠ (xorOf (gprmcSummed fs)).toNat →
      (gpsParse feet gps mem sentence (gprmcSentence fs h l).length).ret = false ∧
      (gpsParse feet gps mem sentence (gprmcSentence fs h l).length).gps.valid = gps.valid ∧
      (gpsParse feet gps mem sentence (gprmcSentence fs h l).length).gps.altitude = gps.altitude) := by
  obtain ⟨s, s', sets, hscan, hs', hparse⟩ := scan_gprmc feet gps hmem hlen h14 hfs hh hl
  rw [hparse]
  dsimp only
  have hzero := half_eq_zero_iff hfs hscan hh hl
  have hret : (s.half sentence (6 + (fieldsText fs).length) h).ret = none := hscan.ret
  have hstrs : ∀ j (hj : j < fs.length), Str 0 (s.half sentence (6 + (fieldsText fs).length) h).mem
      ((s.half sentence (6 + (fieldsText fs).length) h).gps.term j) fs[j] := by
    intro j hj
    exact strs_of_half hfs hscan h hj
  have hkept : (s.half sentence (6 + (fieldsText fs).length) h).gps.valid = gps.valid ∧
      (s.half sentence (6 + (fieldsText fs).length) h).gps.altitude = gps.altitude := ⟨hscan.valid, hscan.altitude⟩
  generalize s.half sentence (6 + (fieldsText fs).length) h = t at hs' hzero hret hstrs hkept
  constructor
  · intro hright
    have hhead : (t.mem (t.gps.term gprmcTermStatus) == 0x41) = (fs[1].head? == some 0x41) := by
      rw [show gprmcTermStatus = 1 from rfl, (hstrs 1 (by omega)).head]
      cases fs[1] with
      | nil => rfl
      | cons c f => rfl
    obtain ⟨hgps, hsmem, hsret⟩ := scanCorrect_gprmc feet { t with state := .text, parity := t.parity - nmeaDehex l }
    rw [hs', scanLsb_right (hzero.mpr hright), hgps, hsmem]
    refine ⟨?_, hhead, hstrs⟩
    rw [decide_eq_true_iff, hsret hret]
    show (t.mem (t.gps.term gprmcTermStatus) == 0x41) = true ↔ _
    rw [hhead, beq_iff_eq]
  · intro hwrong
    rw [hs', scanLsb_wrong (mt hzero.mp hwrong)]
    dsimp only
    rw [hret]
    exact ⟨rfl, hkept⟩

/-- The fields of `$GPRMC,123519,A,4807.038,N,01131.000,E,022.4,084.4,230394,003.1,W*6A`. -/
def sampleFields : List (List UInt8) :=
  [[0x31, 0x32, 0x33, 0x35, 0x31, 0x39], [0x41], [0x34, 0x38, 0x30, 0x37, 0x2e, 0x30, 0x33, 0x38], [0x4e],
    [0x30, 0x31, 0x31, 0x33, 0x31, 0x2e, 0x30, 0x30, 0x30], [0x45], [0x30, 0x32, 0x32, 0x2e, 0x34],
    [0x30, 0x38, 0x34, 0x2e, 0x34], [0x32, 0x33, 0x30, 0x33, 0x39, 0x34], [0x30, 0x30, 0x33, 0x2e, 0x31], [0x57]]

/-- The memory with a sentence in it. -/
def memWith (sentence : List UInt8) : ℕ → UInt8 := Cells.write (fun _ => 0) 0x100 sentence

theorem gprmc_parsed_sample :
    (gpsParse (fun _ _ => 0) gpsInit (memWith (gprmcSentence sampleFields 0x36 0x41)) 0x100
      (gprmcSentence sampleFields 0x36 0x41).length).ret = true :=
  ((gprmc_parsed (fun _ _ => 0) gpsInit (memWith (gprmcSentence sampleFields 0x36 0x41)) 0x100 sampleFields 0x36 0x41
    (Cells.at_write ..) (by decide) (by decide) (by decide) (by decide +kernel) rfl rfl).1
      (by decide +kernel)).1.mpr rfl

/-! ### A sentence that is accepted -/

/-- From a `*` on, of a sentence that is accepted. -/
theorem scan_star_accepted {n : ℕ} {rest : List UInt8} (hnone : s.ret = none) (hstate : s.state = .text)
    (hat : Cells.At s.mem (sentence + n) (star :: rest))
    (hs' : final (gpsStep feet kind sentence) s (List.range' n (rest.length + 1)) = s') (hret : s'.ret = some true) :
    s.terms < s'.terms ∧ (∀ j < s.terms, s'.gps.term j = s.gps.term j) ∧
      s'.gps.term s.terms = sentence + n + 1 ∧ s'.mem (sentence + n) = 0 ∧
      ∀ a < sentence + n, s'.mem a = s.mem a := by
  obtain ⟨hc, hrest⟩ := (Cells.at_cons ..).mp hat
  rw [List.range'_succ, final_cons] at hs'
  cases hends : scanEnds star s.terms with
  | true =>
    rw [gpsStep_ends hnone hc hends, final_done rfl] at hs'
    rw [← hs'] at hret
    exact absurd hret (by simp)
  | false =>
    rw [gpsStep_text hnone hstate hc hends] at hs'
    have hstarred : (scanText sentence n star s).1 = s.starred sentence n := rfl
    rw [hstarred] at hs'
    cases rest with
    | nil =>
      have hnil : s.ret = some true := by
        rw [← hret, ← hs']
        rfl
      exact absurd (hnone.symm.trans hnil) (by decide)
    | cons c rest =>
      obtain ⟨hc', -⟩ := (Cells.at_cons ..).mp (hrest.update_of_lt (Nat.lt_succ_self _) 0)
      rw [List.length_cons, List.range'_succ, final_cons] at hs'
      cases hends' : scanEnds c s.terms with
      | true =>
        rw [gpsStep_ends (s := s.starred sentence n) (n := n + 1) hnone hc' hends', final_done rfl] at hs'
        rw [← hs'] at hret
        exact absurd hret (by simp)
      | false =>
        rw [gpsStep_msb (s := s.starred sentence n) (n := n + 1) hnone rfl hc' hends'] at hs'
        obtain ⟨hterms, hterm⟩ := final_term feet kind sentence (List.range' (n + 1 + 1) rest.length)
          (s.half sentence n c)
        have hmem := fun a ha => final_mem feet kind sentence rest.length (n + 1 + 1) (s.half sentence n c) (a := a) ha
        change final _ (s.half sentence n c) _ = s' at hs'
        rw [hs'] at hterms hterm hmem
        refine ⟨hterms, fun j hj => ?_, ?_, ?_, fun a ha => ?_⟩
        · rw [hterm j (Nat.lt_succ_of_lt hj)]
          exact Function.update_of_ne (Nat.ne_of_lt hj) ..
        · rw [hterm s.terms (Nat.lt_succ_self _)]
          exact Function.update_self ..
        · rw [hmem _ (by omega)]
          exact Function.update_self ..
        · rw [hmem a (by omega)]
          exact Function.update_of_ne (Nat.ne_of_lt ha) ..

/-- A sentence that is accepted has been taken up to its first `*`; what
stands there is the checksum, and takes the next term. -/
theorem scan_accepted {gps : Gps} {mem : ℕ → UInt8} {len : ℕ}
    (hkind : scannedAs (Cells.slice mem sentence len) = some kind) {s' : Scan}
    (hs' : final (gpsStep feet kind sentence) (.start gps mem kind) (List.range' 6 (len - 6)) = s')
    (hret : s'.ret = some true) : ∃ text rest s,
      (Cells.slice mem sentence len).drop 6 = text ++ star :: rest ∧ star ∉ text ∧
      TextScanned sentence 6 text (.start gps mem kind) s ∧ text.count comma < s'.terms ∧
      (∀ j < text.count comma, s'.gps.term j = s.gps.term j) ∧
      s'.gps.term (text.count comma) = sentence + 6 + text.length + 1 ∧
      Cells.At s'.mem (sentence + 6) (text.map cut ++ [0]) := by
  have hbody := at_drop hkind
  have hlen : len - 6 = ((Cells.slice mem sentence len).drop 6).length := by
    rw [List.length_drop, Cells.length_slice]
  generalize (Cells.slice mem sentence len).drop 6 = body at hbody hlen
  rw [hlen] at hs'
  by_cases hstar : star ∈ body
  · obtain ⟨text, rest, rfl, hfree⟩ := List.eq_append_cons_of_mem hstar
    obtain ⟨htext, hrest⟩ := (Cells.at_append ..).mp hbody
    rw [List.length_append, ← List.range'_append_1, final_append] at hs'
    rcases scan_text feet kind text 6 (.start gps mem kind) rfl rfl hfree htext with
      ⟨hstop, -⟩ | hscan
    · rw [final_done (by rw [hstop]; rfl)] at hs'
      rw [hs', hret] at hstop
      exact absurd hstop (by decide)
    · generalize final (gpsStep feet kind sentence) (.start gps mem kind) (List.range' 6 text.length) = s at hs' hscan
      have hrest' : Cells.At s.mem (sentence + (6 + text.length)) (star :: rest) := by
        rw [← Nat.add_assoc]
        exact hrest.congr fun k _ => hscan.frame _ (Or.inr (Nat.le_add_right ..))
      obtain ⟨hlt, hold, hnew, hzero, hmem⟩ := scan_star_accepted hscan.ret hscan.state hrest' hs' hret
      have hterms : s.terms = text.count comma := by
        rw [hscan.terms]
        exact Nat.zero_add _
      rw [hterms] at hlt hold hnew
      rw [← Nat.add_assoc] at hnew hzero hmem
      refine ⟨text, rest, s, rfl, hfree, hscan, hlt, hold, hnew, ?_⟩
      have hsnoc := hscan.cells.snoc 0
      refine hsnoc.congr fun k hk => ?_
      rw [List.length_append, List.length_map, List.length_singleton] at hk
      rw [List.length_map]
      rcases Nat.lt_succ_iff_lt_or_eq.mp hk with hk | rfl
      · rw [hmem _ (by omega), Function.update_of_ne (by omega)]
      · rw [hzero, Function.update_self]
  · rcases scan_text feet kind body 6 (.start gps mem kind) rfl rfl hstar hbody with
      ⟨hstop, -⟩ | hscan
    · rw [hs', hret] at hstop
      exact absurd hstop (by decide)
    · have hnone := hscan.ret
      rw [hs', hret] at hnone
      exact absurd hnone (by decide)

/-! ### Whose fields the terms are -/

/-- The line of a call. -/
def ParseCall.line (buf : ℕ) (x : ParseCall) : List UInt8 := Cells.slice x.mem buf x.len

/-- Term `j` was set by this call, to what stands behind the comma of its line
that has `j` commas before it. -/
def OwnField (buf : ℕ) (x : ParseCall) (j : ℕ) : Prop :=
  ∃ i, ((x.line buf).drop 6)[i]? = some comma ∧ (((x.line buf).drop 6).take i).count comma = j ∧
    ⟨j, buf + 6 + i + 1⟩ ∈ x.result.sets ∧ x.result.gps.term j = buf + 6 + i + 1

/-- The fields before the first `*`. -/
def fieldCount (line : List UInt8) : ℕ := ((line.drop 6).takeWhile (· != star)).count comma

theorem exists_comma {j : ℕ} {text : List UInt8} (h : j < text.count comma) :
    ∃ i, text[i]? = some comma ∧ (text.take i).count comma = j := by
  induction text generalizing j with
  | nil => exact absurd h (Nat.not_lt_zero j)
  | cons c text ih =>
    by_cases hc : c = comma
    · subst hc
      cases j with
      | zero => exact ⟨0, rfl, rfl⟩
      | succ j =>
        rw [List.count_cons_self] at h
        obtain ⟨i, hi, hcount⟩ := ih (Nat.lt_of_succ_lt_succ h)
        exact ⟨i + 1, hi, by rw [List.take_succ_cons, List.count_cons_self, hcount]⟩
    · rw [List.count_cons_of_ne hc] at h
      obtain ⟨i, hi, hcount⟩ := ih h
      exact ⟨i + 1, hi, by rw [List.take_succ_cons, List.count_cons_of_ne hc, hcount]⟩

theorem accepted_terms_iff (feet : (ℕ → UInt8) → ℕ → UInt16) (buf : ℕ) {x : ParseCall}
    (hx : x.result = gpsParse feet x.gps x.mem buf x.len) (hret : x.result.ret = true) :
    (∀ j < 8, OwnField buf x j) ↔ 8 ≤ fieldCount (x.line buf) := by
  cases hkind : scannedAs (Cells.slice x.mem buf x.len) with
  | none =>
    rw [hx, gpsParse_none _ _ hkind] at hret
    exact absurd hret Bool.false_ne_true
  | some kind =>
    have hsets := mem_sets feet kind buf (List.range' 6 (x.len - 6)) (.start x.gps x.mem kind)
    rw [gpsParse_some _ _ hkind] at hx
    obtain ⟨s', hs'⟩ : ∃ s', final (gpsStep feet kind buf) (.start x.gps x.mem kind)
      (List.range' 6 (x.len - 6)) = s' := ⟨_, rfl⟩
    rw [hs'] at hx hsets
    rw [hx] at hret
    obtain ⟨text, rest, s, hline, hstar, hscan, hlt, hold, hsum, -⟩ := scan_accepted hkind hs' (of_decide_eq_true hret)
    have hcount : fieldCount (x.line buf) = text.count comma := by
      rw [fieldCount, ParseCall.line, hline, takeWhile_free hstar]
    rw [hcount]
    constructor
    · intro hown
      by_contra hfew
      -- the term behind the last field is the checksum, and no comma is before it
      obtain ⟨i, hi, -, -, hterm⟩ := hown (text.count comma) (Nat.lt_of_not_le hfew)
      rw [hx] at hterm
      dsimp only at hterm
      rw [hsum] at hterm
      obtain rfl : i = text.length := by omega
      rw [ParseCall.line, hline] at hi
      simp [star, comma] at hi
    · intro h8 j hj
      have hj' : j < text.count comma := Nat.lt_of_lt_of_le hj h8
      obtain ⟨i, hi, hcomma⟩ := exists_comma hj'
      have hilt : i < text.length := (List.getElem?_eq_some_iff.mp hi).1
      have hterm : s'.gps.term j = buf + 6 + i + 1 := by
        have hpos := hscan.term i hi
        rw [hcomma, show (Scan.start x.gps x.mem kind).terms = 0 from rfl, Nat.zero_add] at hpos
        rw [hold j hj', hpos]
      refine ⟨i, ?_, ?_, ?_, ?_⟩
      · rw [ParseCall.line, hline, List.getElem?_append_left hilt, hi]
      · rw [ParseCall.line, hline, List.take_append_of_le_length (Nat.le_of_lt hilt), hcomma]
      · rw [hx, ← hterm]
        exact hsets j (Nat.zero_le j) (Nat.lt_trans hj' hlt)
      · rw [hx]
        exact hterm

/-- A call's result is that of `gps_parse`. -/
theorem call_result (feet : (ℕ → UInt8) → ℕ → UInt16) (buf : ℕ) (s : GpsLine) (cs : List UInt8) :
    ∀ x ∈ outs (trackerPollChar feet buf) s cs, x.result = gpsParse feet x.gps x.mem buf x.len := by
  refine outs_forall (trackerPollChar feet buf) (fun _ => True) ?_ s cs trivial
  intro s c _
  refine ⟨trivial, fun x hx => ?_⟩
  unfold trackerPollChar at hx
  dsimp only at hx
  split_ifs at hx
  · rw [List.mem_singleton.mp hx]
  · exact absurd hx List.not_mem_nil

/-- The terms a call sets are entries of `_term`. -/
theorem parse_sets_index (feet : (ℕ → UInt8) → ℕ → UInt16) (gps : Gps) (mem : ℕ → UInt8) (sentence len : ℕ) :
    ∀ w ∈ (gpsParse feet gps mem sentence len).sets, w.index < maxTerms := by
  cases hkind : scannedAs (Cells.slice mem sentence len) with
  | none =>
    rw [gpsParse_none _ _ hkind]
    exact fun w hw => absurd hw List.not_mem_nil
  | some kind =>
    rw [gpsParse_some _ _ hkind]
    exact sets_index feet kind sentence _ (Nat.zero_le maxTerms)

/-- **An accepted sentence's terms are its own fields when it has eight.** For
every run of the tracker from `gps_init`, whatever comes in on the serial
line: each time `gps_parse` returns 1, the terms 0 to 7 were set by this
very sentence, each to the field behind its comma, if and only if at least
eight commas stand before its first `*`; and no index written reaches
`MAX_TERMS`. -/
theorem gps_terms_iff (feet : (ℕ → UInt8) → ℕ → UInt16) (buf : ℕ) (mem : ℕ → UInt8) (cs : List UInt8) (x : ParseCall)
    (hx : x ∈ outs (trackerPollChar feet buf) ⟨mem, 0, gpsInit⟩ cs) :
    (x.result.ret = true → ((∀ j < 8, OwnField buf x j) ↔ 8 ≤ fieldCount (x.line buf))) ∧
      ∀ w ∈ x.result.sets, w.index < maxTerms := by
  have hresult := call_result feet buf ⟨mem, 0, gpsInit⟩ cs x hx
  refine ⟨accepted_terms_iff feet buf hresult, ?_⟩
  rw [hresult]
  exact parse_sets_index feet x.gps x.mem buf x.len

/-- Eight fields: `$GPRMC,1,A,2,N,3,E,4,5*30`. -/
def eightFields : List UInt8 := gprmcSentence [[0x31], [0x41], [0x32], [0x4e], [0x33], [0x45], [0x34], [0x35]] 0x33 0x30

theorem gps_terms_iff_eight : ∃ x ∈ outs (trackerPollChar (fun _ _ => 0) 0x100) ⟨fun _ => 0, 0, gpsInit⟩
      (eightFields ++ [0x0d]), x.result.ret = true ∧ ∀ j < 8, OwnField 0x100 x j := by
  have hrun : (outs (trackerPollChar (fun _ _ => 0) 0x100) ⟨fun _ => 0, 0, gpsInit⟩ (eightFields ++ [0x0d])).any
      (fun x => x.result.ret && decide (8 ≤ fieldCount (x.line 0x100))) = true := by
    decide +kernel
  obtain ⟨x, hx, hcheck⟩ := List.any_eq_true.mp hrun
  rw [Bool.and_eq_true, decide_eq_true_iff] at hcheck
  exact ⟨x, hx, hcheck.1, ((gps_terms_iff (fun _ _ => 0) 0x100 (fun _ => 0) (eightFields ++ [0x0d]) x hx).1
    hcheck.1).mpr hcheck.2⟩

/-- Two fields, and a right checksum: `$GPRMC,1,A*3B`. -/
def twoFields : List UInt8 := gprmcSentence [[0x31], [0x41]] 0x33 0x42

/-- It is accepted: its checksum is the latitude, and the longitude is at `NULL`. -/
theorem two_fields_accepted : ∃ x ∈ outs (trackerPollChar (fun _ _ => 0) 0x100) ⟨fun _ => 0, 0, gpsInit⟩
      (twoFields ++ [0x0d]), x.result.ret = true ∧ x.result.gps.term 2 = 0x100 + 11 ∧ x.result.gps.term 4 = 0 ∧
      ¬ ∀ j < 8, OwnField 0x100 x j := by
  have hrun : (outs (trackerPollChar (fun _ _ => 0) 0x100) ⟨fun _ => 0, 0, gpsInit⟩ (twoFields ++ [0x0d])).any
      (fun x => x.result.ret && (x.result.gps.term 2 == 0x100 + 11 && x.result.gps.term 4 == 0)) = true := by
    decide +kernel
  obtain ⟨x, hx, hcheck⟩ := List.any_eq_true.mp hrun
  rw [Bool.and_eq_true, Bool.and_eq_true, beq_iff_eq, beq_iff_eq] at hcheck
  refine ⟨x, hx, hcheck.1, hcheck.2.1, hcheck.2.2, fun hown => ?_⟩
  obtain ⟨i, -, -, -, hterm⟩ := hown 4 (by decide)
  rw [hcheck.2.2] at hterm
  omega

end TinyAprs
