/-
# The checksum of a sentence

`gps_parse` takes a sentence for good when its running parity, less the two
characters behind a `*`, is zero. The characters are not checked to be
hexadecimal digits, and after a wrong checksum the scan goes on, with what is
left of the parity, to the next `*`. So what it accepts is not only a right
checksum: it is any group of a `*` and two characters that cancels the sum
carried to it (`cancels`).
-/
import TinyAprs.GpsScan

namespace TinyAprs

open Mealy

/-! ### The right checksum, and what is taken for one -/

/-- A hexadecimal digit, `0` to `9` or `A` to `F`. -/
def isHexDigit (c : UInt8) : Bool := (0x30 ≤ c && c ≤ 0x39) || (0x41 ≤ c && c ≤ 0x46)

def hexValue (c : UInt8) : ℕ := if c ≤ 0x39 then c.toNat - 48 else c.toNat - 55

def xorOf (cs : List UInt8) : UInt8 := cs.foldl (· ^^^ ·) 0

/-- A sentence of one of the two types, whose first `*` is followed by the
hexadecimal checksum of what stands between it and the `$`. -/
def wellSummed (sentence : List UInt8) : Bool :=
  (sentence.take 6 == gprmcHeader || sentence.take 6 == gpggaHeader) &&
    match (sentence.drop 1).dropWhile (· != star) with
    | _ :: h :: l :: _ =>
      isHexDigit h && isHexDigit l &&
        16 * hexValue h + hexValue l == (xorOf ((sentence.drop 1).takeWhile (· != star))).toNat
    | _ => false

/-- What is left of a sum behind a `*`, by the unchecked values of the two
characters there. -/
def remainder (sum : Int16) (h l : UInt8) : Int16 := sum - 16 * nmeaDehex h - nmeaDehex l

/-- In the text up to its end, a line end or the last term, some `*` with two
characters behind it leaves nothing of the sum: of the XOR up to the first
`*`, or of what an earlier `*` has left and the XOR since. -/
def cancels (sum : Int16) (terms : ℕ) : List UInt8 → Bool
  | [] => false
  | c :: text =>
    if scanEnds c terms then false
    else if c = star then
      match text with
      | h :: l :: text =>
        !scanEnds h terms && !scanEnds l (terms + 1) &&
          (remainder sum h l == 0 || cancels (remainder sum h l) (terms + 1) text)
      | _ => false
    else cancels (sum ^^^ charInt c) (terms + [c].count comma) text

/-- A sentence that is scanned and has such a `*`. -/
def cancelled (sentence : List UInt8) : Bool :=
  (scannedAs sentence).any fun kind => cancels kind.parityInitial 0 (sentence.drop 6)

/-- `gps_parse` returns 1, or changes `valid` or `altitude`. -/
def Parsed.Takes (q : Parsed) (gps : Gps) : Prop :=
  q.ret = true ∨ q.gps.valid ≠ gps.valid ∨ q.gps.altitude ≠ gps.altitude

/-! ### Where the parity is found to be zero -/

section

variable (feet : (ℕ → UInt8) → ℕ → UInt16) (kind : SentenceType) (sentence : ℕ)

/-- At `n` the checksum is found correct. -/
def hit (s : Scan) (n : ℕ) : Bool :=
  s.ret.isNone && !scanEnds (s.mem (sentence + n)) s.terms && s.state == .lsb &&
    s.parity - nmeaDehex (s.mem (sentence + n)) == 0

/-- At some `n` of the loop. -/
def hits (s : Scan) : List ℕ → Bool
  | [] => false
  | n :: ns => hit sentence s n || hits (gpsStep feet kind sentence s n).1 ns

def Scan.withValid (s : Scan) (valid : Bool) : Scan := { s with gps.valid := valid }

variable {feet kind sentence} {s : Scan}

variable (feet kind) in
/-- Elsewhere a round keeps `valid` and `altitude`, and does not return 1. -/
theorem gpsStep_quiet {n : ℕ} (h : hit sentence s n = false) :
    (gpsStep feet kind sentence s n).1.gps.valid = s.gps.valid ∧
      (gpsStep feet kind sentence s n).1.gps.altitude = s.gps.altitude ∧
      ((gpsStep feet kind sentence s n).1.ret = some true → s.ret = some true) := by
  have hround := gpsStep_round feet kind sentence s n
  generalize gpsStep feet kind sentence s n = r at hround
  cases hround with
  | done => exact ⟨rfl, rfl, id⟩
  | ends => exact ⟨rfl, rfl, by simp⟩
  | comma hmax => exact ⟨rfl, rfl, id⟩
  | star => exact ⟨rfl, rfl, id⟩
  | char c => exact ⟨rfl, rfl, id⟩
  | msb c hmax => exact ⟨rfl, rfl, id⟩
  | lsb hret hends hstate =>
    have hparity : s.parity - nmeaDehex (s.mem (sentence + n)) ≠ 0 := by simpa [hit, hret, hends, hstate] using h
    dsimp only
    rw [scanLsb_wrong hparity]
    exact ⟨rfl, rfl, id⟩

variable (feet kind) in
/-- A round that does not find the checksum correct does not depend on `valid`. -/
theorem gpsStep_withValid {n : ℕ} (h : hit sentence s n = false) (b : Bool) :
    (gpsStep feet kind sentence (s.withValid b) n).1 = (gpsStep feet kind sentence s n).1.withValid b := by
  cases hret : s.ret with
  | some r =>
    have hsome : s.ret.isSome = true := by rw [hret]; rfl
    rw [gpsStep_done hsome, gpsStep_done (s := s.withValid b) hsome]
  | none =>
    cases hends : scanEnds (s.mem (sentence + n)) s.terms with
    | true =>
      rw [gpsStep_ends hret rfl hends, gpsStep_ends (s := s.withValid b) hret rfl hends]
      rfl
    | false =>
      cases hstate : s.state with
      | text =>
        rw [gpsStep_text hret hstate rfl hends, gpsStep_text (s := s.withValid b) hret hstate rfl hends]
        change (scanText sentence n (s.mem (sentence + n)) (s.withValid b)).1 = _
        unfold scanText
        split_ifs
        · rfl
        · rfl
        · rfl
      | msb =>
        rw [gpsStep_msb hret hstate rfl hends, gpsStep_msb (s := s.withValid b) hret hstate rfl hends]
        rfl
      | lsb =>
        have hparity : s.parity - nmeaDehex (s.mem (sentence + n)) ≠ 0 := by
          simpa [hit, hret, hends, hstate] using h
        rw [gpsStep_lsb hret hstate rfl hends, gpsStep_lsb (s := s.withValid b) hret hstate rfl hends,
          scanLsb_wrong hparity]
        exact scanLsb_wrong hparity

/-- Where the checksum is found correct, `valid` is set. -/
theorem gpsStep_hit {n : ℕ} (h : hit sentence s n = true) (b : Bool) :
    gpsStep feet kind sentence (s.withValid b) n = gpsStep feet kind sentence s n := by
  simp only [hit, Bool.and_eq_true, Option.isNone_iff_eq_none, Bool.not_eq_true', beq_iff_eq] at h
  obtain ⟨⟨⟨hret, hends⟩, hstate⟩, hparity⟩ := h
  rw [gpsStep_lsb hret hstate rfl hends, gpsStep_lsb (s := s.withValid b) hret hstate rfl hends, scanLsb_right hparity]
  refine congrArg (·, []) ((scanLsb_right (s := s.withValid b) hparity).trans ?_)
  cases kind with
  | gprmc => rfl
  | gpgga => rfl

theorem final_quiet (ns : List ℕ) (s : Scan) (h : hits feet kind sentence s ns = false) :
    (final (gpsStep feet kind sentence) s ns).gps.valid = s.gps.valid ∧
      (final (gpsStep feet kind sentence) s ns).gps.altitude = s.gps.altitude ∧
      ((final (gpsStep feet kind sentence) s ns).ret = some true → s.ret = some true) := by
  induction ns generalizing s with
  | nil => exact ⟨rfl, rfl, id⟩
  | cons n ns ih =>
    rw [hits, Bool.or_eq_false_iff] at h
    obtain ⟨hvalid, halt, hret⟩ := ih _ h.2
    obtain ⟨hvalid₁, halt₁, hret₁⟩ := gpsStep_quiet feet kind h.1
    rw [final_cons]
    exact ⟨hvalid.trans hvalid₁, halt.trans halt₁, fun hr => hret₁ (hret hr)⟩

/-- After a loop with one, `valid` does not depend on what it was. -/
theorem final_hit (ns : List ℕ) (s : Scan) (h : hits feet kind sentence s ns = true) (b : Bool) :
    final (gpsStep feet kind sentence) (s.withValid b) ns = final (gpsStep feet kind sentence) s ns := by
  induction ns generalizing s with
  | nil => exact absurd h (by simp [hits])
  | cons n ns ih =>
    rw [final_cons, final_cons]
    cases hn : hit sentence s n with
    | true => rw [gpsStep_hit hn]
    | false =>
      rw [hits, hn, Bool.false_or] at h
      rw [gpsStep_withValid feet kind hn b, ih _ h]

/-! ### By the text -/

theorem hits_done (h : s.ret.isSome = true) (ns : List ℕ) : hits feet kind sentence s ns = false := by
  induction ns with
  | nil => rfl
  | cons n ns ih =>
    have hn : hit sentence s n = false := by
      obtain ⟨r, hr⟩ := Option.isSome_iff_exists.mp h
      simp [hit, hr]
    rw [hits, hn, gpsStep_done h, ih]
    rfl

theorem hits_ends {n : ℕ} (hret : s.ret = none) (hends : scanEnds (s.mem (sentence + n)) s.terms = true)
    (ns : List ℕ) : hits feet kind sentence s (n :: ns) = false := by
  have hn : hit sentence s n = false := by simp [hit, hends]
  rw [hits, hn, gpsStep_ends hret rfl hends, hits_done rfl]
  rfl

/-- A round that does not look at the second digit finds none. -/
theorem hits_cons {n : ℕ} (h : s.state ≠ .lsb) (ns : List ℕ) : hits feet kind sentence s (n :: ns) =
    hits feet kind sentence (gpsStep feet kind sentence s n).1 ns := by
  have hn : hit sentence s n = false := by simp [hit, h]
  rw [hits, hn, Bool.false_or]

theorem hits_msb {n : ℕ} {c : UInt8} (hret : s.ret = none) (hstate : s.state = .msb)
    (hcell : s.mem (sentence + n) = c) (ns : List ℕ) : hits feet kind sentence s (n :: ns) =
      (!scanEnds c s.terms && hits feet kind sentence (scanMsb sentence n c s).1 ns) := by
  subst hcell
  cases hends : scanEnds (s.mem (sentence + n)) s.terms with
  | true => exact hits_ends hret hends ns
  | false =>
    rw [hits_cons (by rw [hstate]; decide), gpsStep_msb hret hstate rfl hends]
    rfl

theorem hits_lsb {n : ℕ} {c : UInt8} (hret : s.ret = none) (hstate : s.state = .lsb)
    (hcell : s.mem (sentence + n) = c) (ns : List ℕ) : hits feet kind sentence s (n :: ns) =
      (!scanEnds c s.terms && (s.parity - nmeaDehex c == 0 ||
        hits feet kind sentence { s with state := .text, parity := s.parity - nmeaDehex c } ns)) := by
  subst hcell
  cases hends : scanEnds (s.mem (sentence + n)) s.terms with
  | true => exact hits_ends hret hends ns
  | false =>
    have hn : hit sentence s n = (s.parity - nmeaDehex (s.mem (sentence + n)) == 0) := by
      simp [hit, hret, hstate, hends]
    rw [hits, hn]
    by_cases hzero : s.parity - nmeaDehex (s.mem (sentence + n)) = 0
    · rw [hzero]
      rfl
    · rw [gpsStep_lsb hret hstate rfl hends, scanLsb_wrong hzero]
      rfl

/-- What a wrong checksum at `n` leaves. -/
def Scan.wrong (sentence n : ℕ) (h l : UInt8) (s : Scan) : Scan :=
  { (scanMsb sentence (n + 1) h (s.starred sentence n)).1 with
    state := .text
    parity := remainder s.parity h l }

/-- A `*` and two characters. -/
theorem hits_group {n : ℕ} {h l : UInt8} (hret : s.ret = none) (hstate : s.state = .text)
    (hat : Cells.At s.mem (sentence + n) [star, h, l]) (hmax : s.terms ≠ maxTerms) (ns : List ℕ) :
    hits feet kind sentence s (n :: (n + 1) :: (n + 1 + 1) :: ns) =
      (!scanEnds h s.terms && !scanEnds l (s.terms + 1) &&
        (remainder s.parity h l == 0 || hits feet kind sentence (s.wrong sentence n h l) ns)) := by
  obtain ⟨hc, hrest⟩ := (Cells.at_cons ..).mp hat
  obtain ⟨hh, hrest⟩ := (Cells.at_cons ..).mp (hrest.update_of_lt (Nat.lt_succ_self _) 0)
  obtain ⟨hl, -⟩ := (Cells.at_cons ..).mp hrest
  rw [hits_cons (by rw [hstate]; decide), gpsStep_star hret hstate hc hmax]
  refine (hits_msb (s := s.starred sentence n) (n := n + 1) hret rfl hh ((n + 1 + 1) :: ns)).trans ?_
  refine (congrArg (!scanEnds h s.terms && ·) (hits_lsb (s := (scanMsb sentence (n + 1) h (s.starred sentence n)).1)
    (n := n + 1 + 1) hret rfl hl ns)).trans ?_
  rw [Bool.and_assoc]
  rfl

variable (feet kind) in
/-- The loop finds a correct checksum where the text has one. -/
theorem hits_eq (sum : Int16) (terms : ℕ) (text : List UInt8) (n : ℕ) (s : Scan) (hret : s.ret = none)
    (hstate : s.state = .text) (hsum : s.parity = sum) (hterms : s.terms = terms)
    (hat : Cells.At s.mem (sentence + n) text) :
    hits feet kind sentence s (List.range' n text.length) = cancels sum terms text := by
  have htext : ∀ {s : Scan}, s.state = .text → s.state ≠ .lsb := by
    intro s hs
    rw [hs]
    decide
  have hmax : ∀ {terms : ℕ} {s : Scan}, ¬ scanEnds star terms = true → s.terms = terms → s.terms ≠ maxTerms := by
    rintro terms s hends rfl hterms
    rw [hterms] at hends
    exact hends (by decide)
  fun_induction cancels sum terms text generalizing n s with
  | case1 => rfl
  | case2 sum terms c text hends =>
    obtain ⟨hc, -⟩ := (Cells.at_cons ..).mp hat
    rw [List.length_cons, List.range'_succ]
    exact hits_ends hret (by rw [hc, hterms]; exact hends) _
  | case3 sum terms h l text hends ih =>
    obtain ⟨hgroup, hrest⟩ := (Cells.at_append _ _ [star, h, l] text).mp hat
    rw [List.length_cons, List.length_cons, List.length_cons, List.range'_succ, List.range'_succ, List.range'_succ,
      hits_group hret hstate hgroup (hmax hends hterms), hsum, hterms]
    congr 2
    refine ih (n + 1 + 1 + 1) (s.wrong sentence n h l) hret rfl (by rw [← hsum]; rfl) (by rw [← hterms]; rfl) ?_
    exact hrest.update_of_lt (by simp) 0
  | case4 sum terms text hshort hends =>
    obtain ⟨hc, hrest⟩ := (Cells.at_cons ..).mp hat
    rw [List.length_cons, List.range'_succ, hits_cons (htext hstate), gpsStep_star hret hstate hc (hmax hends hterms)]
    rcases text with _ | ⟨h, _ | ⟨l, text⟩⟩
    · rfl
    · exact hits_cons (show ScanState.msb ≠ .lsb by decide) []
    · exact absurd rfl (hshort h l text)
  | case5 sum terms c text hends hstar ih =>
    obtain ⟨hc, hrest⟩ := (Cells.at_cons ..).mp hat
    have hchar : CharScanned sentence n c s (gpsStep feet kind sentence s n).1 :=
      scan_char hret hstate hstar hc (by rw [hterms]; exact Bool.eq_false_iff.mpr hends)
    rw [List.length_cons, List.range'_succ, hits_cons (htext hstate)]
    refine ih (n + 1) _ hchar.ret hchar.state (by rw [hchar.parity, hsum]) (by rw [hchar.terms, hterms]) ?_
    exact hrest.congr fun k _ => hchar.frame _ (by omega)

end

/-! ### The sentence -/

/-- **What `gps_parse` takes for a right checksum.** For every sentence in
memory: that `gps_parse` returns 1 or changes `valid` or `altitude`, from
whatever GPS state, only if the sentence has a header and, behind its first
`*`, the right checksum in hexadecimal digits, holds if and only if it has
that checksum or no `*` in it cancels the sum. -/
theorem gps_checksum_iff (feet : (ℕ → UInt8) → ℕ → UInt16) (mem : ℕ → UInt8) (sentence len : ℕ) :
    (∀ gps, (gpsParse feet gps mem sentence len).Takes gps → wellSummed (Cells.slice mem sentence len) = true) ↔
      wellSummed (Cells.slice mem sentence len) = true ∨ cancelled (Cells.slice mem sentence len) = false := by
  cases hkind : scannedAs (Cells.slice mem sentence len) with
  | none =>
    have hnone : cancelled (Cells.slice mem sentence len) = false := by rw [cancelled, hkind]; rfl
    refine ⟨fun _ => Or.inr hnone, fun _ gps htakes => ?_⟩
    rw [gpsParse_none _ _ hkind] at htakes
    simp [Parsed.Takes] at htakes
  | some kind =>
    have hhits : ∀ gps, hits feet kind sentence (.start gps mem kind) (List.range' 6 (len - 6)) =
        cancelled (Cells.slice mem sentence len) := by
      intro gps
      rw [cancelled, hkind]
      have heq := hits_eq feet kind kind.parityInitial 0 ((Cells.slice mem sentence len).drop 6) 6
        (.start gps mem kind) rfl rfl rfl rfl (at_drop hkind)
      rwa [List.length_drop, Cells.length_slice] at heq
    cases hcancel : cancelled (Cells.slice mem sentence len) with
    | false =>
      refine ⟨fun _ => Or.inr rfl, fun _ gps htakes => ?_⟩
      obtain ⟨hvalid, halt, hret⟩ := final_quiet _ _ ((hhits gps).trans hcancel)
      rw [gpsParse_some _ _ hkind] at htakes
      rcases htakes with h | h | h
      · exact absurd (hret (of_decide_eq_true h)) (by simp [Scan.start])
      · exact absurd hvalid h
      · exact absurd halt h
    | true =>
      refine ⟨fun hsound => Or.inl ?_, fun h _ _ => h.resolve_right (by decide)⟩
      -- a GPS state whose `valid` is not the one that the sentence sets
      obtain ⟨v, hv⟩ : ∃ v, (final (gpsStep feet kind sentence) (.start gpsInit mem kind)
          (List.range' 6 (len - 6))).gps.valid = v := ⟨_, rfl⟩
      have hsets := final_hit _ _ ((hhits gpsInit).trans hcancel) (!v)
      refine hsound { gpsInit with valid := !v } (Or.inr (Or.inl ?_))
      rw [gpsParse_some _ _ hkind]
      show (final (gpsStep feet kind sentence) ((Scan.start gpsInit mem kind).withValid (!v)) _).gps.valid ≠ !v
      rw [hsets, hv]
      simp

/-- `$GPRMC,1,A*2R`; the right checksum is `3B`, and `R` counts as 27. -/
def forgedSentence : List UInt8 := [0x24, 0x47, 0x50, 0x52, 0x4d, 0x43, 0x2c, 0x31, 0x2c, 0x41, 0x2a, 0x32, 0x52]

theorem forged_checksum_taken :
    (gpsParse (fun _ _ => 0) gpsInit (Cells.write (fun _ => 0) 0x100 forgedSentence) 0x100 13).ret = true ∧
    (gpsParse (fun _ _ => 0) gpsInit (Cells.write (fun _ => 0) 0x100 forgedSentence) 0x100 13).Takes gpsInit ∧
    Cells.slice (Cells.write (fun _ => 0) 0x100 forgedSentence) 0x100 13 = forgedSentence ∧
    wellSummed forgedSentence = false := by
  have hret : (gpsParse (fun _ _ => 0) gpsInit (Cells.write (fun _ => 0) 0x100 forgedSentence) 0x100 13).ret =
      true := by
    decide +kernel
  exact ⟨hret, Or.inl hret, by decide +kernel, by decide +kernel⟩

end TinyAprs
