/-
# The scan of a sentence

What the loop of `gps_parse` does, said once for its uses. A round does one
of seven things (`GpsRound`), and sets at most one term, the next one
(`gpsStep_sets`), so that terms set before stay (`final_term`) and no index
reaches `MAX_TERMS` (`sets_index`). And a text without a `*` is taken as it
stands: its commas become NULs and its terms point behind them (`scan_text`).
-/
import Mathlib.Data.List.GetD
import TinyAprs.Gps

namespace TinyAprs

open Mealy

variable {feet : (ℕ → UInt8) → ℕ → UInt16} {kind : SentenceType} {sentence : ℕ} {s s' : Scan}

/-! ### A round -/

theorem gpsStep_done (h : s.ret.isSome = true) (n : ℕ) : gpsStep feet kind sentence s n = (s, []) := if_pos h

theorem final_done (h : s.ret.isSome = true) (ns : List ℕ) : final (gpsStep feet kind sentence) s ns = s := by
  induction ns with
  | nil => rfl
  | cons n ns ih => rw [final_cons, gpsStep_done h, ih]

theorem gpsStep_running (h : s.ret = none) (n : ℕ) : gpsStep feet kind sentence s n =
    if scanEnds (s.mem (sentence + n)) s.terms then ({ s with ret := some false }, [])
    else
      match s.state with
      | .text => scanText sentence n (s.mem (sentence + n)) s
      | .msb => scanMsb sentence n (s.mem (sentence + n)) s
      | .lsb => (scanLsb feet kind (s.mem (sentence + n)) s, []) := by
  rw [gpsStep, h]
  rfl

theorem gpsStep_ends {n : ℕ} {c : UInt8} (hret : s.ret = none) (hcell : s.mem (sentence + n) = c)
    (hends : scanEnds c s.terms = true) :
    gpsStep feet kind sentence s n = ({ s with ret := some false }, []) := by
  rw [gpsStep_running hret, hcell, hends]
  rfl

theorem gpsStep_text {n : ℕ} {c : UInt8} (hret : s.ret = none) (hstate : s.state = .text)
    (hcell : s.mem (sentence + n) = c) (hends : scanEnds c s.terms = false) :
    gpsStep feet kind sentence s n = scanText sentence n c s := by
  rw [gpsStep_running hret, hcell, hends, hstate]
  rfl

theorem gpsStep_msb {n : ℕ} {c : UInt8} (hret : s.ret = none) (hstate : s.state = .msb)
    (hcell : s.mem (sentence + n) = c) (hends : scanEnds c s.terms = false) :
    gpsStep feet kind sentence s n = scanMsb sentence n c s := by
  rw [gpsStep_running hret, hcell, hends, hstate]
  rfl

theorem gpsStep_lsb {n : ℕ} {c : UInt8} (hret : s.ret = none) (hstate : s.state = .lsb)
    (hcell : s.mem (sentence + n) = c) (hends : scanEnds c s.terms = false) :
    gpsStep feet kind sentence s n = (scanLsb feet kind c s, []) := by
  rw [gpsStep_running hret, hcell, hends, hstate]
  rfl

theorem scanLsb_wrong {c : UInt8} (h : s.parity - nmeaDehex c ≠ 0) :
    scanLsb feet kind c s = { s with state := .text, parity := s.parity - nmeaDehex c } := if_neg h

theorem scanLsb_right {c : UInt8} (h : s.parity - nmeaDehex c = 0) :
    scanLsb feet kind c s = scanCorrect feet kind { s with state := .text, parity := s.parity - nmeaDehex c } :=
  if_pos h

/-- What follows a correct checksum of a `$GPRMC` sentence. -/
theorem scanCorrect_gprmc (feet : (ℕ → UInt8) → ℕ → UInt16) (s : Scan) :
    (scanCorrect feet .gprmc s).gps = { s.gps with valid := s.mem (s.gps.term gprmcTermStatus) == 0x41 } ∧
      (scanCorrect feet .gprmc s).mem = s.mem ∧
      (s.ret = none → ((scanCorrect feet .gprmc s).ret = some true ↔
        (s.mem (s.gps.term gprmcTermStatus) == 0x41) = true)) := by
  cases hvalid : s.mem (s.gps.term gprmcTermStatus) == 0x41 with
  | true => simp [scanCorrect, termValid, hvalid]
  | false => simp +contextual [scanCorrect, termValid, hvalid]

theorem scanLsb_terms (c : UInt8) : (scanLsb feet kind c s).gps.term = s.gps.term ∧
    (scanLsb feet kind c s).terms = s.terms ∧ (scanLsb feet kind c s).mem = s.mem := by
  unfold scanLsb scanCorrect
  dsimp only
  split_ifs
  · cases kind with
    | gprmc => exact ⟨rfl, rfl, rfl⟩
    | gpgga => exact ⟨rfl, rfl, rfl⟩
  · exact ⟨rfl, rfl, rfl⟩
  · exact ⟨rfl, rfl, rfl⟩

/-- Behind the `*` at `n`. -/
def Scan.starred (sentence n : ℕ) (s : Scan) : Scan :=
  { s with mem := Function.update s.mem (sentence + n) 0, state := .msb }

/-- Behind the comma at `n`. -/
def Scan.cutAt (sentence n : ℕ) (s : Scan) : Scan :=
  { s with mem := Function.update s.mem (sentence + n) 0, parity := s.parity ^^^ charInt comma }.setTerm
    (sentence + n + 1)

variable (feet kind sentence)

/-- What a round can do. -/
inductive GpsRound (s : Scan) (n : ℕ) : Scan × List TermSet → Prop
  | done : GpsRound s n (s, [])
  | ends : GpsRound s n ({ s with ret := some false }, [])
  | comma (hmax : s.terms ≠ maxTerms) : GpsRound s n (s.cutAt sentence n, [⟨s.terms, sentence + n + 1⟩])
  | star : GpsRound s n (s.starred sentence n, [])
  | char (c : UInt8) : GpsRound s n ({ s with parity := s.parity ^^^ charInt c }, [])
  | msb (c : UInt8) (hmax : s.terms ≠ maxTerms) : GpsRound s n (scanMsb sentence n c s)
  | lsb (hret : s.ret = none) (hends : scanEnds (s.mem (sentence + n)) s.terms = false) (hstate : s.state = .lsb) :
    GpsRound s n (scanLsb feet kind (s.mem (sentence + n)) s, [])

theorem gpsStep_round (s : Scan) (n : ℕ) : GpsRound feet kind sentence s n (gpsStep feet kind sentence s n) := by
  cases hret : s.ret with
  | some b =>
    rw [gpsStep_done (by rw [hret]; rfl)]
    exact .done
  | none =>
    rw [gpsStep_running hret]
    split_ifs with hends
    · exact .ends
    · have hmax : s.terms ≠ maxTerms := by
        intro h
        rw [h] at hends
        exact hends (by simp [scanEnds])
      cases hstate : s.state with
      | text =>
        dsimp only
        unfold scanText
        split_ifs with hcomma
        · rw [hcomma]
          exact .comma hmax
        · exact .star
        · exact .char _
      | msb => exact .msb _ hmax
      | lsb => exact .lsb hret (Bool.eq_false_iff.mpr hends) hstate

/-- A round sets the next term, and there is one left; or it sets none. -/
theorem gpsStep_sets (s : Scan) (n : ℕ) :
    ((gpsStep feet kind sentence s n).2 = [] ∧ (gpsStep feet kind sentence s n).1.gps.term = s.gps.term ∧
      (gpsStep feet kind sentence s n).1.terms = s.terms) ∨
    ∃ ptr, (gpsStep feet kind sentence s n).2 = [⟨s.terms, ptr⟩] ∧ s.terms ≠ maxTerms ∧
      (gpsStep feet kind sentence s n).1.gps.term = Function.update s.gps.term s.terms ptr ∧
      (gpsStep feet kind sentence s n).1.terms = s.terms + 1 := by
  have hround := gpsStep_round feet kind sentence s n
  generalize gpsStep feet kind sentence s n = r at hround
  cases hround with
  | done => exact Or.inl ⟨rfl, rfl, rfl⟩
  | ends => exact Or.inl ⟨rfl, rfl, rfl⟩
  | comma hmax => exact Or.inr ⟨_, rfl, hmax, rfl, rfl⟩
  | star => exact Or.inl ⟨rfl, rfl, rfl⟩
  | char c => exact Or.inl ⟨rfl, rfl, rfl⟩
  | msb c hmax => exact Or.inr ⟨_, rfl, hmax, rfl, rfl⟩
  | lsb => exact Or.inl ⟨rfl, (scanLsb_terms _).1, (scanLsb_terms _).2.1⟩

theorem gpsStep_mem (s : Scan) {n a : ℕ} (ha : a ≠ sentence + n) :
    (gpsStep feet kind sentence s n).1.mem a = s.mem a := by
  have hround := gpsStep_round feet kind sentence s n
  generalize gpsStep feet kind sentence s n = r at hround
  cases hround with
  | done => rfl
  | ends => rfl
  | comma hmax => exact Function.update_of_ne ha ..
  | star => exact Function.update_of_ne ha ..
  | char c => rfl
  | msb c hmax => rfl
  | lsb => exact congrFun (scanLsb_terms _).2.2 a

/-- Of a `$GPRMC` sentence, a round leaves the altitude. -/
theorem gpsStep_altitude (s : Scan) (n : ℕ) :
    (gpsStep feet .gprmc sentence s n).1.gps.altitude = s.gps.altitude := by
  have hround := gpsStep_round feet .gprmc sentence s n
  generalize gpsStep feet .gprmc sentence s n = r at hround
  cases hround with
  | done => rfl
  | ends => rfl
  | comma hmax => rfl
  | star => rfl
  | char c => rfl
  | msb c hmax => rfl
  | lsb =>
    by_cases hzero : s.parity - nmeaDehex (s.mem (sentence + n)) = 0
    · dsimp only
      rw [scanLsb_right hzero, (scanCorrect_gprmc feet _).1]
    · dsimp only
      rw [scanLsb_wrong hzero]

/-! ### A run of rounds -/

theorem final_mem (k n : ℕ) (s : Scan) {a : ℕ} (ha : a < sentence + n) :
    (final (gpsStep feet kind sentence) s (List.range' n k)).mem a = s.mem a := by
  induction k generalizing n s with
  | zero => rfl
  | succ k ih =>
    rw [List.range'_succ, final_cons, ih (n + 1) _ (by omega), gpsStep_mem feet kind sentence s (by omega)]

theorem final_term (ns : List ℕ) (s : Scan) : s.terms ≤ (final (gpsStep feet kind sentence) s ns).terms ∧
    ∀ j < s.terms, (final (gpsStep feet kind sentence) s ns).gps.term j = s.gps.term j := by
  refine final_inv (gpsStep feet kind sentence)
    (fun s' => s.terms ≤ s'.terms ∧ ∀ j < s.terms, s'.gps.term j = s.gps.term j) ?_ s ns
    ⟨Nat.le_refl _, fun _ _ => rfl⟩
  rintro s' n ⟨hmono, hold⟩
  rcases gpsStep_sets feet kind sentence s' n with ⟨-, hterm, hterms⟩ | ⟨ptr, -, -, hterm, hterms⟩
  · rw [hterm, hterms]
    exact ⟨hmono, hold⟩
  · rw [hterm, hterms]
    refine ⟨Nat.le_succ_of_le hmono, fun j hj => ?_⟩
    rw [Function.update_of_ne (by omega), hold j hj]

/-- A `$GPRMC` sentence leaves the altitude. -/
theorem final_altitude (ns : List ℕ) (s : Scan) :
    (final (gpsStep feet .gprmc sentence) s ns).gps.altitude = s.gps.altitude := by
  refine final_inv (gpsStep feet .gprmc sentence) (fun s' => s'.gps.altitude = s.gps.altitude) ?_ s ns rfl
  intro s' n hs'
  rw [gpsStep_altitude, hs']

theorem mem_sets (ns : List ℕ) (s : Scan) : ∀ j, s.terms ≤ j →
    j < (final (gpsStep feet kind sentence) s ns).terms →
    ⟨j, (final (gpsStep feet kind sentence) s ns).gps.term j⟩ ∈ outs (gpsStep feet kind sentence) s ns := by
  induction ns generalizing s with
  | nil =>
    intro j h1 h2
    exact absurd h2 (Nat.not_lt.mpr h1)
  | cons n ns ih =>
    intro j h1 h2
    rw [final_cons] at h2 ⊢
    rw [outs_cons]
    rcases gpsStep_sets feet kind sentence s n with ⟨-, -, hterms⟩ | ⟨ptr, hset, -, hterm, hterms⟩
    · exact List.mem_append_right _ (ih _ j (by omega) h2)
    · by_cases hj : j = s.terms
      · subst hj
        refine List.mem_append_left _ ?_
        rw [(final_term feet kind sentence ns _).2 _ (by omega), hterm, Function.update_self, hset]
        exact List.mem_singleton_self _
      · exact List.mem_append_right _ (ih _ j (by omega) h2)

/-- No index reaches `MAX_TERMS`. -/
theorem sets_index (ns : List ℕ) {s : Scan} (hs : s.terms ≤ maxTerms) :
    ∀ w ∈ outs (gpsStep feet kind sentence) s ns, w.index < maxTerms := by
  refine outs_forall (gpsStep feet kind sentence) (fun s => s.terms ≤ maxTerms) ?_ s ns hs
  intro s n hs
  rcases gpsStep_sets feet kind sentence s n with ⟨hset, -, hterms⟩ | ⟨ptr, hset, hmax, -, hterms⟩
  · rw [hset, hterms]
    exact ⟨hs, fun w hw => absurd hw List.not_mem_nil⟩
  · have hlt : s.terms < maxTerms := Nat.lt_of_le_of_ne hs hmax
    rw [hset, hterms]
    refine ⟨hlt, fun w hw => ?_⟩
    rw [List.mem_singleton.mp hw]
    exact hlt

/-! ### A text -/

variable {feet kind sentence}

/-- What becomes of a character of a text. -/
def cut (c : UInt8) : UInt8 := if c = comma then 0 else c

def parityOf (parity : Int16) (text : List UInt8) : Int16 := text.foldl (fun x c => x ^^^ charInt c) parity

/-- The text at `n` has been taken. -/
structure TextScanned (sentence n : ℕ) (text : List UInt8) (s s' : Scan) : Prop where
  ret : s'.ret = none
  state : s'.state = .text
  terms : s'.terms = s.terms + text.count comma
  parity : s'.parity = parityOf s.parity text
  valid : s'.gps.valid = s.gps.valid
  altitude : s'.gps.altitude = s.gps.altitude
  /-- The terms point behind the commas. -/
  term : ∀ i, text[i]? = some comma →
    s'.gps.term (s.terms + (text.take i).count comma) = sentence + n + i + 1
  /-- The commas are NULs. -/
  cells : Cells.At s'.mem (sentence + n) (text.map cut)
  frame : ∀ a, a < sentence + n ∨ sentence + n + text.length ≤ a → s'.mem a = s.mem a

/-- Nothing in the text ends the scan. -/
def Passes (terms : ℕ) (text : List UInt8) : Prop :=
  (∀ c ∈ text, c ≠ 0x0a ∧ c ≠ 0x0d) ∧ terms + text.count comma < maxTerms

/-- A character of a text has been taken. -/
structure CharScanned (sentence n : ℕ) (c : UInt8) (s s' : Scan) : Prop where
  ret : s'.ret = none
  state : s'.state = .text
  terms : s'.terms = s.terms + [c].count comma
  parity : s'.parity = s.parity ^^^ charInt c
  valid : s'.gps.valid = s.gps.valid
  altitude : s'.gps.altitude = s.gps.altitude
  term : c = comma → s'.gps.term s.terms = sentence + n + 1
  cell : s'.mem (sentence + n) = cut c
  frame : ∀ a, a ≠ sentence + n → s'.mem a = s.mem a

theorem scan_char {n : ℕ} {c : UInt8} (hret : s.ret = none) (hstate : s.state = .text) (hc : c ≠ star)
    (hcell : s.mem (sentence + n) = c) (hends : scanEnds c s.terms = false) :
    CharScanned sentence n c s (gpsStep feet kind sentence s n).1 := by
  rw [gpsStep_text hret hstate hcell hends, scanText]
  by_cases hcomma : c = comma
  · rw [if_pos hcomma]
    refine ⟨hret, hstate, ?_, rfl, rfl, rfl, fun _ => Function.update_self .., ?_, fun a ha => ?_⟩
    · rw [hcomma]
      rfl
    · rw [cut, if_pos hcomma]
      exact Function.update_self ..
    · exact Function.update_of_ne ha ..
  · rw [if_neg hcomma, if_neg hc]
    refine ⟨hret, hstate, ?_, rfl, rfl, rfl, fun h => absurd h hcomma, ?_, fun _ _ => rfl⟩
    · rw [List.count_singleton, if_neg (by simpa using hcomma)]
      rfl
    · rw [cut, if_neg hcomma]
      exact hcell

theorem TextScanned.cons {n : ℕ} {c : UInt8} {text : List UInt8} {s₁ : Scan} (h : CharScanned sentence n c s s₁)
    (hrest : TextScanned sentence (n + 1) text s₁ s') (hold : ∀ j < s₁.terms, s'.gps.term j = s₁.gps.term j) :
    TextScanned sentence n (c :: text) s s' where
  ret := hrest.ret
  state := hrest.state
  terms := by
    rw [hrest.terms, h.terms, Nat.add_assoc, ← List.count_append]
    rfl
  parity := by
    rw [hrest.parity, h.parity]
    rfl
  valid := hrest.valid.trans h.valid
  altitude := hrest.altitude.trans h.altitude
  term := by
    intro i hi
    cases i with
    | zero =>
      obtain rfl : c = comma := by simpa using hi
      rw [List.take_zero, List.count_nil, Nat.add_zero, hold _ (by rw [h.terms]; simp), h.term rfl]
    | succ i =>
      have hi' : text[i]? = some comma := by simpa using hi
      have hterm := hrest.term i hi'
      rw [h.terms, Nat.add_assoc, ← List.count_append] at hterm
      rw [List.take_succ_cons, show sentence + n + (i + 1) + 1 = sentence + (n + 1) + i + 1 by omega]
      exact hterm
  cells := by
    rw [List.map_cons, Cells.at_cons]
    refine ⟨?_, hrest.cells⟩
    rw [hrest.frame _ (Or.inl (by omega)), h.cell]
  frame := by
    intro a ha
    rw [List.length_cons] at ha
    rw [hrest.frame a (by omega), h.frame a (by omega)]

variable (feet kind) in
/-- **A text without a `*`** is taken to its end, unless the scan ends in it. -/
theorem scan_text (text : List UInt8) (n : ℕ) (s : Scan) (hret : s.ret = none) (hstate : s.state = .text)
    (hstar : star ∉ text) (hat : Cells.At s.mem (sentence + n) text) :
    ((final (gpsStep feet kind sentence) s (List.range' n text.length)).ret = some false ∧ ¬ Passes s.terms text) ∨
      TextScanned sentence n text s (final (gpsStep feet kind sentence) s (List.range' n text.length)) := by
  induction text generalizing n s with
  | nil =>
    refine Or.inr ⟨hret, hstate, rfl, rfl, rfl, rfl, fun i hi => ?_, rfl, fun _ _ => rfl⟩
    exact absurd hi (by simp)
  | cons c text ih =>
    obtain ⟨hc, htail⟩ := (Cells.at_cons ..).mp hat
    obtain ⟨hcstar, hstar'⟩ := not_or.mp (mt List.mem_cons.mpr hstar)
    rw [List.length_cons, List.range'_succ, final_cons]
    cases hends : scanEnds c s.terms with
    | true =>
      rw [gpsStep_ends hret hc hends, final_done rfl]
      refine Or.inl ⟨rfl, fun hpass => ?_⟩
      have hline := hpass.1 c List.mem_cons_self
      have hterms := hpass.2
      simp only [scanEnds, Bool.or_eq_true, beq_iff_eq, hline.1, hline.2, false_or] at hends
      omega
    | false =>
      have hchar : CharScanned sentence n c s (gpsStep feet kind sentence s n).1 :=
        scan_char hret hstate (Ne.symm hcstar) hc hends
      have hat' : Cells.At (gpsStep feet kind sentence s n).1.mem (sentence + (n + 1)) text := by
        exact htail.congr fun k _ => hchar.frame _ (by omega)
      rcases ih (n + 1) _ hchar.ret hchar.state hstar' hat' with ⟨hstop, hfail⟩ | hrest
      · refine Or.inl ⟨hstop, fun hpass => hfail ⟨fun c hc => hpass.1 c (List.mem_cons_of_mem _ hc), ?_⟩⟩
        rw [hchar.terms, Nat.add_assoc, ← List.count_append]
        exact hpass.2
      · exact Or.inr (hrest.cons hchar (final_term feet kind sentence _ _).2)

/-! ### A checksum -/

theorem gpsStep_star {n : ℕ} (hret : s.ret = none) (hstate : s.state = .text) (hcell : s.mem (sentence + n) = star)
    (hterms : s.terms ≠ maxTerms) : gpsStep feet kind sentence s n = (s.starred sentence n, []) := by
  have hends : scanEnds star s.terms = false := by
    rw [scanEnds, beq_eq_false_iff_ne.mpr hterms]
    rfl
  rw [gpsStep_text hret hstate hcell hends]
  rfl

/-- Behind the `*` at `n` and the first digit of its checksum. -/
def Scan.half (sentence n : ℕ) (h : UInt8) (s : Scan) : Scan := (scanMsb sentence (n + 1) h (s.starred sentence n)).1

/-- A `*` and two characters that do not end the scan. -/
theorem scan_group {n : ℕ} {h l : UInt8} (hret : s.ret = none) (hstate : s.state = .text)
    (hat : Cells.At s.mem (sentence + n) [star, h, l]) (hterms : s.terms + 1 < maxTerms)
    (hh : scanEnds h s.terms = false) (hl : scanEnds l (s.terms + 1) = false) :
    final (gpsStep feet kind sentence) s [n, n + 1, n + 1 + 1] = scanLsb feet kind l (s.half sentence n h) := by
  obtain ⟨hc, hrest⟩ := (Cells.at_cons ..).mp hat
  obtain ⟨hh', hrest⟩ := (Cells.at_cons ..).mp (hrest.update_of_lt (Nat.lt_succ_self _) 0)
  obtain ⟨hl', -⟩ := (Cells.at_cons ..).mp hrest
  have hmsb : gpsStep feet kind sentence (s.starred sentence n) (n + 1) =
      scanMsb sentence (n + 1) h (s.starred sentence n) := gpsStep_msb hret rfl hh' hh
  have hlsb : gpsStep feet kind sentence (s.half sentence n h) (n + 1 + 1) =
      (scanLsb feet kind l (s.half sentence n h), []) := gpsStep_lsb hret rfl hl' hl
  rw [final_cons, final_cons, final_cons, final_nil, gpsStep_star hret hstate hc (by omega), hmsb]
  exact congrArg Prod.fst hlsb

/-! ### The sentence -/

/-- The type of a sentence, if `gps_parse` scans it. -/
def scannedAs (sentence : List UInt8) : Option SentenceType :=
  if sentence.length ≤ minSentencenChars ∨ sentence.length > maxSentencenChars then none
  else if sentence.take 6 = gprmcHeader then some .gprmc
  else if sentence.take 6 = gpggaHeader then some .gpgga
  else none

theorem scannedAs_some {text : List UInt8} (h : scannedAs text = some kind) :
    7 < text.length ∧ text.length ≤ 80 ∧ text.take 6 = kind.header := by
  unfold scannedAs at h
  split_ifs at h with hlen hrmc hgga
  · obtain rfl := Option.some.inj h
    rw [not_or, Nat.not_le, Nat.not_lt] at hlen
    exact ⟨hlen.1, hlen.2, hrmc⟩
  · obtain rfl := Option.some.inj h
    rw [not_or, Nat.not_le, Nat.not_lt] at hlen
    exact ⟨hlen.1, hlen.2, hgga⟩

variable {gps : Gps} {mem : ℕ → UInt8} {len : ℕ}

/-- `gps_parse` does nothing with other sentences, and runs the loop over these. -/
theorem gpsParse_eq : gpsParse feet gps mem sentence len =
    match scannedAs (Cells.slice mem sentence len) with
    | none => ⟨gps, mem, false, []⟩
    | some kind =>
      let s := Scan.start gps mem kind
      let s' := final (gpsStep feet kind sentence) s (List.range' 6 (len - 6))
      ⟨s'.gps, s'.mem, s'.ret = some true, outs (gpsStep feet kind sentence) s (List.range' 6 (len - 6))⟩ := by
  rw [gpsParse, scannedAs, Cells.length_slice]
  split_ifs with hlen hrmc hgga
  · rfl
  all_goals
    have htake : (Cells.slice mem sentence len).take 6 = Cells.slice mem sentence 6 := by
      rw [not_or, Nat.not_le] at hlen
      obtain ⟨k, rfl⟩ := Nat.exists_eq_add_of_le (show 6 ≤ len from Nat.le_of_lt (Nat.lt_trans (by decide) hlen.1))
      rw [Cells.slice_add, List.take_left' (Cells.length_slice ..)]
  · rw [sentenceType, ← htake, if_pos hrmc]
  · rw [sentenceType, ← htake, if_neg hrmc, if_pos hgga]
  · rw [sentenceType, ← htake, if_neg hrmc, if_neg hgga]

variable (feet gps)

theorem gpsParse_none (h : scannedAs (Cells.slice mem sentence len) = none) :
    gpsParse feet gps mem sentence len = ⟨gps, mem, false, []⟩ := by
  rw [gpsParse_eq, h]

theorem gpsParse_some (h : scannedAs (Cells.slice mem sentence len) = some kind) :
    gpsParse feet gps mem sentence len =
      ⟨(final (gpsStep feet kind sentence) (.start gps mem kind) (List.range' 6 (len - 6))).gps,
        (final (gpsStep feet kind sentence) (.start gps mem kind) (List.range' 6 (len - 6))).mem,
        (final (gpsStep feet kind sentence) (.start gps mem kind) (List.range' 6 (len - 6))).ret = some true,
        outs (gpsStep feet kind sentence) (.start gps mem kind) (List.range' 6 (len - 6))⟩ := by
  rw [gpsParse_eq, h]

omit feet gps in
theorem at_drop (h : scannedAs (Cells.slice mem sentence len) = some kind) :
    Cells.At mem (sentence + 6) ((Cells.slice mem sentence len).drop 6) := by
  obtain ⟨hlen, -⟩ := scannedAs_some h
  rw [Cells.length_slice] at hlen
  obtain ⟨k, rfl⟩ := Nat.exists_eq_add_of_le (show 6 ≤ len by omega)
  rw [Cells.slice_add, List.drop_left' (Cells.length_slice ..), Cells.At, Cells.length_slice]

end TinyAprs
