/-
# The GPS sentences

The model of `gps_parse` (`gps.c`), and of how `tracker_poll` (`tracker.c`)
feeds it. A sentence is scanned in place: each comma and each `*` is
overwritten with a NUL, and `_term` gets a pointer to what stands behind it.
Memory is one array of bytes, a pointer is an address, and `NULL` is 0, so
that a pointer left by an earlier sentence, or by none, reads whatever is
there.

The loop is a Mealy machine over the index `n`: it goes on for every `n`, and
does nothing once the function has returned or left the loop (`Scan.ret`).
What it puts out are the assignments to `_term`. The altitude is computed in
floating point; what `lroundf` makes of the string at a pointer is a
parameter, `feet`.
-/
import TinyAprs.Lib.Cells
import TinyAprs.Lib.Mealy
import TinyAprs.Serial

namespace TinyAprs

open Mealy

/-! ### The parser -/

def maxTerms : ℕ := 16
def maxSentencenChars : ℕ := 80
def minSentencenChars : ℕ := 7

def gprmcTermStatus : ℕ := 1
def gpggaTermFixquality : ℕ := 5
def gpggaTermAltitude : ℕ := 8

/-- `,` -/
def comma : UInt8 := 0x2c
/-- `*` -/
def star : UInt8 := 0x2a

/-- `struct GPS` -/
structure Gps where
  valid : Bool
  term : ℕ → ℕ
  altitude : UInt16

/-- What `gps_init` leaves there. -/
def gpsInit : Gps := ⟨false, fun _ => 0, 0⟩

/-- A `char` as an `int`; it is signed. -/
def charInt (c : UInt8) : Int16 := c.toInt8.toInt16

/-- `nmea_dehex` -/
def nmeaDehex (a : UInt8) : Int16 := if charInt a ≥ 65 then charInt a - 55 else charInt a - 48

/-- `sentenceType`: 1 and 2. -/
inductive SentenceType
  | gprmc
  | gpgga
deriving DecidableEq, Repr

/-- `state`: 0, 1 and 2. -/
inductive ScanState
  | text
  | msb
  | lsb
deriving DecidableEq, Repr

/-- `$GPRMC` -/
def gprmcHeader : List UInt8 := [0x24, 0x47, 0x50, 0x52, 0x4d, 0x43]
/-- `$GPGGA` -/
def gpggaHeader : List UInt8 := [0x24, 0x47, 0x50, 0x47, 0x47, 0x41]

def SentenceType.header : SentenceType → List UInt8
  | .gprmc => gprmcHeader
  | .gpgga => gpggaHeader

/-- `GPRMC_PARITY_INITIAL` and `GPGGA_PARITY_INITIAL` -/
def SentenceType.parityInitial : SentenceType → Int16
  | .gprmc => 0x4b
  | .gpgga => 0x56

/-- The variables of the loop; `ret` is what the function returns, once it is
known. -/
structure Scan where
  gps : Gps
  mem : ℕ → UInt8
  parity : Int16
  state : ScanState
  terms : ℕ
  ret : Option Bool

/-- An assignment to `_term`. -/
structure TermSet where
  index : ℕ
  ptr : ℕ
deriving DecidableEq, Repr

/-- `gps->_term[terms++] = ptr` -/
def Scan.setTerm (s : Scan) (ptr : ℕ) : Scan :=
  { s with gps.term := Function.update s.gps.term s.terms ptr, terms := s.terms + 1 }

/-- `case 0` -/
def scanText (sentence n : ℕ) (c : UInt8) (s : Scan) : Scan × List TermSet :=
  if c = comma then
    ({ s with mem := Function.update s.mem (sentence + n) 0, parity := s.parity ^^^ charInt c }.setTerm
      (sentence + n + 1), [⟨s.terms, sentence + n + 1⟩])
  else if c = star then ({ s with mem := Function.update s.mem (sentence + n) 0, state := .msb }, [])
  else ({ s with parity := s.parity ^^^ charInt c }, [])

/-- `case 1` -/
def scanMsb (sentence n : ℕ) (c : UInt8) (s : Scan) : Scan × List TermSet :=
  ({ s.setTerm (sentence + n) with parity := s.parity - 16 * nmeaDehex c, state := .lsb },
    [⟨s.terms, sentence + n⟩])

/-- `gps->valid`, when the checksum was correct. -/
def termValid (kind : SentenceType) (s : Scan) : Bool :=
  match kind with
  | .gprmc => s.mem (s.gps.term gprmcTermStatus) == 0x41
  | .gpgga => s.mem (s.gps.term gpggaTermFixquality) != 0x30

/-- What follows a correct checksum. -/
def scanCorrect (feet : (ℕ → UInt8) → ℕ → UInt16) (kind : SentenceType) (s : Scan) : Scan :=
  let valid := termValid kind s
  let s := { s with gps.valid := valid }
  if valid then
    match kind with
    | .gpgga => { s with gps.altitude := feet s.mem (s.gps.term gpggaTermAltitude), ret := some false }
    | .gprmc => { s with ret := some true }
  else s

/-- `case 2` -/
def scanLsb (feet : (ℕ → UInt8) → ℕ → UInt16) (kind : SentenceType) (c : UInt8) (s : Scan) : Scan :=
  let s := { s with state := .text, parity := s.parity - nmeaDehex c }
  if s.parity = 0 then scanCorrect feet kind s else s

/-- The loop is left before `c`. -/
def scanEnds (c : UInt8) (terms : ℕ) : Bool := c == 0x0a || c == 0x0d || terms == maxTerms

/-- A round of the loop, for `n`. -/
def gpsStep (feet : (ℕ → UInt8) → ℕ → UInt16) (kind : SentenceType) (sentence : ℕ) (s : Scan) (n : ℕ) :
    Scan × List TermSet :=
  if s.ret.isSome then (s, [])
  else
    let c := s.mem (sentence + n)
    if scanEnds c s.terms then ({ s with ret := some false }, [])
    else
      match s.state with
      | .text => scanText sentence n c s
      | .msb => scanMsb sentence n c s
      | .lsb => (scanLsb feet kind c s, [])

/-- `strncmp_P` with each of the headers. -/
def sentenceType (mem : ℕ → UInt8) (sentence : ℕ) : Option SentenceType :=
  if Cells.slice mem sentence 6 = gprmcHeader then some .gprmc
  else if Cells.slice mem sentence 6 = gpggaHeader then some .gpgga
  else none

/-- What `gps_parse` does: the GPS and the memory after it, what it returns,
and the terms it set. -/
structure Parsed where
  gps : Gps
  mem : ℕ → UInt8
  ret : Bool
  sets : List TermSet

def Scan.start (gps : Gps) (mem : ℕ → UInt8) (kind : SentenceType) : Scan :=
  ⟨gps, mem, kind.parityInitial, .text, 0, none⟩

/-- `gps_parse` -/
def gpsParse (feet : (ℕ → UInt8) → ℕ → UInt16) (gps : Gps) (mem : ℕ → UInt8) (sentence len : ℕ) : Parsed :=
  if len ≤ minSentencenChars ∨ len > maxSentencenChars then ⟨gps, mem, false, []⟩
  else
    match sentenceType mem sentence with
    | none => ⟨gps, mem, false, []⟩
    | some kind =>
      let s := Scan.start gps mem kind
      let s' := final (gpsStep feet kind sentence) s (List.range' 6 (len - 6))
      ⟨s'.gps, s'.mem, s'.ret = some true, outs (gpsStep feet kind sentence) s (List.range' 6 (len - 6))⟩

/-! ### The tracker's line -/

/-- The memory with the reader's buffer, how far the line in it goes, and the
GPS. -/
structure GpsLine where
  mem : ℕ → UInt8
  readLen : UInt8
  gps : Gps

/-- A call of `gps_parse`: the memory and the GPS before it, the sentence's
length, and what it does. -/
structure ParseCall where
  mem : ℕ → UInt8
  gps : Gps
  len : ℕ
  result : Parsed

/-- `tracker_poll` when the serial line has a character: `buf` is the address
of the reader's buffer. -/
def trackerPollChar (feet : (ℕ → UInt8) → ℕ → UInt16) (buf : ℕ) (s : GpsLine) (c : UInt8) :
    GpsLine × List ParseCall :=
  let r := readlineChar ⟨fun k => s.mem (buf + k), readerBufLen, s.readLen⟩ c
  let mem := fun a => if buf ≤ a then r.1.buf (a - buf) else s.mem a
  if r.2 > 0 then
    let q := gpsParse feet s.gps mem buf r.2
    (⟨q.mem, r.1.readLen, q.gps⟩, [⟨mem, s.gps, r.2, q⟩])
  else (⟨mem, r.1.readLen, s.gps⟩, [])

end TinyAprs
