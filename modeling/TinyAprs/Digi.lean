/-
# The digipeater

The model of `digi.c`. `digi_handle_aprs_message` looks for the first entry
of the path that is WIDE1, WIDE2 or WIDE3 with hops left and not yet
repeated, checks the message against the cache of those seen lately, puts
its own call in the entry's place, and sends the message on; with more than
one hop left, the rest of them goes to the next entry.

The check reads the clock in each round of its search and once more when it
records the message: a `Clock` is what each round reads, in milliseconds,
with round 0 for the record. The debug output on the serial line is left
out.
-/
import TinyAprs.Settings

namespace TinyAprs

/-- `CACHE_SIZE` -/
abbrev cacheSize : ℕ := 8
/-- `DUP_CHECK_INTERVAL`, in seconds. -/
def dupCheckInterval : UInt32 := 15

/-- `CacheEntry` -/
structure CacheEntry where
  hash : UInt16
  timestamp : UInt32
deriving DecidableEq, Repr

/-- `cache` and `cacheIndex` -/
structure DigiCache where
  cache : ℕ → CacheEntry
  cacheIndex : UInt8

/-- `digi_init` -/
def digiInit : DigiCache := ⟨fun _ => ⟨0, 0⟩, 0⟩

/-- What the rounds of a check read from the clock, in milliseconds. -/
abbrev Clock : Type := ℕ → ℕ

/-- `CURRENT_TIME_SECONDS()` at a clock of `ms`. -/
def currentTimeSeconds (ms : ℕ) : UInt32 := (Int32.ofNat ms / 1000).toUInt32

/-! ### Messages seen lately -/

/-- `hash * 31 + c` -/
def hashStep (hash c : UInt16) : UInt16 := hash * 31 + c

/-- A `char`, which is signed. -/
def charVal (c : UInt8) : UInt16 := c.toInt8.toInt16.toUInt16

def hashCall (hash : UInt16) (addr : AX25Call) : UInt16 :=
  hashStep ((addr.call.toList.map charVal).foldl hashStep hash) addr.ssid.toUInt16

/-- `_digi_calc_hash` -/
def digiCalcHash (msg : AX25Msg) : UInt16 :=
  let hash := hashCall 0 msg.src
  let hash := hashCall hash msg.dst
  ((msg.info.bytes msg.len).map UInt8.toUInt16).foldl hashStep hash

/-- The entry round `i` of the search looks at. -/
def DigiCache.slot (d : DigiCache) (i : ℕ) : ℕ := (d.cacheIndex.toNat - 1 + i) % cacheSize

/-- Whether that entry is the message, and lately. -/
def DigiCache.hit (d : DigiCache) (clock : Clock) (hash : UInt16) (i : ℕ) : Bool :=
  let e := d.cache (d.slot i)
  e.hash == hash && decide (currentTimeSeconds (clock i) - e.timestamp < dupCheckInterval)

/-- The search, with `i` rounds left. -/
def DigiCache.search (d : DigiCache) (clock : Clock) (hash : UInt16) : ℕ → Bool
  | 0 => false
  | i + 1 => d.cacheIndex > 0 && (d.hit clock hash (i + 1) || d.search clock hash i)

/-- The message is put into the next entry. -/
def DigiCache.record (d : DigiCache) (clock : Clock) (hash : UInt16) : DigiCache :=
  let i := d.cacheIndex + 1
  let i := if i.toNat > cacheSize then i - 8 else i
  ⟨Function.update d.cache (i.toNat - 1) ⟨hash, currentTimeSeconds (clock 0)⟩, i⟩

/-- `_digi_check_is_duplicated` -/
def digiCheckIsDuplicated (d : DigiCache) (clock : Clock) (msg : AX25Msg) : DigiCache × Bool :=
  let hash := digiCalcHash msg
  let dup := d.search clock hash cacheSize
  (if dup then d else d.record clock hash, dup)

/-! ### The path -/

/-- `tolower` -/
def tolower (c : UInt8) : UInt8 := if 0x41 ≤ c ∧ c ≤ 0x5a then c + 0x20 else c

/-- `strncasecmp(a, b, n) == 0` -/
def strncasecmpEq : ℕ → List UInt8 → List UInt8 → Bool
  | n + 1, a :: as, b :: bs => tolower a == tolower b && (a == 0 || strncasecmpEq n as bs)
  | 0, _, _ => true
  | _, _, _ => false

/-- `WIDE1`, `WIDE2` or `WIDE3`, in either case. -/
def isWide (addr : AX25Call) : Bool :=
  strncasecmpEq 5 addr.call.toList [0x57, 0x49, 0x44, 0x45, 0x31] ||
    strncasecmpEq 5 addr.call.toList [0x57, 0x49, 0x44, 0x45, 0x32] ||
    strncasecmpEq 5 addr.call.toList [0x57, 0x49, 0x44, 0x45, 0x33]

/-- Whether the digipeater takes entry `i` for itself. -/
def rptRequired (msg : AX25Msg) (i : ℕ) : Bool :=
  isWide (msg.rptLst i) && decide ((msg.rptLst i).ssid > 0) && !ax25Repeated msg i

/-- `AX25_SET_REPEATED` -/
def AX25Msg.setRpt (msg : AX25Msg) (i : ℕ) (val : Bool) : AX25Msg :=
  { msg with rptFlags := setRepeated msg.rptFlags i val }

/-- The call that stands for the rest of the hops: five characters of the
entry, and its SSID. -/
def wideRest (sta : AX25Call) : AX25Call :=
  ⟨Vector.ofFn fun k => if k.val < 5 then sta.call[k] else 0, sta.ssid⟩

/-- An entry with more than one hop left: one is taken, and the rest goes to
the next entry. `none` when there is no room for it. -/
def splitHops (msg : AX25Msg) (i : ℕ) : Option AX25Msg :=
  let sta := { msg.rptLst i with ssid := (msg.rptLst i).ssid - 1 }
  if i < ax25MaxRpt - 1 then
    let msg := { msg with rptLst := Function.update (Function.update msg.rptLst i sta) (i + 1) (wideRest sta) }
    let msg := msg.setRpt (i + 1) false
    some (if i = msg.rptCnt - 1 then { msg with rptCnt := msg.rptCnt + 1 } else msg)
  else none

/-- The digipeater's own call takes the entry, repeated. -/
def replaceBy (mycall : AX25Call) (msg : AX25Msg) (i : ℕ) : AX25Msg :=
  { msg with rptLst := Function.update msg.rptLst i mycall }.setRpt i true

/-- The message as it is sent on, entry `i` being the one that is taken. -/
def rewrite (mycall : AX25Call) (msg : AX25Msg) (i : ℕ) : Option AX25Msg :=
  if (msg.rptLst i).ssid > 1 then (splitHops msg i).map fun msg => replaceBy mycall msg i
  else some (replaceBy mycall msg i)

/-- What the digipeater does with a message: whether the message was checked,
and found to be a duplicate; the message it sends; and the channel bytes. -/
structure Digipeated where
  digi : DigiCache
  modem : AX25Ctx
  dup : Option Bool
  sent : Option AX25Msg
  air : List UInt8

/-- What is done with entry `i`, once it is found. -/
def digiTake (d : DigiCache) (ee : Eeprom) (modem : AX25Ctx) (clock : Clock) (msg : AX25Msg) (i : ℕ) :
    Digipeated :=
  let r := digiCheckIsDuplicated d clock msg
  if r.2 then ⟨r.1, modem, some true, none, []⟩
  else match rewrite (settingsGetMycall ee) msg i with
    | none => ⟨r.1, modem, some false, none, []⟩
    | some msg =>
      let s := ax25SendMsg modem msg
      ⟨r.1, s.1, some false, some msg, s.2⟩

/-- The loop of `digi_handle_aprs_message`, from entry `i` with `n` left. -/
def digiScan (d : DigiCache) (ee : Eeprom) (modem : AX25Ctx) (clock : Clock) (msg : AX25Msg) :
    ℕ → ℕ → Digipeated
  | _, 0 => ⟨d, modem, none, none, []⟩
  | i, n + 1 =>
    if rptRequired msg i then digiTake d ee modem clock msg i
    else digiScan d ee modem clock msg (i + 1) n

/-- `digi_handle_aprs_message` -/
def digiHandleAprsMessage (d : DigiCache) (ee : Eeprom) (modem : AX25Ctx) (clock : Clock) (msg : AX25Msg) :
    Digipeated :=
  digiScan d ee modem clock msg 0 msg.rptCnt

theorem digiScan_cases (d : DigiCache) (ee : Eeprom) (modem : AX25Ctx) (clock : Clock) (msg : AX25Msg) :
    ∀ n i, (digiScan d ee modem clock msg i n = ⟨d, modem, none, none, []⟩ ∧
        ∀ j, i ≤ j → j < i + n → rptRequired msg j = false) ∨
      ∃ j, i ≤ j ∧ j < i + n ∧ rptRequired msg j = true ∧
        digiScan d ee modem clock msg i n = digiTake d ee modem clock msg j
  | 0, i => Or.inl ⟨rfl, fun j h1 h2 => by omega⟩
  | n + 1, i => by
    unfold digiScan
    split_ifs with h
    · exact Or.inr ⟨i, Nat.le_refl i, by omega, h, rfl⟩
    · rcases digiScan_cases d ee modem clock msg n (i + 1) with ⟨h1, h2⟩ | ⟨j, h1, h2, h3, h4⟩
      · refine Or.inl ⟨h1, fun j hj1 hj2 => ?_⟩
        rcases Nat.eq_or_lt_of_le hj1 with rfl | hj1
        · simpa using h
        · exact h2 j hj1 (by omega)
      · exact Or.inr ⟨j, by omega, by omega, h3, h4⟩

end TinyAprs
