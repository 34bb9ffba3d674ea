/-
# A packet is repeated once

The cache of messages seen lately is a ring: `cacheIndex` is 0 only while it
is empty and then goes round 1 to 8, the entry behind it is written next, and
a search looks at all eight. So a message stays in it until eight others are
recorded (`Kept`), and a copy of it that is checked meanwhile, within the
interval, is a duplicate, whatever path it came by: the hash reads source,
destination and info only (`digi_repeats_once`).
-/
import TinyAprs.Digi

namespace TinyAprs

/-- A call of `digi_handle_aprs_message`. -/
structure DigiEvent where
  eeprom : Eeprom
  modem : AX25Ctx
  clock : Clock
  msg : AX25Msg

/-- What the digipeater does with it. -/
def DigiEvent.handle (e : DigiEvent) (d : DigiCache) : Digipeated :=
  digiHandleAprsMessage d e.eeprom e.modem e.clock e.msg

def digiRun (d : DigiCache) (es : List DigiEvent) : DigiCache := es.foldl (fun d e => (e.handle d).digi) d

/-- How many of the messages are recorded. -/
def recordedIn : DigiCache → List DigiEvent → ℕ
  | _, [] => 0
  | d, e :: es => (if (e.handle d).dup = some false then 1 else 0) + recordedIn (e.handle d).digi es

/-- Copies of one packet: the same source, destination and info. -/
structure SamePacket (msg msg' : AX25Msg) : Prop where
  src : msg'.src = msg.src
  dst : msg'.dst = msg.dst
  info : msg'.info.bytes msg'.len = msg.info.bytes msg.len

theorem SamePacket.hash {msg msg' : AX25Msg} (h : SamePacket msg msg') :
    digiCalcHash msg' = digiCalcHash msg := by
  rw [digiCalcHash, digiCalcHash, h.src, h.dst, h.info]

/-! ### One call -/

/-- A call that checks nothing, or finds a duplicate, leaves the cache alone
and sends nothing; one that finds none records the message. -/
theorem handle_cases (e : DigiEvent) (d : DigiCache) :
    ((e.handle d).dup = none ∧ (e.handle d).digi = d) ∨
    ((e.handle d).dup = some true ∧ (e.handle d).digi = d ∧ (e.handle d).sent = none ∧
      (e.handle d).air = [] ∧ d.search e.clock (digiCalcHash e.msg) cacheSize = true) ∨
    ((e.handle d).dup = some false ∧ (e.handle d).digi = d.record e.clock (digiCalcHash e.msg) ∧
      d.search e.clock (digiCalcHash e.msg) cacheSize = false) := by
  rcases digiScan_cases d e.eeprom e.modem e.clock e.msg e.msg.rptCnt 0 with ⟨hn, -⟩ | ⟨i, -, -, -, ht⟩
  · have hn : e.handle d = ⟨d, e.modem, none, none, []⟩ := hn
    rw [hn]
    exact Or.inl ⟨rfl, rfl⟩
  · have ht : e.handle d = digiTake d e.eeprom e.modem e.clock e.msg i := ht
    rw [ht, digiTake, digiCheckIsDuplicated]
    dsimp only
    cases hs : d.search e.clock (digiCalcHash e.msg) cacheSize with
    | true => exact Or.inr (Or.inl ⟨rfl, rfl, rfl, rfl, rfl⟩)
    | false =>
      refine Or.inr (Or.inr ?_)
      cases rewrite (settingsGetMycall e.eeprom) e.msg i with
      | none => exact ⟨rfl, rfl, rfl⟩
      | some msg => exact ⟨rfl, rfl, rfl⟩

theorem search_of_hit {d : DigiCache} {clock : Clock} {hash : UInt16} (hpos : d.cacheIndex > 0) :
    ∀ n {i : ℕ}, 1 ≤ i → i ≤ n → d.hit clock hash i = true → d.search clock hash n = true
  | 0, i, h1, h2, _ => by omega
  | n + 1, i, h1, h2, hhit => by
    rw [DigiCache.search, Bool.and_eq_true, decide_eq_true_eq, Bool.or_eq_true]
    refine ⟨hpos, ?_⟩
    rcases Nat.eq_or_lt_of_le h2 with rfl | h2
    · exact Or.inl hhit
    · exact Or.inr (search_of_hit hpos n h1 (by omega) hhit)

/-! ### The ring -/

theorem record_cacheIndex {d : DigiCache} (h : d.cacheIndex.toNat ≤ 8) (clock : Clock) (hash : UInt16) :
    (d.record clock hash).cacheIndex.toNat = d.cacheIndex.toNat % 8 + 1 := by
  have hadd : (d.cacheIndex + 1).toNat = d.cacheIndex.toNat + 1 := Cells.toNat_succ (by omega)
  have hrec : (d.record clock hash).cacheIndex =
      if (d.cacheIndex + 1).toNat > cacheSize then d.cacheIndex + 1 - 8 else d.cacheIndex + 1 := rfl
  rw [hrec]
  split_ifs with h8
  · change 8 < _ at h8
    rw [UInt8.toNat_sub_of_le _ _ (by rw [UInt8.le_iff_toNat_le]; show 8 ≤ _; omega), hadd]
    show d.cacheIndex.toNat + 1 - 8 = _
    omega
  · change ¬ 8 < _ at h8
    omega

theorem record_cache {d : DigiCache} (h : d.cacheIndex.toNat ≤ 8) (clock : Clock) (hash : UInt16) :
    (d.record clock hash).cache = Function.update d.cache (d.cacheIndex.toNat % 8)
      ⟨hash, currentTimeSeconds (clock 0)⟩ := by
  have hi := record_cacheIndex h clock hash
  have hrec : (d.record clock hash).cache = Function.update d.cache
      ((d.record clock hash).cacheIndex.toNat - 1) ⟨hash, currentTimeSeconds (clock 0)⟩ := rfl
  rw [hrec, hi, Nat.add_sub_cancel]

/-- The entry `e` was recorded, and `r` others since. -/
structure Kept (e : CacheEntry) (r : ℕ) (d : DigiCache) : Prop where
  index : 1 ≤ d.cacheIndex.toNat ∧ d.cacheIndex.toNat ≤ 8
  entry : ∃ j < 8, d.cache j = e ∧ d.cacheIndex.toNat - 1 = (j + r) % 8

theorem kept_record {d : DigiCache} (h : d.cacheIndex.toNat ≤ 8) (clock : Clock) (hash : UInt16) :
    Kept ⟨hash, currentTimeSeconds (clock 0)⟩ 0 (d.record clock hash) := by
  have hi := record_cacheIndex h clock hash
  refine ⟨by omega, d.cacheIndex.toNat % 8, by omega, ?_, by omega⟩
  rw [record_cache h, Function.update_self]

/-- Another message is recorded: up to the seventh, the entry stays. -/
theorem Kept.record {e : CacheEntry} {r : ℕ} {d : DigiCache} (h : Kept e r d) (hr : r < 7) (clock : Clock)
    (hash : UInt16) : Kept e (r + 1) (d.record clock hash) := by
  obtain ⟨⟨h1, h8⟩, j, hj, he, hd⟩ := h
  have hi := record_cacheIndex h8 clock hash
  refine ⟨by omega, j, hj, ?_, by omega⟩
  rw [record_cache h8, Function.update_of_ne (by omega), he]

theorem Kept.run {e : CacheEntry} (es : List DigiEvent) {r : ℕ} {d : DigiCache} (h : Kept e r d)
    (hr : r + recordedIn d es ≤ 7) : Kept e (r + recordedIn d es) (digiRun d es) := by
  induction es generalizing r d with
  | nil => exact h
  | cons x es ih =>
    unfold recordedIn at hr ⊢
    show Kept e _ (digiRun (x.handle d).digi es)
    rcases handle_cases x d with ⟨hdup, hd⟩ | ⟨hdup, hd, -⟩ | ⟨hdup, hd, -⟩
    · rw [hdup, hd, if_neg (by simp), Nat.zero_add] at hr ⊢
      exact ih h hr
    · rw [hdup, hd, if_neg (by simp), Nat.zero_add] at hr ⊢
      exact ih h hr
    · rw [hdup, if_pos rfl, ← Nat.add_assoc] at hr ⊢
      have hk : Kept e (r + 1) (x.handle d).digi := hd ▸ h.record (by omega) x.clock _
      exact ih hk hr

theorem cacheIndex_run (es : List DigiEvent) {d : DigiCache} (h : d.cacheIndex.toNat ≤ 8) :
    (digiRun d es).cacheIndex.toNat ≤ 8 := by
  induction es generalizing d with
  | nil => exact h
  | cons x es ih =>
    refine ih (d := (x.handle d).digi) ?_
    rcases handle_cases x d with ⟨-, hd⟩ | ⟨-, hd, -⟩ | ⟨-, hd, -⟩
    · rw [hd]; exact h
    · rw [hd]; exact h
    · rw [hd, record_cacheIndex h]; omega

/-! ### The window -/

theorem toInt_ofNat_ms {ms : ℕ} (h : ms < 2 ^ 31) : (Int32.ofNat ms).toInt = ms := by
  rw [Int32.toInt_ofNat']
  refine Int.bmod_eq_of_le ?_ ?_
  · simp only [Int32.size]; omega
  · simp only [Int32.size]; omega

theorem currentTimeSeconds_eq {ms : ℕ} (h : ms < 2 ^ 31) :
    currentTimeSeconds ms = UInt32.ofNat (ms / 1000) := by
  have hdiv : Int32.ofNat ms / 1000 = Int32.ofNat (ms / 1000) := by
    refine Int32.toInt_inj.mp ?_
    rw [Int32.toInt_div, toInt_ofNat_ms h, toInt_ofNat_ms (by omega)]
    show ((ms : ℤ).tdiv 1000).bmod (2 ^ 32) = _
    rw [Int.tdiv_eq_ediv_of_nonneg (by omega)]
    exact Int.bmod_eq_of_le (by omega) (by omega)
  rw [currentTimeSeconds, hdiv, Int32.toUInt32_ofNat']

/-- Within the interval by the seconds of the code, and by those of the clock. -/
theorem recently_iff {t t' : ℕ} (hle : t ≤ t') (hlt : t' < 2 ^ 31) :
    currentTimeSeconds t' - currentTimeSeconds t < dupCheckInterval ↔ t' / 1000 - t / 1000 < 15 := by
  rw [currentTimeSeconds_eq hlt, currentTimeSeconds_eq (by omega), UInt32.lt_iff_toNat_lt,
    UInt32.toNat_sub, UInt32.toNat_ofNat', UInt32.toNat_ofNat']
  show _ < 15 ↔ _
  omega

theorem Kept.search {hash : UInt16} {t r : ℕ} {d : DigiCache} {clock : Clock}
    (h : Kept ⟨hash, currentTimeSeconds t⟩ r d)
    (hclock : ∀ i ≤ cacheSize, t ≤ clock i ∧ clock i < 2 ^ 31 ∧ clock i / 1000 - t / 1000 < 15) :
    d.search clock hash cacheSize = true := by
  obtain ⟨⟨h1, h8⟩, j, hj, he, -⟩ := h
  have hpos : d.cacheIndex > 0 := by
    rw [gt_iff_lt, UInt8.lt_iff_toNat_lt]
    exact h1
  -- the round that looks at entry `j`
  obtain ⟨i, hi1, hi8, hslot⟩ : ∃ i, 1 ≤ i ∧ i ≤ 8 ∧ (d.cacheIndex.toNat - 1 + i) % 8 = j :=
    ⟨(j + 16 - d.cacheIndex.toNat) % 8 + 1, by omega, by omega, by omega⟩
  refine search_of_hit hpos cacheSize hi1 hi8 ?_
  obtain ⟨hle, hlt, hin⟩ := hclock i hi8
  have hslot : d.slot i = j := hslot
  rw [DigiCache.hit, hslot, he, Bool.and_eq_true, decide_eq_true_eq]
  exact ⟨beq_self_eq_true hash, (recently_iff hle hlt).mpr hin⟩

/-- **A packet is repeated at most once in a window.** From `digi_init` and in
any sequence of messages: after a message was checked and not found to be a
duplicate, a copy of it that is checked less than 15 seconds later, with at
most seven others recorded in between, is a duplicate and is not sent. -/
theorem digi_repeats_once (pre mid : List DigiEvent) (e₁ e₂ : DigiEvent)
    (hfirst : (e₁.handle (digiRun digiInit pre)).dup = some false) (hsame : SamePacket e₁.msg e₂.msg)
    (hmid : recordedIn (e₁.handle (digiRun digiInit pre)).digi mid ≤ cacheSize - 1)
    (hclock : ∀ i ≤ cacheSize, e₁.clock 0 ≤ e₂.clock i ∧ e₂.clock i < 2 ^ 31)
    (hwindow : ∀ i ≤ cacheSize, e₂.clock i / 1000 - e₁.clock 0 / 1000 < 15)
    (hchecked : (e₂.handle (digiRun digiInit (pre ++ e₁ :: mid))).dup ≠ none) :
    (e₂.handle (digiRun digiInit (pre ++ e₁ :: mid))).dup = some true ∧
      (e₂.handle (digiRun digiInit (pre ++ e₁ :: mid))).sent = none ∧
      (e₂.handle (digiRun digiInit (pre ++ e₁ :: mid))).air = [] := by
  have hidx : (digiRun digiInit pre).cacheIndex.toNat ≤ 8 := cacheIndex_run pre (Nat.zero_le 8)
  have hrec : (e₁.handle (digiRun digiInit pre)).digi =
      (digiRun digiInit pre).record e₁.clock (digiCalcHash e₁.msg) := by
    rcases handle_cases e₁ (digiRun digiInit pre) with ⟨hdup, -⟩ | ⟨hdup, -⟩ | ⟨-, hd, -⟩
    · rw [hfirst] at hdup; cases hdup
    · rw [hfirst] at hdup; cases hdup
    · exact hd
  have hrun : digiRun digiInit (pre ++ e₁ :: mid) = digiRun (e₁.handle (digiRun digiInit pre)).digi mid := by
    rw [digiRun, List.foldl_append]
    rfl
  have hkept : Kept ⟨digiCalcHash e₂.msg, currentTimeSeconds (e₁.clock 0)⟩
      (0 + recordedIn (e₁.handle (digiRun digiInit pre)).digi mid) (digiRun digiInit (pre ++ e₁ :: mid)) := by
    rw [hrun, hsame.hash]
    refine Kept.run mid ?_ (by change _ ≤ 7 at hmid; omega)
    rw [hrec]
    exact kept_record hidx e₁.clock (digiCalcHash e₁.msg)
  have hfound := hkept.search fun i hi => ⟨(hclock i hi).1, (hclock i hi).2, hwindow i hi⟩
  rcases handle_cases e₂ (digiRun digiInit (pre ++ e₁ :: mid)) with
    ⟨hdup, -⟩ | ⟨hdup, -, hsent, hair, -⟩ | ⟨-, -, hnone⟩
  · exact absurd hdup hchecked
  · exact ⟨hdup, hsent, hair⟩
  · rw [hfound] at hnone
    cases hnone

/-- A packet via WIDE1-1, as it comes in at `ms`. -/
def heardAt (ms : ℕ) : DigiEvent where
  eeprom := fun _ => 0xFF
  modem := ax25Init true
  clock := fun _ => ms
  msg := { zeroMsg with
    rptLst := fun _ => defaultCalldata.path1
    rptCnt := 1
    len := 1 }

theorem digi_repeats_once_heardAt : ((heardAt 20000).handle (digiRun digiInit [heardAt 10000])).dup = some true ∧
    ((heardAt 20000).handle (digiRun digiInit [heardAt 10000])).sent = none ∧
    ((heardAt 20000).handle (digiRun digiInit [heardAt 10000])).air = [] :=
  digi_repeats_once [] [] (heardAt 10000) (heardAt 20000) (by decide +kernel) ⟨rfl, rfl, rfl⟩ (by decide)
    (fun i _ => by show 10000 ≤ 20000 ∧ 20000 < 2 ^ 31; decide)
    (fun i _ => by show 20000 / 1000 - 10000 / 1000 < 15; decide) (by decide +kernel)

end TinyAprs
