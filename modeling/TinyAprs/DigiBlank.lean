/-
# A packet heard for the first time

The search of the duplicate check looks at all eight entries of the cache as
soon as one of them is written. An entry that never was is the one
`digi_init` leaves, hash 0 at second 0, and looks like a message with the
hash 0 recorded at boot: for the first 15 seconds it makes a message with
that hash a duplicate that nobody has heard before. All other entries are
those of messages that were recorded (`Ring`), so there is no other way to
lose a packet (`digi_first_heard_iff`).
-/
import TinyAprs.Lib.Mealy
import TinyAprs.Ax25Msg
import TinyAprs.DigiDup

namespace TinyAprs

open Mealy

/-- A call of `_digi_check_is_duplicated`. -/
structure DupCheck where
  clock : Clock
  msg : AX25Msg

/-- A call, with the message if it is recorded. -/
def dupCheckStep (d : DigiCache) (c : DupCheck) : DigiCache × List DupCheck :=
  let r := digiCheckIsDuplicated d c.clock c.msg
  (r.1, if r.2 then [] else [c])

def dupCheckRun (cs : List DupCheck) : DigiCache := final dupCheckStep digiInit cs

/-- The messages recorded in a run, in order. -/
def recordsOf (cs : List DupCheck) : List DupCheck := outs dupCheckStep digiInit cs

/-- The clock does not go back, from one reading to the next: a search reads
it in rounds 8 to 1, and a record as round 0. It stays below `2^31`. -/
def ClockOrder : ℕ → List DupCheck → Prop
  | _, [] => True
  | t, c :: cs => t ≤ c.clock 8 ∧ (∀ i < 8, c.clock (i + 1) ≤ c.clock i) ∧ c.clock 0 < 2 ^ 31 ∧
    ClockOrder (c.clock 0) cs

/-- A message with the same hash is in `hist`, recorded less than 15 seconds
before the check. -/
def HeardBefore (hist : List DupCheck) (c : DupCheck) : Prop :=
  ∃ c₁ ∈ hist, digiCalcHash c₁.msg = digiCalcHash c.msg ∧ c.clock 8 < c₁.clock 0 + 15000

/-- The hash is 0, and in the first 15 seconds a round looks at an entry that
was never written, while others were, and none of them with the hash 0. -/
def BlankFound (hist : List DupCheck) (c : DupCheck) : Prop :=
  digiCalcHash c.msg = 0 ∧ hist ≠ [] ∧ (∃ i, 1 ≤ i ∧ i ≤ 8 - hist.length ∧ c.clock i < 15000) ∧
    ∀ c₁ ∈ hist, digiCalcHash c₁.msg ≠ 0

/-! ### The cache and what was recorded -/

/-- What a record puts into the cache. -/
def DupCheck.entry (c : DupCheck) : CacheEntry := ⟨digiCalcHash c.msg, currentTimeSeconds (c.clock 0)⟩

/-- The cache holds recorded messages, and blank entries behind them until
eight are recorded. -/
structure Ring (hist : List DupCheck) (d : DigiCache) : Prop where
  index : d.cacheIndex.toNat = if hist = [] then 0 else (hist.length - 1) % 8 + 1
  slots : ∀ j < 8, (hist.length ≤ j ∧ d.cache j = ⟨0, 0⟩) ∨
    (j < hist.length ∧ ∃ c ∈ hist, d.cache j = c.entry)

theorem ring_init : Ring [] digiInit := ⟨rfl, fun j _ => Or.inl ⟨Nat.zero_le j, rfl⟩⟩

theorem Ring.record {hist : List DupCheck} {d : DigiCache} (h : Ring hist d) (c : DupCheck) :
    Ring (hist ++ [c]) (d.record c.clock (digiCalcHash c.msg)) := by
  have hmod : d.cacheIndex.toNat % 8 = hist.length % 8 := by
    rw [h.index]
    split_ifs with h0
    · rw [h0]; rfl
    · have := List.length_pos_iff.mpr h0
      omega
  have h8 : d.cacheIndex.toNat ≤ 8 := by
    rw [h.index]
    split_ifs <;> omega
  refine ⟨?_, fun j hj => ?_⟩
  · rw [record_cacheIndex h8, hmod, if_neg (by simp), List.length_append]
    rfl
  · rw [record_cache h8, hmod, List.length_append, List.length_singleton]
    by_cases hjn : j = hist.length % 8
    · right
      refine ⟨by omega, c, by simp, ?_⟩
      rw [hjn, Function.update_self]
      rfl
    · rw [Function.update_of_ne hjn]
      rcases h.slots j hj with ⟨h1, h2⟩ | ⟨h1, c₁, hc₁, h2⟩
      · exact Or.inl ⟨by omega, h2⟩
      · exact Or.inr ⟨by omega, c₁, List.mem_append_left _ hc₁, h2⟩

theorem Ring.step {hist : List DupCheck} {d : DigiCache} (h : Ring hist d) (c : DupCheck) :
    Ring (hist ++ (dupCheckStep d c).2) (dupCheckStep d c).1 := by
  unfold dupCheckStep digiCheckIsDuplicated
  dsimp only
  cases hs : d.search c.clock (digiCalcHash c.msg) cacheSize with
  | true => simpa using h
  | false => simpa using h.record c

theorem Ring.run {hist : List DupCheck} {d : DigiCache} (h : Ring hist d) (cs : List DupCheck) :
    Ring (hist ++ outs dupCheckStep d cs) (final dupCheckStep d cs) := by
  induction cs generalizing hist d with
  | nil => simpa using h
  | cons c cs ih =>
    rw [outs_cons, final_cons, ← List.append_assoc]
    exact ih (h.step c)

theorem ring_run (cs : List DupCheck) : Ring (recordsOf cs) (dupCheckRun cs) := by
  have h := ring_init.run cs
  rwa [List.nil_append] at h

/-! ### The clock -/

theorem clock_anti {c : DupCheck} (h : ∀ i < 8, c.clock (i + 1) ≤ c.clock i) {i k : ℕ} (hik : i ≤ k)
    (hk : k ≤ 8) : c.clock k ≤ c.clock i := by
  induction k, hik using Nat.le_induction with
  | base => exact Nat.le_refl _
  | succ k hik ih => exact (h k (by omega)).trans (ih (by omega))

/-- Every check of an ordered run reads the clock after the messages before it
were recorded. -/
theorem clock_after {cs : List DupCheck} {c : DupCheck} {t : ℕ} (h : ClockOrder t (cs ++ [c])) :
    (∀ i < 8, c.clock (i + 1) ≤ c.clock i) ∧ c.clock 0 < 2 ^ 31 ∧ t ≤ c.clock 8 ∧
      ∀ c₁ ∈ cs, c₁.clock 0 ≤ c.clock 8 := by
  induction cs generalizing t with
  | nil => exact ⟨h.2.1, h.2.2.1, h.1, fun _ h => absurd h List.not_mem_nil⟩
  | cons x cs ih =>
    obtain ⟨h1, h2, -, hrest⟩ := h
    obtain ⟨i1, i2, i3, i4⟩ := ih hrest
    have hx : x.clock 8 ≤ x.clock 0 := clock_anti h2 (Nat.zero_le 8) (Nat.le_refl 8)
    refine ⟨i1, i2, by omega, fun c₁ hc₁ => ?_⟩
    rcases List.mem_cons.mp hc₁ with rfl | hc₁
    · exact i3
    · exact i4 c₁ hc₁

theorem recordsOf_mem {cs : List DupCheck} {c : DupCheck} (h : c ∈ recordsOf cs) : c ∈ cs := by
  unfold recordsOf at h
  generalize digiInit = d at h
  induction cs generalizing d with
  | nil => exact absurd h List.not_mem_nil
  | cons x cs ih =>
    rw [outs_cons, List.mem_append] at h
    rcases h with h | h
    · unfold dupCheckStep at h
      dsimp only at h
      split_ifs at h
      · exact absurd h List.not_mem_nil
      · rw [List.mem_singleton.mp h]
        exact List.mem_cons_self
    · exact List.mem_cons_of_mem x (ih _ h)

/-! ### The search -/

theorem hit_of_search {d : DigiCache} {clock : Clock} {hash : UInt16} (n : ℕ)
    (h : d.search clock hash n = true) : d.cacheIndex > 0 ∧ ∃ i, 1 ≤ i ∧ i ≤ n ∧ d.hit clock hash i = true := by
  induction n with
  | zero => exact absurd h (by simp [DigiCache.search])
  | succ n ih =>
    rw [DigiCache.search, Bool.and_eq_true, decide_eq_true_eq, Bool.or_eq_true] at h
    obtain ⟨hpos, hhit | hrest⟩ := h
    · exact ⟨hpos, n + 1, by omega, Nat.le_refl _, hhit⟩
    · obtain ⟨-, i, h1, h2, h3⟩ := ih hrest
      exact ⟨hpos, i, h1, by omega, h3⟩

theorem hit_iff (d : DigiCache) (clock : Clock) (hash : UInt16) (i : ℕ) : d.hit clock hash i = true ↔
    (d.cache (d.slot i)).hash = hash ∧
      currentTimeSeconds (clock i) - (d.cache (d.slot i)).timestamp < dupCheckInterval := by
  rw [DigiCache.hit, Bool.and_eq_true, beq_iff_eq, decide_eq_true_eq]

/-- The check finds a message that was heard before, or a blank entry. -/
theorem heard_or_blank {cs : List DupCheck} {c : DupCheck} (hclock : ClockOrder 0 (cs ++ [c]))
    (hdup : (digiCheckIsDuplicated (dupCheckRun cs) c.clock c.msg).2 = true) :
    HeardBefore (recordsOf cs) c ∨ BlankFound (recordsOf cs) c := by
  have hring := ring_run cs
  obtain ⟨hanti, hlt, -, hafter⟩ := clock_after hclock
  obtain ⟨hpos, i, hi1, hi8, hhit⟩ := hit_of_search cacheSize hdup
  change i ≤ 8 at hi8
  obtain ⟨hhash, htime⟩ := (hit_iff _ _ _ _).mp hhit
  have h0i : c.clock i ≤ c.clock 0 := clock_anti hanti (Nat.zero_le i) hi8
  have hi8' : c.clock 8 ≤ c.clock i := clock_anti hanti hi8 (Nat.le_refl 8)
  have hslot : (dupCheckRun cs).slot i < 8 := Nat.mod_lt _ (by decide)
  rcases hring.slots _ hslot with ⟨hblank, he⟩ | ⟨-, c₁, hc₁, he⟩
  · -- the blank entry is that of a hash 0 at time 0
    rw [he] at hhash htime
    have hsec : c.clock i / 1000 - 0 / 1000 < 15 :=
      (recently_iff (Nat.zero_le (c.clock i)) (by omega)).mp htime
    by_cases hzero : ∀ c₁ ∈ recordsOf cs, digiCalcHash c₁.msg ≠ 0
    · right
      have hne : recordsOf cs ≠ [] := by
        intro hnil
        have hidx := hring.index
        rw [if_pos hnil] at hidx
        rw [gt_iff_lt, UInt8.lt_iff_toNat_lt, hidx] at hpos
        exact absurd hpos (by decide)
      refine ⟨hhash.symm, hne, ⟨i, hi1, ?_, by omega⟩, hzero⟩
      have hidx := hring.index
      rw [if_neg hne] at hidx
      have hlen := List.length_pos_iff.mpr hne
      have hs : (dupCheckRun cs).slot i = ((dupCheckRun cs).cacheIndex.toNat - 1 + i) % 8 := rfl
      rw [hs, hidx] at hblank
      omega
    · left
      push Not at hzero
      obtain ⟨c₁, hc₁, h0⟩ := hzero
      exact ⟨c₁, hc₁, by rw [h0]; exact hhash, by omega⟩
  · left
    rw [he] at hhash htime
    have hle : c₁.clock 0 ≤ c.clock i := (hafter c₁ (recordsOf_mem hc₁)).trans hi8'
    have hsec := (recently_iff hle (by omega)).mp htime
    exact ⟨c₁, hc₁, hhash, by omega⟩

theorem dup_of_blank {cs : List DupCheck} {c : DupCheck} (h : BlankFound (recordsOf cs) c) :
    (digiCheckIsDuplicated (dupCheckRun cs) c.clock c.msg).2 = true := by
  have hring := ring_run cs
  obtain ⟨hhash, hne, ⟨i, hi1, hi8, htime⟩, -⟩ := h
  have hlen := List.length_pos_iff.mpr hne
  have hidx := hring.index
  rw [if_neg hne] at hidx
  have hpos : (dupCheckRun cs).cacheIndex > 0 := by
    rw [gt_iff_lt, UInt8.lt_iff_toNat_lt, hidx]
    exact Nat.succ_pos _
  refine search_of_hit hpos cacheSize hi1 (by show i ≤ 8; omega) ((hit_iff _ _ _ _).mpr ?_)
  have hs : (dupCheckRun cs).slot i = ((dupCheckRun cs).cacheIndex.toNat - 1 + i) % 8 := rfl
  rw [hidx] at hs
  have hblank : (dupCheckRun cs).cache ((dupCheckRun cs).slot i) = ⟨0, 0⟩ := by
    rcases hring.slots _ (show (dupCheckRun cs).slot i < 8 by omega) with ⟨-, he⟩ | ⟨hlt, -⟩
    · exact he
    · omega
  rw [hblank]
  exact ⟨hhash.symm, (recently_iff (Nat.zero_le (c.clock i)) (by omega)).mpr (by omega)⟩

/-- **When the filter drops a packet heard for the first time.** In every run
of checks from `digi_init`, with a clock that does not go back and stays below
`2^31` ms: a message is reported as duplicated only if one with the same hash
was recorded less than 15 seconds before, if and only if it does not find a
blank entry. -/
theorem digi_first_heard_iff (cs : List DupCheck) (c : DupCheck) (hclock : ClockOrder 0 (cs ++ [c])) :
    ((digiCheckIsDuplicated (dupCheckRun cs) c.clock c.msg).2 = true → HeardBefore (recordsOf cs) c) ↔
      ¬ BlankFound (recordsOf cs) c := by
  constructor
  · intro h hblank
    obtain ⟨c₁, hc₁, hhash, -⟩ := h (dup_of_blank hblank)
    obtain ⟨h0, -, -, hnone⟩ := hblank
    exact hnone c₁ hc₁ (by rw [hhash, h0])
  · intro h hdup
    exact (heard_or_blank hclock hdup).resolve_right h

/-- A message from N0CALL to APRS via WIDE1-1, checked at `ms`. -/
def checkedAt (ms : ℕ) (info : List UInt8) : DupCheck where
  clock := fun _ => ms
  msg := { flagMsg with
    rptLst := fun _ => defaultCalldata.path1
    info := ⟨fun k => info.getD k 0, 0⟩
    len := info.length }

theorem clockOrder_two {t t' : ℕ} (h : t ≤ t') (hlt : t' < 2 ^ 31) (i i' : List UInt8) :
    ClockOrder 0 [checkedAt t i, checkedAt t' i'] :=
  ⟨Nat.zero_le t, fun _ _ => Nat.le_refl t, by show t < 2 ^ 31; omega, h, fun _ _ => Nat.le_refl t', hlt,
    trivial⟩

/-- The info `!`, at 5 and at 6 seconds. -/
theorem digi_first_heard_iff_twice :
    (digiCheckIsDuplicated (dupCheckRun [checkedAt 5000 [0x21]]) (checkedAt 6000 [0x21]).clock
        (checkedAt 6000 [0x21]).msg).2 = true ∧
      HeardBefore (recordsOf [checkedAt 5000 [0x21]]) (checkedAt 6000 [0x21]) := by
  have hdup : (digiCheckIsDuplicated (dupCheckRun [checkedAt 5000 [0x21]]) (checkedAt 6000 [0x21]).clock
      (checkedAt 6000 [0x21]).msg).2 = true := by decide +kernel
  refine ⟨hdup, (digi_first_heard_iff [checkedAt 5000 [0x21]] (checkedAt 6000 [0x21])
    (clockOrder_two (by decide) (by decide) _ _)).mpr (fun h => ?_) hdup⟩
  have hhash : digiCalcHash (checkedAt 6000 [0x21]).msg ≠ 0 := by decide +kernel
  exact hhash h.1

/-- The info `>khk` makes the hash 0. One other message was recorded, a second
before; the check finds a blank entry, and the packet is dropped. -/
theorem first_heard_dropped :
    ClockOrder 0 [checkedAt 5000 [0x21], checkedAt 6000 [0x3e, 0x6b, 0x68, 0x6b]] ∧
      (digiCheckIsDuplicated (dupCheckRun [checkedAt 5000 [0x21]])
        (checkedAt 6000 [0x3e, 0x6b, 0x68, 0x6b]).clock (checkedAt 6000 [0x3e, 0x6b, 0x68, 0x6b]).msg).2 = true ∧
      ¬ HeardBefore (recordsOf [checkedAt 5000 [0x21]]) (checkedAt 6000 [0x3e, 0x6b, 0x68, 0x6b]) := by
  refine ⟨clockOrder_two (by decide) (by decide) _ _, by decide +kernel, ?_⟩
  rintro ⟨c₁, hc₁, hhash, -⟩
  rw [List.mem_singleton.mp (recordsOf_mem hc₁)] at hhash
  revert hhash
  decide +kernel

end TinyAprs
