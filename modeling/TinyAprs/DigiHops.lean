/-
# Digipeating ends

The hop budget of a message is what the SSIDs of its WIDE entries that are
not yet repeated still allow (`hopBudget`). A digipeater that sends a message
on takes at least one hop from it: the entry it takes is now its own call,
repeated, and what it hands to the next entry is one less. Whatever the
calls, the flags and the stored call of the digipeater are, the message that
another station decodes has a smaller budget (`hopBudget_relayed`), and so a
message of budget `B` is sent on at most `B` times in a row.
-/
import Mathlib.Algebra.BigOperators.Group.Finset.Basic
import Mathlib.Algebra.Order.BigOperators.Group.Finset
import TinyAprs.Ax25Msg
import TinyAprs.Digi

namespace TinyAprs

open Mealy Finset

/-- The hops entry `i` of the path still allows. -/
def hops (msg : AX25Msg) (i : ℕ) : ℕ :=
  if isWide (msg.rptLst i) ∧ ¬ ax25Repeated msg i then (msg.rptLst i).ssid.toNat else 0

/-- The hops a message still allows. -/
def hopBudget (msg : AX25Msg) : ℕ := ∑ i ∈ range msg.rptCnt, hops msg i

/-! ### What a decoder can give -/

/-- A call of 7-bit characters, with a 4-bit SSID. -/
def PlainCall (addr : AX25Call) : Prop := (∀ c ∈ addr.call.toList, c < 128) ∧ addr.ssid ≤ 15

/-- A message as a decoder gives it: at most eight entries, and plain ones. -/
structure Decoded (msg : AX25Msg) : Prop where
  rptCnt : msg.rptCnt ≤ ax25MaxRpt
  entries : ∀ i < msg.rptCnt, PlainCall (msg.rptLst i)

theorem decodeChar_lt (b : UInt8) : decodeChar b < 128 := by
  revert b
  decide +kernel

theorem decodeSsid_le (b : UInt8) : decodeSsid b ≤ 15 := by
  revert b
  decide +kernel

theorem plainCall_decode (buf : ℕ → UInt8) (p : ℕ) (b : UInt8) :
    PlainCall ⟨decodeCall buf p, decodeSsid b⟩ := by
  refine ⟨fun c hc => ?_, decodeSsid_le b⟩
  obtain ⟨i, -, rfl⟩ : ∃ i : Fin 6, True ∧ decodeChar (buf (p + i)) = c := by
    simpa [decodeCall, List.mem_ofFn] using hc
  exact decodeChar_lt _

theorem plainCall_air (addr : AX25Call) : PlainCall (airCall addr) := by
  have hssid : ∀ s : UInt8, s &&& 0x0F ≤ 15 := by decide +kernel
  refine ⟨fun c hc => ?_, hssid addr.ssid⟩
  obtain ⟨i, -, rfl⟩ : ∃ i : Fin 6, True ∧ decodeChar ((callChars addr).getD i 0) = c := by
    simpa [airCall, List.mem_ofFn] using hc
  exact decodeChar_lt _

theorem decoded_decodeRpt (buf : ℕ → UInt8) : ∀ (n p : ℕ) {msg : AX25Msg}, Decoded msg →
    msg.rptCnt + n = ax25MaxRpt → Decoded (decodeRpt buf n p msg).2
  | 0, _, _, h, _ => h
  | n + 1, p, msg, h, hn => by
    unfold decodeRpt
    split_ifs
    · have hn' : msg.rptCnt + (n + 1) = 8 := hn
      refine decoded_decodeRpt buf n (p + 7) ⟨?_, fun i hi => ?_⟩ ?_
      · show msg.rptCnt + 1 ≤ 8
        omega
      · change i < msg.rptCnt + 1 at hi
        by_cases hi' : i = msg.rptCnt
        · subst hi'
          simpa [decodeRptAddr] using plainCall_decode buf (p + 1) (buf (p + 7))
        · simpa [decodeRptAddr, hi'] using h.entries i (by omega)
      · show msg.rptCnt + 1 + n = 8
        omega
    · exact h

theorem decoded_of_decode {stk : AX25Msg} {ctx : AX25Ctx} {msg : AX25Msg}
    (h : ax25Decode stk ctx = some msg) : Decoded msg := by
  have hd : Decoded (decodeRpt ctx.buf ax25MaxRpt 13 (decodeHead stk ctx.buf)).2 :=
    decoded_decodeRpt ctx.buf ax25MaxRpt 13 ⟨Nat.zero_le _, fun i hi => absurd hi (Nat.not_lt_zero i)⟩ rfl
  rw [ax25Decode] at h
  split_ifs at h
  obtain rfl := Option.some.inj h
  exact ⟨hd.rptCnt, hd.entries⟩

/-! ### WIDE entries on the air -/

theorem tolower_eq_zero (b : UInt8) (h : tolower b = 0) : b = 0 := by
  revert b
  decide +kernel

theorem strncasecmpEq_iff : ∀ (n : ℕ) (as bs : List UInt8), n ≤ as.length → n ≤ bs.length →
    (∀ b ∈ bs, b ≠ 0) →
    (strncasecmpEq n as bs = true ↔ ∀ k < n, tolower (as.getD k 0) = tolower (bs.getD k 0))
  | 0, _, _, _, _, _ => by simp [strncasecmpEq]
  | n + 1, [], _, h, _, _ => by simp at h
  | n + 1, _ :: _, [], _, h, _ => by simp at h
  | n + 1, a :: as, b :: bs, ha, hb, hz => by
    have ih := strncasecmpEq_iff n as bs (by simpa using ha) (by simpa using hb)
      fun c hc => hz c (List.mem_cons_of_mem b hc)
    have hne : tolower a = tolower b → a ≠ 0 := by
      rintro h rfl
      exact hz b List.mem_cons_self (tolower_eq_zero b h.symm)
    rw [strncasecmpEq, Bool.and_eq_true, beq_iff_eq, Bool.or_eq_true, beq_iff_eq, ih]
    constructor
    · rintro ⟨h0, h1⟩ k hk
      cases k with
      | zero => exact h0
      | succ k => exact (h1.resolve_left (hne h0)) k (by omega)
    · intro h
      exact ⟨h 0 (by omega), Or.inr fun k hk => h (k + 1) (by omega)⟩

/-- A 7-bit character of a call comes through up to its case, or is lost. -/
theorem tolower_decodeChar (c : UInt8) (h : c < 128) :
    decodeChar (toupper c <<< 1) = 0 ∨ tolower (decodeChar (toupper c <<< 1)) = tolower c := by
  revert c
  decide +kernel

theorem airCall_char (addr : AX25Call) (h : ∀ c ∈ addr.call.toList, c < 128) {k : ℕ} (hk : k < 6) :
    (airCall addr).call.toList.getD k 0 = 0 ∨
      tolower ((airCall addr).call.toList.getD k 0) = tolower (addr.call.toList.getD k 0) := by
  have hair : (airCall addr).call.toList.getD k 0 = decodeChar ((callChars addr).getD k 0) := by
    simp [airCall, List.getD_eq_getElem?_getD, hk]
  rw [hair, callChars]
  by_cases hc : k < (cstr addr.call).length
  · -- the call goes on to `k`, and there it is the call's own character
    obtain ⟨rest, hpre⟩ : cstr addr.call <+: addr.call.toList := List.takeWhile_prefix _
    have hget : (cstr addr.call)[k]? = addr.call.toList[k]? := by
      rw [← hpre, List.getElem?_append_left hc]
    have hmem : addr.call.toList.getD k 0 ∈ addr.call.toList := by
      rw [List.getD_eq_getElem?_getD, List.getElem?_eq_getElem (by simpa using hk), Option.getD_some]
      exact List.getElem_mem _
    have hch : ((cstr addr.call).map fun c => toupper c <<< 1)[k]? =
        some (toupper (addr.call.toList.getD k 0) <<< 1) := by
      rw [List.getElem?_map, hget, List.getD_eq_getElem?_getD,
        List.getElem?_eq_getElem (by simpa using hk)]
      rfl
    rw [List.getD_eq_getElem?_getD, List.getElem?_append_left (by simpa using hc), hch, Option.getD_some]
    exact tolower_decodeChar _ (h _ hmem)
  · left
    have hlt : k - (cstr addr.call).length < 6 - (cstr addr.call).length := by omega
    rw [List.getD_eq_getElem?_getD, List.getElem?_append_right (by simpa using hc), List.length_map,
      List.getElem?_replicate, if_pos hlt, Option.getD_some]
    decide

theorem strncasecmpEq_of_air {addr : AX25Call} (h : ∀ c ∈ addr.call.toList, c < 128) {p : List UInt8}
    (hp : p.length = 5) (hz : ∀ b ∈ p, b ≠ 0) (hair : strncasecmpEq 5 (airCall addr).call.toList p = true) :
    strncasecmpEq 5 addr.call.toList p = true := by
  rw [strncasecmpEq_iff 5 _ p (by simp) (by omega) hz] at hair ⊢
  intro k hk
  have hne : p.getD k 0 ≠ 0 := by
    rw [List.getD_eq_getElem?_getD, List.getElem?_eq_getElem (by omega), Option.getD_some]
    exact hz _ (List.getElem_mem _)
  rcases airCall_char addr h (by omega : k < 6) with h0 | h1
  · have := hair k hk
    rw [h0] at this
    exact absurd (tolower_eq_zero _ this.symm) hne
  · rw [← h1, hair k hk]

theorem isWide_of_air {addr : AX25Call} (h : PlainCall addr) (hair : isWide (airCall addr) = true) :
    isWide addr = true := by
  simp only [isWide, Bool.or_eq_true] at hair ⊢
  rcases hair with (hair | hair) | hair
  · exact Or.inl (Or.inl (strncasecmpEq_of_air h.1 rfl (by simp) hair))
  · exact Or.inl (Or.inr (strncasecmpEq_of_air h.1 rfl (by simp) hair))
  · exact Or.inr (strncasecmpEq_of_air h.1 rfl (by simp) hair)

/-! ### One hop -/

/-- Trading what `i` and the next one have for less makes a smaller sum. -/
theorem sum_lt_of_pair {f g : ℕ → ℕ} {n i : ℕ} (hi : i + 1 < n)
    (hle : ∀ j < n, j ≠ i → j ≠ i + 1 → g j ≤ f j) (hlt : g i + g (i + 1) < f i + f (i + 1)) :
    ∑ j ∈ range n, g j < ∑ j ∈ range n, f j := by
  have hi1 : i ∈ range n := mem_range.mpr (by omega)
  have hi2 : i + 1 ∈ (range n).erase i := mem_erase.mpr ⟨by omega, mem_range.mpr hi⟩
  have hrest : ∑ j ∈ ((range n).erase i).erase (i + 1), g j ≤
      ∑ j ∈ ((range n).erase i).erase (i + 1), f j := by
    refine sum_le_sum fun j hj => ?_
    simp only [mem_erase, mem_range] at hj
    exact hle j hj.2.2 hj.2.1 hj.1
  rw [← add_sum_erase _ _ hi1, ← add_sum_erase _ _ hi2, ← add_sum_erase _ f hi1, ← add_sum_erase _ f hi2]
  omega

/-- The hops of entry `j`, none past the end of the path. -/
def hopsAt (msg : AX25Msg) (j : ℕ) : ℕ := if j < msg.rptCnt then hops msg j else 0

theorem hopBudget_eq {msg : AX25Msg} {n : ℕ} (h : msg.rptCnt ≤ n) :
    hopBudget msg = ∑ j ∈ range n, hopsAt msg j := by
  have hzero : ∀ j ∈ range n, j ∉ range msg.rptCnt → hopsAt msg j = 0 :=
    fun j _ hj => if_neg (by simpa using hj)
  rw [hopBudget, ← sum_subset (range_subset_range.mpr h) hzero]
  refine sum_congr rfl fun j hj => ?_
  exact (if_pos (mem_range.mp hj)).symm

theorem ax25Repeated_setRpt (msg : AX25Msg) {i j : ℕ} (v : Bool) (hi : i < 8) (hj : j < 8) :
    ax25Repeated (msg.setRpt i v) j = if j = i then v else ax25Repeated msg j :=
  flag_setRepeated msg.rptFlags v hi hj

/-- The message after its hops are split at entry `i`, with `c` entries. -/
def AX25Msg.split (msg : AX25Msg) (i c : ℕ) : AX25Msg :=
  let sta := { msg.rptLst i with ssid := (msg.rptLst i).ssid - 1 }
  { msg with
    rptLst := Function.update (Function.update msg.rptLst i sta) (i + 1) (wideRest sta)
    rptFlags := setRepeated msg.rptFlags (i + 1) false
    rptCnt := c }

theorem splitHops_eq {msg msg' : AX25Msg} {i : ℕ} (hi : i < msg.rptCnt) (h : splitHops msg i = some msg') :
    i < 7 ∧ ∃ c, ((i + 1 < msg.rptCnt ∧ c = msg.rptCnt) ∨ (i + 1 = msg.rptCnt ∧ c = msg.rptCnt + 1)) ∧
      msg' = msg.split i c := by
  unfold splitHops at h
  split_ifs at h with h7
  refine ⟨h7, ?_⟩
  obtain rfl := Option.some.inj h
  change i < msg.rptCnt at hi
  by_cases hlast : i = msg.rptCnt - 1
  · exact ⟨_, Or.inr ⟨by omega, rfl⟩, if_pos hlast⟩
  · exact ⟨_, Or.inl ⟨by omega, rfl⟩, if_neg hlast⟩

/-- After a split, entry `i` is repeated, the one behind it is not, and the
others are as they were. -/
theorem ax25Repeated_split (mycall : AX25Call) (msg : AX25Msg) (c : ℕ) {i j : ℕ} (hi : i < 7) (hj : j < 8) :
    ax25Repeated (replaceBy mycall (msg.split i c) i) j =
      if j = i then true else if j = i + 1 then false else ax25Repeated msg j := by
  refine (ax25Repeated_setRpt _ true (by omega) hj).trans ?_
  congr 1
  exact ax25Repeated_setRpt msg false (by omega) hj

theorem rptLst_split (mycall : AX25Call) (msg : AX25Msg) (c : ℕ) {i j : ℕ} (h1 : j ≠ i) (h2 : j ≠ i + 1) :
    (replaceBy mycall (msg.split i c) i).rptLst j = msg.rptLst j := by
  refine (Function.update_of_ne h1 _ _).trans ?_
  exact (Function.update_of_ne h2 _ _).trans (Function.update_of_ne h1 _ _)

/-- What the rewriting of the path does, entry by entry. -/
structure Rewritten (mycall : AX25Call) (msg msg' : AX25Msg) (i : ℕ) : Prop where
  rptCnt : msg.rptCnt ≤ msg'.rptCnt ∧ msg'.rptCnt ≤ ax25MaxRpt
  own : ax25Repeated msg' i = true
  next : i + 1 < msg'.rptCnt → (msg.rptLst i).ssid ≤ 1 → i + 1 < msg.rptCnt ∧
    msg'.rptLst (i + 1) = msg.rptLst (i + 1) ∧ ax25Repeated msg' (i + 1) = ax25Repeated msg (i + 1)
  rest : (msg.rptLst i).ssid > 1 → (msg'.rptLst (i + 1)).ssid = (msg.rptLst i).ssid - 1
  others : ∀ j < msg'.rptCnt, j ≠ i → j ≠ i + 1 → j < msg.rptCnt ∧
    msg'.rptLst j = msg.rptLst j ∧ ax25Repeated msg' j = ax25Repeated msg j
  len : msg'.len = msg.len

theorem rewritten {mycall : AX25Call} {msg msg' : AX25Msg} {i : ℕ} (hcnt : msg.rptCnt ≤ ax25MaxRpt)
    (hi : i < msg.rptCnt) (h : rewrite mycall msg i = some msg') : Rewritten mycall msg msg' i := by
  have hcnt8 : msg.rptCnt ≤ 8 := hcnt
  unfold rewrite at h
  split_ifs at h with hs
  · obtain ⟨msg₁, hsplit, rfl⟩ := Option.map_eq_some_iff.mp h
    obtain ⟨h7, c, hc, rfl⟩ := splitHops_eq hi hsplit
    refine ⟨⟨?_, ?_⟩, ?_, fun _ h1 => absurd hs (UInt8.not_lt.mpr h1), fun _ => ?_,
      fun j hj h1 h2 => ⟨?_, rptLst_split mycall msg c h1 h2, ?_⟩, rfl⟩
    · show msg.rptCnt ≤ c
      omega
    · show c ≤ 8
      omega
    · rw [ax25Repeated_split mycall msg c h7 (by omega), if_pos rfl]
    · simp only [replaceBy, AX25Msg.setRpt, AX25Msg.split]
      rw [Function.update_of_ne (by omega), Function.update_self]
      rfl
    · change j < c at hj
      omega
    · change j < c at hj
      rw [ax25Repeated_split mycall msg c h7 (by omega), if_neg h1, if_neg h2]
  · obtain rfl := Option.some.inj h
    refine ⟨⟨Nat.le_refl _, hcnt⟩, ?_, fun h1 _ => ⟨h1, ?_, ?_⟩, fun h1 => absurd h1 hs,
      fun j hj h1 _ => ⟨hj, ?_, ?_⟩, rfl⟩
    · exact (ax25Repeated_setRpt _ true (by omega) (by omega)).trans (if_pos rfl)
    · exact Function.update_of_ne (by omega) _ _
    · change i + 1 < msg.rptCnt at h1
      exact (ax25Repeated_setRpt _ true (by omega) (by omega)).trans (if_neg (by omega))
    · exact Function.update_of_ne h1 _ _
    · change j < msg.rptCnt at hj
      exact (ax25Repeated_setRpt _ true (by omega) (by omega)).trans (if_neg h1)

theorem ssid_air_le (s : UInt8) : (s &&& 0x0F).toNat ≤ s.toNat := by
  rw [UInt8.toNat_and]
  exact Nat.and_le_left

theorem hops_le_ssid (msg : AX25Msg) (i : ℕ) : hops msg i ≤ (msg.rptLst i).ssid.toNat := by
  unfold hops
  split_ifs
  · exact Nat.le_refl _
  · exact Nat.zero_le _

/-- An entry that is left alone allows no more hops on the air. -/
theorem hops_air_le {msg msg' m : AX25Msg} {j : ℕ} (hplain : PlainCall (msg.rptLst j))
    (hlst : msg'.rptLst j = msg.rptLst j) (hrep : ax25Repeated msg' j = ax25Repeated msg j)
    (hair : m.rptLst j = airCall (msg'.rptLst j) ∧ ax25Repeated m j = airRepeated msg' j) :
    hops m j ≤ hops msg j := by
  obtain ⟨h1, h2⟩ := hair
  rw [hlst] at h1
  rw [airRepeated, hrep] at h2
  rw [hops]
  split_ifs with hw
  · rw [h1, h2] at hw
    have hwide : isWide (msg.rptLst j) = true := isWide_of_air hplain hw.1
    have hnot : ¬ ax25Repeated msg j = true := fun h => hw.2 (by rw [h, Bool.true_or])
    rw [hops, if_pos ⟨hwide, hnot⟩, h1]
    exact ssid_air_le _
  · exact Nat.zero_le _

theorem hopsAt_keep {msg msg' m : AX25Msg} {j : ℕ} (hdec : Decoded msg) (hair : OnAir msg' m)
    (hj' : j < msg'.rptCnt) (hj : j < msg.rptCnt) (hlst : msg'.rptLst j = msg.rptLst j)
    (hrep : ax25Repeated msg' j = ax25Repeated msg j) : hopsAt m j ≤ hopsAt msg j := by
  rw [hopsAt, hopsAt, hair.rptCnt, if_pos hj', if_pos hj]
  exact hops_air_le (hdec.entries j hj) hlst hrep (hair.entries j hj')

/-- The rest of the hops stands in the next entry, one less. -/
theorem hopsAt_rest {mycall : AX25Call} {msg msg' m : AX25Msg} {i : ℕ} (hr : Rewritten mycall msg msg' i)
    (hair : OnAir msg' m) (hj' : i + 1 < msg'.rptCnt) (hs : (msg.rptLst i).ssid > 1) :
    hopsAt m (i + 1) ≤ (msg.rptLst i).ssid.toNat - 1 := by
  rw [hopsAt, hair.rptCnt, if_pos hj']
  refine (hops_le_ssid m (i + 1)).trans ?_
  rw [(hair.entries (i + 1) hj').1]
  refine (ssid_air_le _).trans ?_
  rw [hr.rest hs, UInt8.toNat_sub_of_le _ _ (UInt8.le_of_lt hs)]
  exact Nat.le_refl _

/-- The message that goes out has fewer hops than the one that came in, as
another station decodes it. -/
theorem hopBudget_air_lt {mycall : AX25Call} {msg msg' m : AX25Msg} {i : ℕ} (hdec : Decoded msg)
    (hi : i < msg.rptCnt) (hreq : rptRequired msg i = true) (h : rewrite mycall msg i = some msg')
    (hair : OnAir msg' m) : hopBudget m < hopBudget msg := by
  have hr := rewritten hdec.rptCnt hi h
  have hcnt8 : msg'.rptCnt ≤ 8 := hr.rptCnt.2
  have hcnt := hr.rptCnt.1
  have hm8 : m.rptCnt ≤ 9 := by rw [hair.rptCnt]; omega
  rw [hopBudget_eq hm8, hopBudget_eq (by omega : msg.rptCnt ≤ 9)]
  simp only [rptRequired, Bool.and_eq_true, decide_eq_true_eq, Bool.not_eq_true'] at hreq
  obtain ⟨⟨hwide, hssid⟩, hnot⟩ := hreq
  have hssid' : 0 < (msg.rptLst i).ssid.toNat := by simpa [UInt8.lt_iff_toNat_lt] using hssid
  have hown : hopsAt msg i = (msg.rptLst i).ssid.toNat := by
    rw [hopsAt, if_pos hi, hops, if_pos ⟨hwide, by simp [hnot]⟩]
  have hgone : hopsAt m i = 0 := by
    rw [hopsAt, hair.rptCnt, if_pos (by omega), hops, if_neg]
    rw [(hair.entries i (by omega)).2, airRepeated, hr.own]
    simp
  refine sum_lt_of_pair (i := i) (by omega) (fun j _ h1 h2 => ?_) ?_
  · by_cases hj' : j < msg'.rptCnt
    · obtain ⟨hj, hlst, hrep⟩ := hr.others j hj' h1 h2
      exact hopsAt_keep hdec hair hj' hj hlst hrep
    · rw [hopsAt, hair.rptCnt, if_neg hj']
      exact Nat.zero_le _
  · rw [hgone, hown]
    by_cases hj' : i + 1 < msg'.rptCnt
    · by_cases hs : (msg.rptLst i).ssid > 1
      · have := hopsAt_rest hr hair hj' hs
        omega
      · obtain ⟨hj, hlst, hrep⟩ := hr.next hj' (UInt8.not_lt.mp hs)
        have := hopsAt_keep hdec hair hj' hj hlst hrep
        omega
    · rw [hopsAt, hair.rptCnt, if_neg hj']
      omega

/-! ### A network of digipeaters -/

/-- A digipeater when a message comes in: its cache, its EEPROM, its modem,
and what it reads from the clock. -/
structure Station where
  digi : DigiCache
  eeprom : Eeprom
  modem : AX25Ctx
  clock : Clock

/-- What the station does with a message. -/
def Station.handle (s : Station) (msg : AX25Msg) : Digipeated :=
  digiHandleAprsMessage s.digi s.eeprom s.modem s.clock msg

/-- The frame that is sent fits the buffer of a station. -/
def Digipeated.Fits (r : Digipeated) : Prop :=
  ∀ msg, r.sent = some msg → 14 + 7 * msg.rptCnt + 2 + msg.len + 2 ≤ configAx25FrameBufLen

/-- A station that decodes messages and has no escape pending. -/
structure Listening (rx : AX25Ctx) : Prop where
  hook : rx.hook = true
  passThrough : rx.passThrough = false
  escape : rx.escape = false

/-- The message is sent on `n` times in a row: each time by a digipeater that
decoded it from what the one before sent. -/
inductive SentOn : AX25Msg → ℕ → Prop
  | stop (msg : AX25Msg) : SentOn msg 0
  | last (s : Station) (msg : AX25Msg) (hair : (s.handle msg).air ≠ []) : SentOn msg 1
  | hop (s : Station) (msg : AX25Msg) (hair : (s.handle msg).air ≠ []) (hfits : (s.handle msg).Fits)
      (stk : AX25Msg) (rx : AX25Ctx) (hrx : Listening rx) (call : HookCall)
      (hcall : call ∈ heardAfterFlag stk rx (s.handle msg).air) (msg' : AX25Msg)
      (hmsg : call.msg = some msg') (n : ℕ) (hrest : SentOn msg' n) : SentOn msg (n + 1)

/-- A message that is sent was taken at some entry and rewritten there. -/
theorem handle_air {s : Station} {msg : AX25Msg} (h : (s.handle msg).air ≠ []) :
    ∃ i < msg.rptCnt, rptRequired msg i = true ∧ ∃ msg',
      rewrite (settingsGetMycall s.eeprom) msg i = some msg' ∧ (s.handle msg).sent = some msg' ∧
      (s.handle msg).air = (ax25SendMsg s.modem msg').2 := by
  rcases digiScan_cases s.digi s.eeprom s.modem s.clock msg msg.rptCnt 0 with ⟨hn, -⟩ | ⟨i, -, hi, hreq, ht⟩
  · exact absurd (congrArg Digipeated.air hn) h
  · have ht : s.handle msg = digiTake s.digi s.eeprom s.modem s.clock msg i := ht
    refine ⟨i, by omega, hreq, ?_⟩
    rw [ht, digiTake] at h ⊢
    dsimp only at h ⊢
    split_ifs at h ⊢
    · exact absurd rfl h
    · cases hw : rewrite (settingsGetMycall s.eeprom) msg i with
      | none => rw [hw] at h; exact absurd rfl h
      | some msg' => exact ⟨msg', rfl, rfl, rfl⟩

/-- A station in reach of a digipeater decodes one message from what it sends
on, with fewer hops left. -/
theorem hopBudget_relayed {s : Station} {msg : AX25Msg} (hdec : Decoded msg)
    (hair : (s.handle msg).air ≠ []) (hfits : (s.handle msg).Fits) (stk : AX25Msg) {rx : AX25Ctx}
    (hrx : Listening rx) : ∃ ctx m, heardAfterFlag stk rx (s.handle msg).air = [⟨ctx, some m⟩] ∧
      Decoded m ∧ hopBudget m < hopBudget msg := by
  obtain ⟨i, hi, hreq, msg', hw, hsent, ha⟩ := handle_air hair
  have hr := rewritten hdec.rptCnt hi hw
  have hcnt := hr.rptCnt.1
  have hlen : 0 < msg'.len := by
    rw [ha, ax25SendMsg_air] at hair
    by_contra h0
    exact hair (if_pos (Or.inr (by omega)))
  obtain ⟨hs, ctx, m, hon, -, hout⟩ := outs_sendMsg stk s.modem (by omega : 0 < msg'.rptCnt) hr.rptCnt.2 hlen
    (by rw [length_msgBytes]; exact hfits msg' hsent) hrx.hook hrx.passThrough hrx.escape
  refine ⟨ctx, m, ?_, ?_, hopBudget_air_lt hdec hi hreq hw hon⟩
  · rw [ha, hs]
    exact hout
  · refine ⟨hon.rptCnt ▸ hr.rptCnt.2, fun j hj => ?_⟩
    rw [(hon.entries j (hon.rptCnt ▸ hj)).1]
    exact plainCall_air _

theorem hopBudget_pos {s : Station} {msg : AX25Msg} (hair : (s.handle msg).air ≠ []) :
    0 < hopBudget msg := by
  obtain ⟨i, hi, hreq, -⟩ := handle_air hair
  simp only [rptRequired, Bool.and_eq_true, decide_eq_true_eq, Bool.not_eq_true'] at hreq
  obtain ⟨⟨hwide, hssid⟩, hnot⟩ := hreq
  have hpos : 0 < hops msg i := by
    rw [hops, if_pos ⟨hwide, by simp [hnot]⟩]
    simpa [UInt8.lt_iff_toNat_lt] using hssid
  have hle : hops msg i ≤ hopBudget msg :=
    single_le_sum (fun _ _ => Nat.zero_le _) (mem_range.mpr hi)
  omega

theorem sentOn_le {msg : AX25Msg} {n : ℕ} (h : SentOn msg n) : Decoded msg → n ≤ hopBudget msg := by
  induction h with
  | stop => exact fun _ => Nat.zero_le _
  | last s msg hair => exact fun _ => hopBudget_pos hair
  | hop s msg hair hfits stk rx hrx call hcall msg' hmsg n _ ih =>
    intro hdec
    obtain ⟨ctx, m, hheard, hdec', hlt⟩ := hopBudget_relayed hdec hair hfits stk hrx
    rw [hheard] at hcall
    obtain rfl := List.mem_singleton.mp hcall
    obtain rfl : m = msg' := Option.some.inj hmsg
    have := ih hdec'
    omega

/-- **Digipeating ends.** Of a message decoded from any frame, whatever a
digipeater's call, cache and clock are, what it sends on is decoded by another
station with fewer hops left; so it is sent on at most as often as its hop
budget says. -/
theorem digipeating_ends (stk : AX25Msg) (ctx : AX25Ctx) (msg : AX25Msg)
    (hdec : ax25Decode stk ctx = some msg) :
    (∀ (s : Station) (stk' : AX25Msg) (rx : AX25Ctx), (s.handle msg).air ≠ [] → (s.handle msg).Fits →
      Listening rx → ∃ ctx' m, heardAfterFlag stk' rx (s.handle msg).air = [⟨ctx', some m⟩] ∧
        hopBudget m < hopBudget msg) ∧
      ∀ n, SentOn msg n → n ≤ hopBudget msg := by
  have hd := decoded_of_decode hdec
  refine ⟨fun s stk' rx hair hfits hrx => ?_, fun n hn => sentOn_le hn hd⟩
  obtain ⟨ctx', m, hheard, -, hlt⟩ := hopBudget_relayed hd hair hfits stk' hrx
  exact ⟨ctx', m, hheard, hlt⟩

/-- A frame from N0CALL to APRS via WIDE2-2 with the info `!`, received. -/
def wide22 : AX25Ctx :=
  { ax25Init true with
    buf := fun i => [0x82, 0xa0, 0xa4, 0xa6, 0x40, 0x40, 0x60, 0x9c, 0x60, 0x86, 0x82, 0x98, 0x98, 0x60,
      0xae, 0x92, 0x88, 0x8a, 0x64, 0x40, 0x65, 0x03, 0xf0, 0x21].getD i 0
    frmLen := 26 }

theorem digipeating_ends_wide22 : ∃ msg, ax25Decode zeroMsg wide22 = some msg ∧ hopBudget msg = 2 ∧
    ∀ n, SentOn msg n → n ≤ hopBudget msg := by
  have hb : ((ax25Decode zeroMsg wide22).map hopBudget) = some 2 := by decide +kernel
  obtain ⟨msg, hmsg, h2⟩ := Option.map_eq_some_iff.mp hb
  exact ⟨msg, hmsg, h2, (digipeating_ends zeroMsg wide22 msg hmsg).2⟩

end TinyAprs
