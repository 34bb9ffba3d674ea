/-
# The path that is sent on

`digi_handle_aprs_message` edits the message in place: the entry it takes
becomes its own call, marked repeated, and what is left of the hops goes to
the entry behind it, which is new when the one taken was the last. The code
assumes that an entry with more than one hop is the last one; where it is,
or where there is one hop only, nothing else of the message changes
(`Passed`).
-/
import TinyAprs.DigiNext

namespace TinyAprs

/-- `msg'` is what `digi_handle_aprs_message` is to make of `msg` at entry
`i`. -/
structure Passed (mycall : AX25Call) (msg msg' : AX25Msg) (i : ℕ) : Prop where
  own : msg'.rptLst i = mycall ∧ ax25Repeated msg' i = true
  /-- The alias is five characters; the one behind them is a NUL. -/
  rest : (msg.rptLst i).ssid ≥ 2 →
    (msg'.rptLst (i + 1)).call.toList = (msg.rptLst i).call.toList.take 5 ++ [0] ∧
      (msg'.rptLst (i + 1)).ssid = (msg.rptLst i).ssid - 1 ∧ ax25Repeated msg' (i + 1) = false
  rptCnt : msg'.rptCnt = if (msg.rptLst i).ssid ≥ 2 then msg.rptCnt + 1 else msg.rptCnt
  room : msg'.rptCnt ≤ ax25MaxRpt
  src : msg'.src = msg.src
  dst : msg'.dst = msg.dst
  info : msg'.info = msg.info
  len : msg'.len = msg.len
  others : ∀ j < msg.rptCnt, j ≠ i →
    msg'.rptLst j = msg.rptLst j ∧ ax25Repeated msg' j = ax25Repeated msg j

/-- A message that is no duplicate is rewritten, and sent if it can be. -/
theorem handle_new {s : Station} {msg : AX25Msg} {i : ℕ} (hu : entryUsed msg = some i)
    (hnew : (digiCheckIsDuplicated s.digi s.clock msg).2 = false) :
    (s.handle msg).sent = rewrite (settingsGetMycall s.eeprom) msg i ∧
      (s.handle msg).air = match rewrite (settingsGetMycall s.eeprom) msg i with
        | none => []
        | some msg' => (ax25SendMsg s.modem msg').2 := by
  rw [handle_eq, hu]
  dsimp only [digiTake]
  rw [if_neg (by rw [hnew]; decide)]
  cases rewrite (settingsGetMycall s.eeprom) msg i with
  | none => exact ⟨rfl, rfl⟩
  | some msg' => exact ⟨rfl, rfl⟩

theorem passed_last {mycall : AX25Call} {msg : AX25Msg} {i : ℕ} (hcnt : msg.rptCnt ≤ ax25MaxRpt)
    (hi : i < msg.rptCnt) (hone : ¬ (msg.rptLst i).ssid ≥ 2) : Passed mycall msg (replaceBy mycall msg i) i where
  own := by
    change msg.rptCnt ≤ 8 at hcnt
    exact ⟨Function.update_self .., (ax25Repeated_setRpt _ true (by omega) (by omega)).trans (if_pos rfl)⟩
  rest h := absurd h hone
  rptCnt := (if_neg hone).symm
  room := hcnt
  src := rfl
  dst := rfl
  info := rfl
  len := rfl
  others j hj hne := by
    change msg.rptCnt ≤ 8 at hcnt
    refine ⟨Function.update_of_ne hne _ _, ?_⟩
    exact (ax25Repeated_setRpt _ true (by omega) (by omega)).trans (if_neg hne)

theorem wideRest_call (sta : AX25Call) : (wideRest sta).call.toList = sta.call.toList.take 5 ++ [0] := by
  obtain ⟨⟨⟨l⟩, hl⟩, ssid⟩ := sta
  match l, hl with
  | [_, _, _, _, _, _], _ => rfl

/-- More than one hop, in the last entry: the rest of them is a new entry. -/
theorem passed_split {mycall : AX25Call} {msg : AX25Msg} {i : ℕ} (hlast : i + 1 = msg.rptCnt) (hi : i < 7)
    (hmany : (msg.rptLst i).ssid ≥ 2) :
    Passed mycall msg (replaceBy mycall (msg.split i (msg.rptCnt + 1)) i) i := by
  have hrep : ∀ j < 8, ax25Repeated (replaceBy mycall (msg.split i (msg.rptCnt + 1)) i) j =
      if j = i then true else if j = i + 1 then false else ax25Repeated msg j :=
    fun j hj => ax25Repeated_split mycall msg _ hi hj
  have hnext : (replaceBy mycall (msg.split i (msg.rptCnt + 1)) i).rptLst (i + 1) =
      wideRest { msg.rptLst i with ssid := (msg.rptLst i).ssid - 1 } := by
    refine (Function.update_of_ne (by omega) _ _).trans ?_
    exact Function.update_self ..
  refine ⟨⟨Function.update_self .., ?_⟩, fun _ => ⟨?_, ?_, ?_⟩, (if_pos hmany).symm, ?_, rfl, rfl, rfl, rfl,
    fun j hj hne => ⟨?_, ?_⟩⟩
  · rw [hrep i (by omega), if_pos rfl]
  · rw [hnext, wideRest_call]
  · rw [hnext]
    rfl
  · rw [hrep (i + 1) (by omega), if_neg (by omega), if_pos rfl]
  · show msg.rptCnt + 1 ≤ 8
    omega
  · exact rptLst_split mycall msg _ hne (by omega)
  · rw [hrep j (by omega), if_neg hne, if_neg (by omega)]

/-- What the entry becomes: nothing if there is no room for the rest of its
hops. -/
theorem rewrite_passed (mycall : AX25Call) {msg : AX25Msg} {i : ℕ} (hcnt : msg.rptCnt ≤ ax25MaxRpt)
    (hi : i < msg.rptCnt) (hone : (msg.rptLst i).ssid = 1 ∨ i + 1 = msg.rptCnt) :
    ((msg.rptLst i).ssid ≥ 2 ∧ i = ax25MaxRpt - 1 → rewrite mycall msg i = none) ∧
      (¬ ((msg.rptLst i).ssid ≥ 2 ∧ i = ax25MaxRpt - 1) →
        ∃ msg', rewrite mycall msg i = some msg' ∧ Passed mycall msg msg' i) := by
  have hgt : (msg.rptLst i).ssid > 1 ↔ (msg.rptLst i).ssid ≥ 2 := by
    rw [gt_iff_lt, ge_iff_le, UInt8.lt_iff_toNat_lt, UInt8.le_iff_toNat_le]
    rfl
  change msg.rptCnt ≤ 8 at hcnt
  constructor
  · rintro ⟨hmany, rfl⟩
    rw [rewrite, if_pos (hgt.mpr hmany), splitHops, if_neg (Nat.lt_irrefl _)]
    rfl
  · intro hfit
    by_cases hmany : (msg.rptLst i).ssid ≥ 2
    · have hlast : i + 1 = msg.rptCnt := by
        rcases hone with h1 | h1
        · rw [h1] at hmany
          exact absurd hmany (by decide)
        · exact h1
      have h7 : i < 7 := by
        have : i ≠ 7 := fun h => hfit ⟨hmany, h⟩
        omega
      refine ⟨replaceBy mycall (msg.split i (msg.rptCnt + 1)) i, ?_, passed_split hlast h7 hmany⟩
      have hsplit : splitHops msg i = some (msg.split i (msg.rptCnt + 1)) := by
        rw [splitHops, if_pos (show i < ax25MaxRpt - 1 from h7)]
        exact congrArg some (if_pos (by show i = msg.rptCnt - 1; omega))
      rw [rewrite, if_pos (hgt.mpr hmany), hsplit]
      rfl
    · exact ⟨replaceBy mycall msg i, by rw [rewrite, if_neg (mt hgt.mp hmany)], passed_last hcnt hi hmany⟩

/-- **Path rewriting.** Of a message from the air, with any stored call, cache
and clock: if no entry is WIDE1, WIDE2 or WIDE3 with hops left and not yet
repeated, nothing is sent and the cache stays as it is. If `i` is the first
such entry, the message is no duplicate, and the entry has one hop or is the
last: with more than one hop in the eighth entry nothing is sent, and otherwise
the message given to `ax25_sendMsg` is the one received with entry `i`
rewritten (`Passed`). -/
theorem digi_rewrites_path (stk : AX25Msg) (ctx : AX25Ctx) (msg : AX25Msg)
    (hdec : ax25Decode stk ctx = some msg) (s : Station) :
    (entryUsed msg = none →
      (s.handle msg).sent = none ∧ (s.handle msg).air = [] ∧ (s.handle msg).digi = s.digi) ∧
    ∀ i, entryUsed msg = some i → (digiCheckIsDuplicated s.digi s.clock msg).2 = false →
      (msg.rptLst i).ssid = 1 ∨ i + 1 = msg.rptCnt →
      ((msg.rptLst i).ssid ≥ 2 ∧ i = ax25MaxRpt - 1 → (s.handle msg).sent = none ∧ (s.handle msg).air = []) ∧
      (¬ ((msg.rptLst i).ssid ≥ 2 ∧ i = ax25MaxRpt - 1) →
        ∃ msg', (s.handle msg).sent = some msg' ∧ (s.handle msg).air = (ax25SendMsg s.modem msg').2 ∧
          Passed (settingsGetMycall s.eeprom) msg msg' i) := by
  have hcnt := (decoded_of_decode hdec).rptCnt
  refine ⟨fun hu => ?_, fun i hu hnew hone => ?_⟩
  · rw [handle_eq, hu]
    exact ⟨rfl, rfl, rfl⟩
  · obtain ⟨-, hi, -⟩ := (entryUsed_iff msg i).mp hu
    obtain ⟨hsent, hair⟩ := handle_new hu hnew
    obtain ⟨hfull, hfit⟩ := rewrite_passed (settingsGetMycall s.eeprom) hcnt hi hone
    refine ⟨fun h => ?_, fun h => ?_⟩
    · rw [hsent, hair, hfull h]
      exact ⟨rfl, rfl⟩
    · obtain ⟨msg', hw, hpassed⟩ := hfit h
      rw [hsent, hair, hw]
      exact ⟨msg', rfl, rfl, hpassed⟩

/-- N0CALL's message via WIDE2-2 goes on via the digipeater and WIDE2-1. -/
theorem digi_rewrites_path_wide22 : ∃ msg msg', ax25Decode zeroMsg wide22 = some msg ∧
    entryUsed msg = some 0 ∧ (freshStation.handle msg).sent = some msg' ∧
    Passed (settingsGetMycall freshStation.eeprom) msg msg' 0 := by
  have h : (ax25Decode zeroMsg wide22).any (fun msg => entryUsed msg == some 0 && msg.rptCnt == 1 &&
      !(digiCheckIsDuplicated freshStation.digi freshStation.clock msg).2) = true := by
    decide +kernel
  obtain ⟨msg, hdec, hm⟩ := (Option.any_eq_true _ _).mp h
  simp only [Bool.and_eq_true, beq_iff_eq, Bool.not_eq_true'] at hm
  obtain ⟨⟨hu, hcnt⟩, hnew⟩ := hm
  obtain ⟨msg', hsent, -, hpassed⟩ := ((digi_rewrites_path zeroMsg wide22 msg hdec freshStation).2 0 hu hnew
    (Or.inr hcnt.symm)).2 (fun h => absurd h.2 (by decide))
  exact ⟨msg, msg', hdec, hu, hsent, hpassed⟩

end TinyAprs
