/-
# The next hop

The has-been-repeated flags of a message that comes from the air are set on a
first part of its path, and the next hop is the entry behind it. The
digipeater looks for the first entry that is WIDE with hops left and not yet
repeated (`entryUsed`), and does not look at the entries it passes: one that
names another station, or a WIDE without hops, is skipped whether it was
repeated or not. So it acts on the next hop exactly when that is such a WIDE,
and otherwise marks a hop as done before the one in front of it.
-/
import TinyAprs.DigiHops

namespace TinyAprs

/-- The flags are set exactly on the first `p` entries of the path. -/
def RepeatedPrefix (msg : AX25Msg) (p : ℕ) : Prop :=
  p ≤ msg.rptCnt ∧ ∀ i < msg.rptCnt, (ax25Repeated msg i = true ↔ i < p)

/-- The entry that `digi_handle_aprs_message` takes. -/
def entryUsed (msg : AX25Msg) : Option ℕ := (List.range' 0 msg.rptCnt).find? (rptRequired msg)

theorem digiScan_eq (d : DigiCache) (ee : Eeprom) (modem : AX25Ctx) (clock : Clock) (msg : AX25Msg) :
    ∀ n i, digiScan d ee modem clock msg i n =
      match (List.range' i n).find? (rptRequired msg) with
      | none => ⟨d, modem, none, none, []⟩
      | some j => digiTake d ee modem clock msg j
  | 0, _ => rfl
  | n + 1, i => by
    rw [digiScan, List.range'_succ]
    cases h : rptRequired msg i with
    | true => rw [if_pos rfl, List.find?_cons_of_pos h]
    | false =>
      rw [if_neg (by decide), List.find?_cons_of_neg (by rw [h]; decide)]
      exact digiScan_eq d ee modem clock msg n (i + 1)

theorem handle_eq (s : Station) (msg : AX25Msg) : s.handle msg =
    match entryUsed msg with
    | none => ⟨s.digi, s.modem, none, none, []⟩
    | some i => digiTake s.digi s.eeprom s.modem s.clock msg i :=
  digiScan_eq s.digi s.eeprom s.modem s.clock msg msg.rptCnt 0

theorem entryUsed_iff (msg : AX25Msg) (i : ℕ) : entryUsed msg = some i ↔
    rptRequired msg i = true ∧ i < msg.rptCnt ∧ ∀ j < i, rptRequired msg j = false := by
  rw [entryUsed, List.find?_range'_eq_some, List.mem_range'_1, Nat.zero_add]
  refine ⟨fun h => ⟨h.1, h.2.1.2, fun j hj => ?_⟩, fun h => ⟨h.1, ⟨Nat.zero_le i, h.2.1⟩, fun j _ hj => ?_⟩⟩
  · simpa using h.2.2 j (Nat.zero_le j) hj
  · rw [h.2.2 j hj]
    rfl

theorem handle_sent {s : Station} {msg msg' : AX25Msg} (h : (s.handle msg).sent = some msg') :
    ∃ i, entryUsed msg = some i ∧ rewrite (settingsGetMycall s.eeprom) msg i = some msg' := by
  rw [handle_eq] at h
  cases hu : entryUsed msg with
  | none =>
    rw [hu] at h
    exact absurd h (by simp)
  | some i =>
    refine ⟨i, rfl, ?_⟩
    rw [hu] at h
    dsimp only [digiTake] at h
    split_ifs at h
    cases hw : rewrite (settingsGetMycall s.eeprom) msg i with
    | none =>
      rw [hw] at h
      exact absurd h (by simp)
    | some m =>
      rw [hw] at h
      exact h

theorem rest_not_repeated {mycall : AX25Call} {msg msg' : AX25Msg} {i : ℕ} (hi : i < msg.rptCnt)
    (h : rewrite mycall msg i = some msg') (hs : (msg.rptLst i).ssid > 1) :
    ax25Repeated msg' (i + 1) = false := by
  rw [rewrite, if_pos hs] at h
  obtain ⟨msg₁, hsplit, rfl⟩ := Option.map_eq_some_iff.mp h
  obtain ⟨h7, c, -, rfl⟩ := splitHops_eq hi hsplit
  rw [ax25Repeated_split mycall msg c h7 (by omega), if_neg (by omega), if_pos rfl]

/-- An entry not yet repeated is left so, but for the one that is taken. -/
theorem repeated_rewritten {mycall : AX25Call} {msg msg' : AX25Msg} {i j : ℕ} (hcnt : msg.rptCnt ≤ ax25MaxRpt)
    (hi : i < msg.rptCnt) (h : rewrite mycall msg i = some msg') (hj : j < msg'.rptCnt) (hne : j ≠ i) :
    ax25Repeated msg' j = true → j < msg.rptCnt ∧ ax25Repeated msg j = true := by
  have hr := rewritten hcnt hi h
  intro hrep
  by_cases hnext : j = i + 1
  · subst hnext
    by_cases hs : (msg.rptLst i).ssid > 1
    · rw [rest_not_repeated hi h hs] at hrep
      exact absurd hrep (by decide)
    · obtain ⟨h1, -, h3⟩ := hr.next hj (UInt8.not_lt.mp hs)
      exact ⟨h1, by rw [← h3]; exact hrep⟩
  · obtain ⟨h1, -, h3⟩ := hr.others j hj hne hnext
    exact ⟨h1, by rw [← h3]; exact hrep⟩

theorem repeated_before {mycall : AX25Call} {msg msg' : AX25Msg} {i j : ℕ} (hcnt : msg.rptCnt ≤ ax25MaxRpt)
    (hi : i < msg.rptCnt) (h : rewrite mycall msg i = some msg') (hj : j < i) :
    ax25Repeated msg' j = ax25Repeated msg j := by
  have hr := rewritten hcnt hi h
  have := hr.rptCnt.1
  exact (hr.others j (by omega) (by omega) (by omega)).2.2

/-- Taking the next hop moves the end of the repeated part by one. -/
theorem RepeatedPrefix.taken {mycall : AX25Call} {msg msg' : AX25Msg} {p : ℕ} (hp : RepeatedPrefix msg p)
    (hcnt : msg.rptCnt ≤ ax25MaxRpt) (hi : p < msg.rptCnt) (hw : rewrite mycall msg p = some msg') :
    RepeatedPrefix msg' (p + 1) := by
  have hr := rewritten hcnt hi hw
  refine ⟨?_, fun j hj => ?_⟩
  · have := hr.rptCnt.1
    omega
  · rcases Nat.lt_trichotomy j p with hlt | rfl | hgt
    · rw [repeated_before hcnt hi hw hlt, hp.2 j (by omega)]
      omega
    · exact ⟨fun _ => Nat.lt_succ_self j, fun _ => hr.own⟩
    · refine ⟨fun hrep => ?_, fun h => by omega⟩
      obtain ⟨hjm, hrep'⟩ := repeated_rewritten hcnt hi hw hj (by omega) hrep
      have := (hp.2 j hjm).mp hrep'
      omega

/-- **A digipeater acts on the next hop exactly when that is a WIDE with hops
left.** Of a message from the air whose flags are set exactly on the first `p`
entries, if it is sent on: the entry used is entry `p`, the first one not yet
repeated, and the flags of the message sent are set exactly on a first part
again, if and only if entry `p` is WIDE1, WIDE2 or WIDE3 with an SSID above
0. -/
theorem digi_next_hop_iff (stk : AX25Msg) (ctx : AX25Ctx) (msg : AX25Msg)
    (hdec : ax25Decode stk ctx = some msg) (p : ℕ) (hp : RepeatedPrefix msg p) (s : Station) (msg' : AX25Msg)
    (hsent : (s.handle msg).sent = some msg') :
    (entryUsed msg = some p ∧ ∃ q, RepeatedPrefix msg' q) ↔
      isWide (msg.rptLst p) = true ∧ (msg.rptLst p).ssid > 0 := by
  have hcnt := (decoded_of_decode hdec).rptCnt
  obtain ⟨i, hu, hw⟩ := handle_sent hsent
  obtain ⟨hreq, hi, hfirst⟩ := (entryUsed_iff msg i).mp hu
  have hreq' := hreq
  simp only [rptRequired, Bool.and_eq_true, decide_eq_true_eq, Bool.not_eq_true'] at hreq'
  obtain ⟨⟨hwide, hssid⟩, hnot⟩ := hreq'
  -- the entry taken is not repeated, so it is the next hop or one behind it
  have hpi : p ≤ i := by
    by_contra hlt
    have := (hp.2 i hi).mpr (by omega)
    rw [hnot] at this
    exact absurd this (by decide)
  constructor
  · rintro ⟨hup, -⟩
    rw [hu] at hup
    obtain rfl := Option.some.inj hup
    exact ⟨hwide, hssid⟩
  · rintro ⟨hwp, hsp⟩
    have hpn : ax25Repeated msg p = false := by
      rw [← Bool.not_eq_true, hp.2 p (by omega)]
      exact Nat.lt_irrefl p
    have hreqp : rptRequired msg p = true := by simp [rptRequired, hwp, hsp, hpn]
    have hip : p = i := by
      by_contra hne
      have := hfirst p (by omega)
      rw [hreqp] at this
      exact absurd this (by decide)
    subst hip
    exact ⟨hu, p + 1, hp.taken hcnt hi hw⟩

/-- A digipeater just started. -/
def freshStation : Station := ⟨digiInit, fun _ => 0xff, ax25Init true, fun _ => 20000⟩

/-- The flags of a message, entry by entry. -/
def flagsOf (msg : AX25Msg) : List Bool := (List.range msg.rptCnt).map (ax25Repeated msg)

theorem digi_next_hop_iff_wide22 : ∃ msg msg', ax25Decode zeroMsg wide22 = some msg ∧
    (freshStation.handle msg).sent = some msg' ∧ entryUsed msg = some 0 ∧ ∃ q, RepeatedPrefix msg' q := by
  have h : (ax25Decode zeroMsg wide22).map (fun msg =>
      ((freshStation.handle msg).sent.isSome, flagsOf msg, msg.rptCnt, isWide (msg.rptLst 0),
        (msg.rptLst 0).ssid)) = some (true, [false], 1, true, 2) := by
    decide +kernel
  obtain ⟨msg, hdec, hm⟩ := Option.map_eq_some_iff.mp h
  simp only [Prod.mk.injEq] at hm
  obtain ⟨hs, hf, hcnt, hwide, hssid⟩ := hm
  obtain ⟨msg', hsent⟩ := Option.isSome_iff_exists.mp hs
  have hp : RepeatedPrefix msg 0 := by
    refine ⟨Nat.zero_le _, fun i hi => ?_⟩
    obtain rfl : i = 0 := by omega
    rw [flagsOf, hcnt] at hf
    have h0 : ax25Repeated msg 0 = false := List.singleton_inj.mp hf
    simp [h0]
  have := (digi_next_hop_iff zeroMsg wide22 msg hdec 0 hp freshStation msg' hsent).mpr
    ⟨hwide, by rw [hssid]; decide⟩
  exact ⟨msg, msg', hdec, hsent, this⟩

/-- A frame from N0CALL to APRS via K1ABC-1 and WIDE1-1, neither of them
repeated, with the info `!`. -/
def viaCall : AX25Ctx :=
  { ax25Init true with
    buf := fun i => [0x82, 0xa0, 0xa4, 0xa6, 0x40, 0x40, 0x60, 0x9c, 0x60, 0x86, 0x82, 0x98, 0x98, 0x60,
      0x96, 0x62, 0x82, 0x84, 0x86, 0x40, 0x62, 0xae, 0x92, 0x88, 0x8a, 0x62, 0x40, 0x63, 0x03, 0xf0,
      0x21].getD i 0
    frmLen := 33 }

/-- The digipeater takes WIDE1-1 for itself before K1ABC-1 has repeated the
message, which then counts the second hop as done and the first one not. -/
theorem later_hop_taken : ∃ msg msg', ax25Decode zeroMsg viaCall = some msg ∧ RepeatedPrefix msg 0 ∧
    (freshStation.handle msg).sent = some msg' ∧ (freshStation.handle msg).air ≠ [] ∧
    entryUsed msg = some 1 ∧ ∀ q, ¬ RepeatedPrefix msg' q := by
  have h : (ax25Decode zeroMsg viaCall).any (fun msg => flagsOf msg == [false, false] && msg.rptCnt == 2 &&
      (freshStation.handle msg).sent.any (fun m => flagsOf m == [false, true] && m.rptCnt == 2) &&
      !(freshStation.handle msg).air.isEmpty && entryUsed msg == some 1) = true := by
    decide +kernel
  obtain ⟨msg, hdec, hm⟩ := (Option.any_eq_true _ _).mp h
  simp only [Bool.and_eq_true, beq_iff_eq, Bool.not_eq_true', Option.any_eq_true] at hm
  obtain ⟨⟨⟨⟨hf, hcnt⟩, msg', hsent, hf', hcnt'⟩, hair⟩, hu⟩ := hm
  refine ⟨msg, msg', hdec, ⟨Nat.zero_le _, fun i hi => ?_⟩, hsent, ?_, hu, fun q hq => ?_⟩
  · have hget : (flagsOf msg)[i]? = some (ax25Repeated msg i) := by simp [flagsOf, hi]
    rw [hf] at hget
    obtain rfl | rfl : i = 0 ∨ i = 1 := by omega
    · simp [← Option.some.inj hget]
    · simp [← Option.some.inj hget]
  · rintro hnil
    rw [hnil] at hair
    exact absurd hair (by decide)
  · rw [flagsOf, hcnt'] at hf'
    obtain ⟨h0, h1⟩ := List.cons.inj hf'
    have h1 : ax25Repeated msg' 1 = true := List.singleton_inj.mp h1
    have hq1 := (hq.2 1 (by omega)).mp h1
    have hq0 := (hq.2 0 (by omega)).mpr (by omega)
    rw [h0] at hq0
    exact absurd hq0 (by decide)

end TinyAprs
