/-
# Calls as text

`ax25call_to_string` prints a call with its SSID, `ax25call_from_string`
reads one (`utils.c`). The reader takes the first six characters up to the
`-` in upper case, and of what follows the digits, as a number in a byte
(`ax25callFromString_eq`); for calls with an SSID of 0 to 15 the two undo
each other (`call_text_round_trip`). But no range is checked: the printer
takes bit 7 of the SSID for a mark, and the address on the air has room for
four bits. So what the console shows of a call that was typed in is what goes
on the air exactly when the number typed is small enough, or a byte's
overflow makes it so (`console_shows_air_iff`).
-/
import TinyAprs.Ax25Msg
import TinyAprs.CallStore
import TinyAprs.Lib.Decimal
import TinyAprs.Lib.Terminated

namespace TinyAprs

open Decimal Terminated

/-! ### Printing -/

/-- What `ax25call_to_string` prints behind the call: the SSID, and the mark
of a repeated call. -/
def ssidText (ssid : UInt8) : List UInt8 :=
  let s := ssid &&& 0x7f
  (if s > 0 then
    if s < 10 then [0x2d, s + 0x30] else [0x2d, s / 10 + 0x30, s - s / 10 * 10 + 0x30]
  else []) ++ if ssid &&& 0x80 ≠ 0 then [0x2a] else []

/-- `ax25call_to_string`: what it writes, with the NUL. -/
def ax25callToString (call : AX25Call) : List UInt8 := cstr call.call ++ ssidText call.ssid ++ [0]

theorem ssidText_free (ssid : UInt8) : 0 ∉ ssidText ssid := by
  revert ssid
  decide +kernel

theorem cstr_free (call : Vector UInt8 6) : 0 ∉ cstr call := by
  intro h
  have := List.mem_takeWhile_imp h
  simp at this

theorem cString_toString (a : AX25Call) : cString (ax25callToString a) = cstr a.call ++ ssidText a.ssid := by
  have hfree : 0 ∉ cstr a.call ++ ssidText a.ssid := by simp [cstr_free, ssidText_free]
  exact takeWhile_free hfree []

/-! ### Reading -/

/-- What is read: the length is a `uint8_t`. -/
def typed (buf : List UInt8) : List UInt8 := buf.take (buf.length % 256)

/-- The characters before the `-`. -/
def callPart (s : List UInt8) : List UInt8 := s.takeWhile (· != 0x2d)

/-- The digits behind it. -/
def ssidDigits (s : List UInt8) : List UInt8 := ((s.dropWhile (· != 0x2d)).drop 1).filter isdigit

/-- Six characters in upper case, padded with NUL. -/
def upperCall (w : List UInt8) : Vector UInt8 6 := Vector.ofFn fun i => (w.map toupper).getD i 0

theorem upperCall_snoc (w : List UInt8) (c : UInt8) :
    (upperCall w).setIfInBounds w.length (toupper c) = upperCall (w ++ [c]) := by
  refine Vector.ext fun i hi => ?_
  rw [Vector.getElem_setIfInBounds]
  simp only [upperCall, Vector.getElem_ofFn, List.getD_eq_getElem?_getD]
  split_ifs with hw
  · simp [← hw]
  · rcases Nat.lt_or_gt_of_ne hw with hlt | hgt
    · simp [List.getElem?_append_right, show w.length ≤ i by omega, show i - w.length ≠ 0 by omega]
    · simp [List.getElem?_append_left, hgt]

theorem upperCall_of_ge {w : List UInt8} (h : 6 ≤ w.length) (c : UInt8) : upperCall (w ++ [c]) = upperCall w := by
  refine Vector.ext fun i hi => ?_
  simp [upperCall, List.getElem?_append_left, show i < w.length by omega]

theorem ofNat_digit (v : ℕ) {c : UInt8} (h : isdigit c = true) :
    UInt8.ofNat v * 10 + (c - 0x30) = UInt8.ofNat (10 * v + (c.toNat - 48)) := by
  have hdigit : ∀ c : UInt8, isdigit c = true → c - 0x30 = UInt8.ofNat (c.toNat - 48) := by decide +kernel
  rw [hdigit c h, UInt8.ofNat_add, UInt8.ofNat_mul, UInt8.mul_comm]
  rfl

/-- Behind the `-` the digits are read, and nothing else. -/
theorem fromStringLoop_ssid : ∀ (s : List UInt8) (i v : ℕ) (call : Vector UInt8 6),
    fromStringLoop s i true ⟨call, UInt8.ofNat v⟩ =
      ⟨call, UInt8.ofNat ((s.filter isdigit).foldl (fun v c => 10 * v + (c.toNat - 48)) v)⟩
  | [], _, _, _ => rfl
  | c :: s, i, v, call => by
    cases hc : isdigit c with
    | true =>
      rw [fromStringLoop, if_pos hc, ofNat_digit v hc, fromStringLoop_ssid s, List.filter_cons_of_pos hc,
        List.foldl_cons]
    | false => simp [fromStringLoop, hc, fromStringLoop_ssid s]

/-- Before it, the call; `w` is what has been read of it. -/
theorem fromStringLoop_call (s w : List UInt8) : fromStringLoop s w.length false ⟨upperCall w, 0⟩ =
    ⟨upperCall (w ++ callPart s), UInt8.ofNat (value (ssidDigits s))⟩ := by
  induction s generalizing w with
  | nil => simp [fromStringLoop, callPart, ssidDigits, value]
  | cons c s ih =>
    by_cases hc : c = 0x2d
    · subst hc
      simpa [fromStringLoop, callPart, ssidDigits, value] using
        fromStringLoop_ssid s (w.length + 1) 0 (upperCall w)
    · have hnext := ih (w ++ [c])
      rw [List.length_append, List.length_singleton, List.append_assoc, List.singleton_append] at hnext
      have hpart : callPart (c :: s) = c :: callPart s := by simp [callPart, hc]
      have hdigits : ssidDigits (c :: s) = ssidDigits s := by simp [ssidDigits, hc]
      rw [fromStringLoop, if_neg hc, hpart, hdigits, ← hnext]
      split_ifs with h6
      · rw [upperCall_of_ge h6]
      · rw [← upperCall_snoc]

/-- What `ax25call_from_string` makes of a string. -/
theorem ax25callFromString_eq (buf : List UInt8) : ax25callFromString buf =
    ⟨upperCall (callPart (typed buf)), UInt8.ofNat (value (ssidDigits (typed buf)))⟩ :=
  fromStringLoop_call (typed buf) []

/-! ### The round trip -/

def isalnum (c : UInt8) : Bool := upperAlnum c || decide (0x61 ≤ c ∧ c ≤ 0x7a)

theorem isalnum_facts : ∀ c : UInt8, isalnum c = true → c ≠ 0x2d ∧ toupper c ≠ 0 := by decide +kernel

theorem upperAlnum_facts : ∀ c : UInt8, upperAlnum c = true → isalnum c = true ∧ toupper c = c := by decide +kernel

/-- The characters of a call that is not longer than its array. -/
theorem cstr_upperCall {w : List UInt8} (h6 : w.length ≤ 6) (hw : ∀ c ∈ w, toupper c ≠ 0) :
    cstr (upperCall w) = w.map toupper := by
  have hlist : (upperCall w).toList = w.map toupper ++ List.replicate (6 - w.length) 0 := by
    refine List.ext_getElem (by simp; omega) fun i h1 h2 => ?_
    simp only [upperCall, Vector.getElem_toList, Vector.getElem_ofFn, List.getD_eq_getElem?_getD,
      List.getElem_append, List.length_map]
    split_ifs with hi
    · simp [hi]
    · simp [Nat.le_of_not_lt hi]
  have hzero : ∀ n, (List.replicate n (0 : UInt8)).takeWhile (· != 0) = [] := by
    intro n
    cases n <;> simp [List.replicate_succ]
  rw [cstr, hlist, List.takeWhile_append_of_pos, hzero, List.append_nil]
  intro c hc
  obtain ⟨b, hb, rfl⟩ := List.mem_map.mp hc
  simpa using hw b hb

/-- What is read of a call without a `-` and of what stands behind it. -/
theorem fromString_parts {w tail : List UInt8} (hw : ∀ c ∈ w, c ≠ 0x2d) (htail : tail.head?.all (· == 0x2d) = true)
    (hlen : (w ++ tail).length < 256) :
    ax25callFromString (w ++ tail) = ⟨upperCall w, UInt8.ofNat (value ((tail.drop 1).filter isdigit))⟩ := by
  have htyped : typed (w ++ tail) = w ++ tail := by
    rw [typed, Nat.mod_eq_of_lt hlen, List.take_length]
  have hpos : ∀ c ∈ w, (c != 0x2d) = true := by
    intro c hc
    simpa using hw c hc
  have hend : tail.takeWhile (· != 0x2d) = [] ∧ tail.dropWhile (· != 0x2d) = tail := by
    cases tail with
    | nil => exact ⟨rfl, rfl⟩
    | cons c tail =>
      obtain rfl : c = 0x2d := by simpa using htail
      exact ⟨rfl, rfl⟩
  rw [ax25callFromString_eq, htyped, callPart, ssidDigits, List.takeWhile_append_of_pos hpos,
    List.dropWhile_append_of_pos hpos, hend.1, hend.2, List.append_nil]

theorem ssidText_read : ∀ ssid : UInt8, ssid ≤ 15 → (ssidText ssid).head?.all (· == 0x2d) = true ∧
    (ssidText ssid).length ≤ 3 ∧ UInt8.ofNat (value (((ssidText ssid).drop 1).filter isdigit)) = ssid := by
  decide +kernel

theorem ssidText_of_decimal : ∀ n ≤ 15, 1 ≤ n → ssidText (UInt8.ofNat n) = 0x2d :: decimal n ∧
    (decimal n).filter isdigit = decimal n ∧ value (decimal n) = n ∧ (decimal n).length ≤ 2 ∧
    (decimal n).map toupper = decimal n := by
  decide +kernel

theorem fromString_toString {a : AX25Call} (ha : ValidCall a) :
    ax25callFromString (cString (ax25callToString a)) = a := by
  obtain ⟨⟨w, -, hw6, hal, hcall⟩, hssid⟩ := ha
  obtain ⟨hhead, hlen, hread⟩ := ssidText_read a.ssid hssid
  have hupper : w.map toupper = w := by
    refine (List.map_congr_left fun c hc => ?_).trans (List.map_id w)
    exact (upperAlnum_facts c (hal c hc)).2
  have hvec : a.call = upperCall w := by
    refine Vector.ext fun i hi => ?_
    have hget : a.call[i] = (w ++ List.replicate (6 - w.length) (0 : UInt8)).getD i 0 := by
      rw [← hcall]
      simp [hi]
    rw [hget, upperCall, Vector.getElem_ofFn, hupper, List.getD_eq_getElem?_getD, List.getD_eq_getElem?_getD]
    by_cases hiw : i < w.length
    · simp [List.getElem?_append_left, hiw]
    · simp [List.getElem?_append_right, Nat.le_of_not_lt hiw, show i - w.length < 6 - w.length by omega]
  have hfacts : ∀ c ∈ w, c ≠ 0x2d ∧ toupper c ≠ 0 := by
    intro c hc
    exact isalnum_facts c (upperAlnum_facts c (hal c hc)).1
  have hcstr : cstr a.call = w := by
    rw [hvec, cstr_upperCall hw6 fun c hc => (hfacts c hc).2, hupper]
  rw [cString_toString, hcstr, fromString_parts (fun c hc => (hfacts c hc).1) hhead (by simp; omega), hread, ← hvec]

/-- A text of letters and digits with an SSID or none, read and printed. -/
theorem toString_fromString {w tail : List UInt8} (hw6 : w.length ≤ 6) (hal : ∀ c ∈ w, isalnum c = true)
    (htail : tail = [] ∨ ∃ n, 1 ≤ n ∧ n ≤ 15 ∧ tail = 0x2d :: decimal n) :
    ax25callToString (ax25callFromString (w ++ tail)) = (w ++ tail).map toupper ++ [0] := by
  have hfacts : ∀ c ∈ w, c ≠ 0x2d ∧ toupper c ≠ 0 := by
    intro c hc
    exact isalnum_facts c (hal c hc)
  have hcstr := cstr_upperCall hw6 fun c hc => (hfacts c hc).2
  rcases htail with rfl | ⟨n, h1, h15, rfl⟩
  · rw [fromString_parts (fun c hc => (hfacts c hc).1) rfl (by simp; omega), ax25callToString, hcstr]
    simp [ssidText, value]
  · obtain ⟨htext, hdigits, hvalue, hlen, hupper⟩ := ssidText_of_decimal n h15 h1
    rw [fromString_parts (fun c hc => (hfacts c hc).1) rfl (by simp; omega), ax25callToString, hcstr,
      List.drop_one, List.tail_cons, hdigits, hvalue, htext, List.map_append, List.map_cons, hupper]
    rfl

/-- **Printing and reading a call undo each other.** Every call of 1 to 6
upper-case letters and digits with an SSID of 0 to 15 is read from its own
text; and every text of 1 to 6 letters and digits, with a `-` and an SSID of
1 to 15 or without, is printed from what is read of it, in upper case. -/
theorem call_text_round_trip :
    (∀ a, ValidCall a → ax25callFromString (cString (ax25callToString a)) = a) ∧
    ∀ w tail : List UInt8, 1 ≤ w.length → w.length ≤ 6 → (∀ c ∈ w, isalnum c = true) →
      (tail = [] ∨ ∃ n, 1 ≤ n ∧ n ≤ 15 ∧ tail = 0x2d :: decimal n) →
      ax25callToString (ax25callFromString (w ++ tail)) = (w ++ tail).map toupper ++ [0] := by
  constructor
  · intro a ha
    exact fromString_toString ha
  · intro w tail _ hw6 hal htail
    exact toString_fromString hw6 hal htail

/-- `n0call` -/
def n0call : List UInt8 := [0x6e, 0x30, 0x63, 0x61, 0x6c, 0x6c]

/-- The default call, read from its text, and `n0call-9` printed. -/
theorem n0call_nine_round_trip :
    ax25callFromString (cString (ax25callToString defaultCalldata.myCall)) = defaultCalldata.myCall ∧
    ax25callToString (ax25callFromString (n0call ++ 0x2d :: decimal 9)) =
      (n0call ++ 0x2d :: decimal 9).map toupper ++ [0] :=
  ⟨call_text_round_trip.1 _
      ⟨⟨defaultCalldata.myCall.call.toList, by decide, by decide, by decide +kernel, by decide⟩, by decide⟩,
    call_text_round_trip.2 _ _ (by decide) (by decide) (by decide +kernel) (Or.inr ⟨9, by decide, by decide, rfl⟩)⟩

/-! ### What the console shows and what goes on the air -/

/-- The SSID a text shows: none behind the call is 0, and a `*` is no part of
it. `none` if what stands there is not a number. -/
def shownSsid (text : List UInt8) : Option ℕ :=
  match text.dropWhile (· != 0x2d) with
  | [] => some 0
  | _ :: rest =>
    let digits := rest.takeWhile (· != 0x2a)
    if digits ≠ [] ∧ digits.all isdigit then some (value digits) else none

/-- The text of a call fits the 10 bytes of `cmd_info` and
`cmd_settings_path`, and shows the SSID that `ax25_decode` finds wherever the
address that `ax25_sendCall` sends has been received. -/
def ShownAsSent (a : AX25Call) : Prop :=
  (ax25callToString a).length ≤ 10 ∧
    ∀ (last repeated : Bool) (buf : ℕ → UInt8) (p : ℕ), Cells.At buf p (callBytes a last repeated) →
      shownSsid (cString (ax25callToString a)) = some (decodeSsid (buf (p + 6))).toNat

/-- The texts that `AT+CALL` or `AT+PATH` reads a call from. -/
def StoreOp.texts : StoreOp → List (List UInt8)
  | .call value => if valueLen value > 0 then [value] else []
  | .path value =>
    if valueLen value = 0 then []
    else match strtok value with
      | none => []
      | some (path1, rest) =>
        if path1.length % 256 = 0 then []
        else path1 :: match strtok rest with
          | some (path2, _) => if path2.length % 256 > 0 then [path2] else []
          | none => []
  | _ => []

/-- The calls that `AT+CALL` or `AT+PATH` has stored, if it has stored any. -/
def StoreOp.stored (ee : Eeprom) (op : StoreOp) : List AX25Call :=
  if op.texts = [] then []
  else match op with
    | .call _ => [(settingsGetCallData ee).myCall]
    | .path _ => [(settingsGetCallData ee).path1, (settingsGetCallData ee).path2]
    | _ => []

/-- The number typed, as the byte it is kept in: 0 to 15, or 128 to 143 where
bit 7 is taken for the mark; and with two digits and the mark there is room
for five characters only. -/
def InRange (s : List UInt8) : Prop :=
  let n := value (ssidDigits (typed s)) % 256
  n % 128 ≤ 15 ∧ (138 ≤ n → (callPart (typed s)).length ≤ 5)

instance (s : List UInt8) : Decidable (InRange s) := inferInstanceAs (Decidable (_ ∧ _))

theorem shownSsid_iff : ∀ ssid : UInt8,
    shownSsid (ssidText ssid) = some (ssid &&& 0x0F).toNat ↔ ssid.toNat % 128 ≤ 15 := by
  decide +kernel

theorem length_ssidText : ∀ ssid : UInt8, ssid.toNat % 128 ≤ 15 →
    if 138 ≤ ssid.toNat then (ssidText ssid).length = 4 else (ssidText ssid).length ≤ 3 := by
  decide +kernel

theorem toupper_facts : ∀ c : UInt8, c ≠ 0 → c ≠ 0x2d → toupper c ≠ 0 ∧ toupper c ≠ 0x2d := by decide +kernel

theorem upperCall_take (w : List UInt8) : upperCall (w.take 6) = upperCall w := by
  refine Vector.ext fun i hi => ?_
  simp [upperCall]

theorem shownSsid_append {w : List UInt8} (hw : ∀ c ∈ w, c ≠ 0x2d) (text : List UInt8) :
    shownSsid (w ++ text) = shownSsid text := by
  have hpos : ∀ c ∈ w, (c != 0x2d) = true := by
    intro c hc
    simpa using hw c hc
  rw [shownSsid, shownSsid, List.dropWhile_append_of_pos hpos]

theorem shownAsSent_iff {w : List UInt8} (hw : ∀ c ∈ w, c ≠ 0 ∧ c ≠ 0x2d) (ssid : UInt8) :
    ShownAsSent ⟨upperCall w, ssid⟩ ↔ ssid.toNat % 128 ≤ 15 ∧ (138 ≤ ssid.toNat → w.length ≤ 5) := by
  have hfacts : ∀ c ∈ w, toupper c ≠ 0 ∧ toupper c ≠ 0x2d := by
    intro c hc
    exact toupper_facts c (hw c hc).1 (hw c hc).2
  have hcstr : cstr (upperCall w) = (w.take 6).map toupper := by
    rw [← upperCall_take]
    exact cstr_upperCall (by simp) fun c hc => (hfacts c (List.mem_of_mem_take hc)).1
  have hshown : shownSsid (cString (ax25callToString ⟨upperCall w, ssid⟩)) = shownSsid (ssidText ssid) := by
    rw [cString_toString, hcstr]
    apply shownSsid_append
    intro c hc
    obtain ⟨b, hb, rfl⟩ := List.mem_map.mp hc
    exact (hfacts b (List.mem_of_mem_take hb)).2
  have hlength : (ax25callToString ⟨upperCall w, ssid⟩).length = min 6 w.length + (ssidText ssid).length + 1 := by
    simp [ax25callToString, hcstr, Nat.add_assoc]
  have hair : ∀ {last repeated : Bool} {buf : ℕ → UInt8} {p : ℕ},
      Cells.At buf p (callBytes ⟨upperCall w, ssid⟩ last repeated) → decodeSsid (buf (p + 6)) = ssid &&& 0x0F := by
    intro last repeated buf p hat
    rw [(decode_callBytes hat).2, decodeSsid_ssidByte]
  rw [ShownAsSent, hlength, hshown]
  constructor
  · rintro ⟨hlen, hssid⟩
    have hat := Cells.at_write (callBytes ⟨upperCall w, ssid⟩ false false) (fun _ => 0) 0
    have hrange := hssid false false _ 0 hat
    rw [hair hat] at hrange
    have hin := (shownSsid_iff ssid).mp hrange
    have htext := length_ssidText ssid hin
    refine ⟨hin, fun h138 => ?_⟩
    rw [if_pos h138] at htext
    omega
  · rintro ⟨hin, hcall⟩
    have htext := length_ssidText ssid hin
    constructor
    · split_ifs at htext with h138
      · have h5 := hcall h138
        omega
      · omega
    · intro last repeated buf p hat
      rw [hair hat]
      exact (shownSsid_iff ssid).mpr hin

/-- What is read from a text is shown as it is sent when the number in it is
in range. -/
theorem fromString_shown {s : List UInt8} (hs : 0 ∉ s) : ShownAsSent (ax25callFromString s) ↔ InRange s := by
  have hpart : ∀ c ∈ callPart (typed s), c ≠ 0 ∧ c ≠ 0x2d := by
    intro c hc
    constructor
    · rintro rfl
      exact hs (List.mem_of_mem_take ((List.takeWhile_prefix _).subset hc))
    · simpa using List.mem_takeWhile_imp hc
  rw [ax25callFromString_eq, shownAsSent_iff hpart, UInt8.toNat_ofNat']
  rfl

theorem shownAsSent_empty : ShownAsSent ⟨.replicate 6 0, 0⟩ :=
  (shownAsSent_iff (w := []) (by simp) 0).mpr (by decide)

theorem strtok_free {z : UInt8} {s token rest : List UInt8} (h : strtok s = some (token, rest)) (hs : z ∉ s) :
    z ∉ token ∧ z ∉ rest := by
  unfold strtok at h
  simp only [Option.ite_none_left_eq_some, Option.some.injEq, Prod.mk.injEq] at h
  obtain ⟨-, rfl, rfl⟩ := h
  have hdrop : ∀ c ∈ s.dropWhile (· == 0x2c), c ∈ s := fun c hc => (List.dropWhile_suffix _).subset hc
  constructor
  · intro hz
    exact hs (hdrop z ((List.takeWhile_prefix _).subset hz))
  · intro hz
    exact hs (hdrop z ((List.dropWhile_suffix _).subset (List.mem_of_mem_drop hz)))

theorem StoreOp.texts_free {value : List UInt8} (hfree : 0 ∉ value) {op : StoreOp}
    (hop : op = .call value ∨ op = .path value) : ∀ s ∈ op.texts, 0 ∉ s := by
  rcases hop with rfl | rfl
  · intro s hs
    simp only [texts, List.mem_ite_nil_right, List.mem_singleton] at hs
    rw [hs.2]
    exact hfree
  · intro s hs
    simp only [texts] at hs
    split_ifs at hs with hlen
    · cases hs
    · rcases h1 : strtok value with _ | ⟨path1, rest⟩
      · simp [h1] at hs
      · obtain ⟨hfree1, hrest⟩ := strtok_free h1 hfree
        rcases h2 : strtok rest with _ | ⟨path2, rest2⟩
        · simp only [h1, h2, List.mem_ite_nil_left, List.mem_singleton] at hs
          rw [hs.2]
          exact hfree1
        · simp only [h1, h2, List.mem_ite_nil_left, List.mem_cons, List.mem_ite_nil_right, List.not_mem_nil, or_false] at hs
          rcases hs.2 with rfl | ⟨-, rfl⟩
          · exact hfree1
          · exact (strtok_free h2 hrest).1

/-- What `AT+CALL` and `AT+PATH` store is what is read from their texts, and
an empty call for the path's second that is left out. -/
theorem StoreOp.stored_of_texts {t t' : Tnc} {value : List UInt8} {op : StoreOp}
    (hop : op = .call value ∨ op = .path value) (h : op.apply t = some t') (P : AX25Call → Prop)
    (hempty : P ⟨.replicate 6 0, 0⟩) :
    (∀ a ∈ op.stored t'.eeprom, P a) ↔ ∀ s ∈ op.texts, P (ax25callFromString s) := by
  obtain ⟨t'', happly, hcalls⟩ := op.apply_calls t
  obtain rfl : t'' = t' := Option.some.inj (happly.symm.trans h)
  rcases hop with rfl | rfl
  · by_cases hlen : valueLen value > 0
    · simp [stored, texts, hcalls, onCalls, hlen]
    · simp [stored, texts, hlen]
  · by_cases hlen : valueLen value = 0
    · simp [stored, texts, hlen]
    · rcases h1 : strtok value with _ | ⟨path1, rest⟩
      · simp [stored, texts, hlen, h1]
      · by_cases hpath1 : path1.length % 256 = 0
        · simp [stored, texts, hlen, h1, hpath1]
        · rcases h2 : strtok rest with _ | ⟨path2, rest2⟩
          · simp [stored, texts, hcalls, onCalls, pathOf, hlen, h1, h2, hpath1, hempty]
          · by_cases hpath2 : path2.length % 256 > 0
            · simp [stored, texts, hcalls, onCalls, pathOf, hlen, h1, h2, hpath1, hpath2]
            · simp [stored, texts, hcalls, onCalls, pathOf, hlen, h1, h2, hpath1, hpath2, hempty]

/-- **What the console shows is what goes on the air, for numbers in range.**
Whatever value `AT+CALL` or `AT+PATH` is given, on any TNC: the command
returns, and every call it has stored has a text of at most 10 bytes that
shows the SSID of its address on the air, exactly when every number typed is,
as a byte, 0 to 15 or 128 to 143, and above 137 stands behind a call of at
most five characters. -/
theorem console_shows_air_iff (t : Tnc) (value : List UInt8) (hfree : 0 ∉ value) (op : StoreOp)
    (hop : op = .call value ∨ op = .path value) : ∃ t', op.apply t = some t' ∧
      ((∀ a ∈ op.stored t'.eeprom, ShownAsSent a) ↔ ∀ s ∈ op.texts, InRange s) := by
  obtain ⟨t', happly, -⟩ := op.apply_calls t
  refine ⟨t', happly, ?_⟩
  rw [StoreOp.stored_of_texts hop happly ShownAsSent shownAsSent_empty]
  apply forall₂_congr
  intro s hs
  exact fromString_shown (StoreOp.texts_free hfree hop s hs)

/-- `AT+CALL=n0call-9` -/
theorem console_shows_air_nine : ∃ t', (StoreOp.call (n0call ++ [0x2d, 0x39])).apply factoryTnc = some t' ∧
    ∀ a ∈ (StoreOp.call (n0call ++ [0x2d, 0x39])).stored t'.eeprom, ShownAsSent a := by
  obtain ⟨t', happly, hiff⟩ := console_shows_air_iff factoryTnc (n0call ++ [0x2d, 0x39]) (by decide) _ (Or.inl rfl)
  refine ⟨t', happly, hiff.mpr ?_⟩
  intro s hs
  obtain rfl : s = n0call ++ [0x2d, 0x39] := by simpa [StoreOp.texts, valueLen, n0call] using hs
  decide

theorem call_not_shown {value : List UInt8} (hfree : 0 ∉ value) (hlen : valueLen value > 0) (hout : ¬InRange value)
    (t : Tnc) : ∃ t', (StoreOp.call value).apply t = some t' ∧
      ∃ a ∈ (StoreOp.call value).stored t'.eeprom, ¬ShownAsSent a := by
  refine ⟨_, rfl, ?_⟩
  by_contra hall
  push Not at hall
  rw [StoreOp.stored_of_texts (Or.inl rfl) rfl ShownAsSent shownAsSent_empty] at hall
  have hshown := hall value (by simp [StoreOp.texts, hlen])
  exact hout ((fromString_shown hfree).mp hshown)

/-- `AT+CALL=n0call-16` shows 16, and 0 is sent; the text of
`AT+CALL=n0call-138` has 11 bytes. -/
theorem ssid_sixteen_sent_as_zero :
    (∃ t', (StoreOp.call (n0call ++ [0x2d, 0x31, 0x36])).apply factoryTnc = some t' ∧
      ∃ a ∈ (StoreOp.call (n0call ++ [0x2d, 0x31, 0x36])).stored t'.eeprom, ¬ShownAsSent a) ∧
    (∃ t', (StoreOp.call (n0call ++ [0x2d, 0x31, 0x33, 0x38])).apply factoryTnc = some t' ∧
      ∃ a ∈ (StoreOp.call (n0call ++ [0x2d, 0x31, 0x33, 0x38])).stored t'.eeprom, ¬ShownAsSent a) ∧
    (ax25callToString (ax25callFromString (n0call ++ [0x2d, 0x31, 0x33, 0x38]))).length = 11 := by
  refine ⟨?_, ?_, by decide⟩
  · exact call_not_shown (by decide) (by decide) (by decide) factoryTnc
  · exact call_not_shown (by decide) (by decide) (by decide) factoryTnc

end TinyAprs
