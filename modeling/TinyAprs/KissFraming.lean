/-
# Framing integrity of the KISS line

What a receiver of the KISS line owes its caller is `FramingIntegrity`: a
frame handed over is the whole unescaped content between two FENDs in a row,
every frame that fits is handed over, and a frame that does not fit is
dropped whole. `kiss_poll_serial` keeps it as long as every byte finds the
calls before it back, no byte finds the frame before it timed out, no frame
has more than 255 bytes, and the line begins with a FEND
(`framingIntegrity_of_undisturbed`). Without that it does not: `readLen` has
8 bits and starts again from 0 at the 256th byte, well below the bound of 328
the code checks, and what follows is handed over as a frame of its own
(`long_frame_cut`); so is what follows a timeout. And behind a frame that
`kiss_handle_frame` does not come back from, no byte is polled at all.
-/
import TinyAprs.KissRun

namespace TinyAprs

open Mealy

def kissBoot : KissCtx := kissInit serialreaderInit

/-- The TNC after the bytes, from power-up. -/
def kissAfter (t : Tnc) (s : List KissByte) : Option KissTnc := final tncStep (some ⟨t, kissBoot⟩) s

/-- Every frame handed over is a whole one, and every whole one that fits is
handed over. -/
structure FramingIntegrity (t : Tnc) (line : List KissByte) : Prop where
  /-- What is handed over at a byte is all that was sent since the last FEND. -/
  complete : ∀ pre x f, pre ++ [x] <+: line → f ∈ (tncStep (kissAfter t pre) x).2.map Handed.bytes →
    x.byte = kissFend ∧ ∃ pre' y seg, pre = pre' ++ y :: seg ∧ y.byte = kissFend ∧ FendFree (seg.map KissByte.byte) ∧
      f = unescape (seg.map KissByte.byte)
  /-- A well-escaped frame that fits, sent without a gap, is handed over. -/
  handed : ∀ pre y seg z data, pre ++ y :: seg ++ [z] <+: line → y.byte = kissFend → z.byte = kissFend →
    seg.map KissByte.byte = sendToSerial data → 1 ≤ data.length → data.length ≤ readerBufLen.toNat - 3 →
    NoGap ((seg ++ [z]).map KissByte.timed) →
    (tncStep (kissAfter t (pre ++ y :: seg)) z).2.map Handed.bytes = [data]
  /-- A longer one is dropped whole. -/
  dropped : ∀ pre y seg z data, pre ++ y :: seg ++ [z] <+: line → y.byte = kissFend → z.byte = kissFend →
    seg.map KissByte.byte = sendToSerial data → readerBufLen.toNat - 3 < data.length →
    framesHandled (kissAfter t (pre ++ [y])) (seg ++ [z]) = []

/-- A byte that finds the receiver in order: the calls made so far are back,
and the byte is a FEND, or comes in time and `readLen` can count it. -/
def Undisturbed : Option KissTnc → KissByte → Prop
  | none, _ => False
  | some s, x => x.byte = kissFend ∨
      (s.kiss.timedOut (Int32.ofNat x.time) = false ∧ (x.byte = kissFesc ∨ s.kiss.reader.readLen < 255))

/-- Every byte of the line finds the receiver in order. -/
def UndisturbedRun : Option KissTnc → List KissByte → Prop
  | _, [] => True
  | s, x :: line => Undisturbed s x ∧ UndisturbedRun (tncStep s x).1 line

instance decidableUndisturbed : ∀ (s : Option KissTnc) (x : KissByte), Decidable (Undisturbed s x)
  | none, _ => inferInstanceAs (Decidable False)
  | some _, _ => inferInstanceAs (Decidable (_ ∨ _))

instance decidableUndisturbedRun : ∀ (s : Option KissTnc) (line : List KissByte), Decidable (UndisturbedRun s line)
  | _, [] => inferInstanceAs (Decidable True)
  | s, x :: line =>
    have : Decidable (UndisturbedRun (tncStep s x).1 line) := decidableUndisturbedRun (tncStep s x).1 line
    inferInstanceAs (Decidable (_ ∧ _))

/-! ### Unescaping what was escaped -/

theorem foldl_unesc_word (g : List UInt8) (c : UInt8) :
    (kissStuffing.word c).foldl unescStep (g, false) = (g ++ [c], false) := by
  cases hc : kissStuffing.special c with
  | false => rw [Stuffing.word_of_plain _ hc, List.foldl_cons, unescStep_plain hc, List.foldl_nil]
  | true =>
    have hesc : unescStep (g, false) kissStuffing.esc = (g, true) := rfl
    rw [Stuffing.word_of_special _ hc, List.foldl_cons, hesc, List.foldl_cons, unescStep_sub hc, List.foldl_nil]

theorem foldl_unesc_encode : ∀ (data g : List UInt8),
    (kissStuffing.encode data).foldl unescStep (g, false) = (g ++ data, false)
  | [], g => by simp
  | c :: data, g => by
    rw [Stuffing.encode_cons, List.foldl_append, foldl_unesc_word, foldl_unesc_encode data,
      List.append_assoc, List.singleton_append]

/-- The last byte of a stuffed word is one that is stored. -/
theorem word_last (c : UInt8) :
    ∃ w b, kissStuffing.word c = w ++ [b] ∧ b ≠ kissFend ∧ b ≠ kissFesc := by
  cases hc : kissStuffing.special c with
  | false => exact ⟨[], c, Stuffing.word_of_plain _ hc, (kissPlain_iff c).mp hc⟩
  | true => exact ⟨[kissFesc], kissStuffing.sub c, Stuffing.word_of_special _ hc, kissSub_ne c⟩

/-! ### An undisturbed run -/

variable {t : Tnc} {k : KissCtx} {line : List KissByte}

theorem undisturbedRun_append : ∀ (l₁ l₂ : List KissByte) {s : Option KissTnc},
    UndisturbedRun s (l₁ ++ l₂) ↔ UndisturbedRun s l₁ ∧ UndisturbedRun (final tncStep s l₁) l₂
  | [], _, _ => by simp [UndisturbedRun]
  | x :: l₁, l₂, s => by
    simp only [List.cons_append, UndisturbedRun, final_cons, undisturbedRun_append l₁ l₂, and_assoc]

theorem UndisturbedRun.of_prefix {pre : List KissByte} {s : Option KissTnc} (hrun : UndisturbedRun s line)
    (h : pre <+: line) : UndisturbedRun s pre := by
  obtain ⟨post, rfl⟩ := h
  exact ((undisturbedRun_append pre post).mp hrun).1

theorem UndisturbedRun.running {pre : List KissByte} {x : KissByte} (hrun : UndisturbedRun (some ⟨t, kissBoot⟩) line)
    (h : pre ++ [x] <+: line) : ∃ s, kissAfter t pre = some s ∧ Undisturbed (some s) x := by
  have hx := ((undisturbedRun_append pre [x]).mp (hrun.of_prefix h)).2.1
  rw [kissAfter]
  cases hs : final tncStep (some ⟨t, kissBoot⟩) pre with
  | none =>
    rw [hs] at hx
    exact absurd hx id
  | some s =>
    rw [hs] at hx
    exact ⟨s, rfl, hx⟩

/-- One byte other than FEND, when the receiver is in order. -/
theorem Held.undisturbed {s : List UInt8 × Bool} (h : Held s k) {x : KissByte} (hx : Undisturbed (some ⟨t, k⟩) x)
    (hne : x.byte ≠ kissFend) :
    ∃ k', tncStep (some ⟨t, k⟩) x = (some ⟨t, k'⟩, []) ∧ Held (unescStep s x.byte) k' := by
  obtain ⟨ht, hroom⟩ := hx.resolve_left hne
  have hk : kept k (Int32.ofNat x.time) s = s := by rw [kept, ht]; rfl
  have hroom' : x.byte = kissFesc ∨ (kept k (Int32.ofNat x.time) s).1.length < 255 := by
    rw [hk, ← h.readLen]
    exact hroom.imp_right UInt8.lt_iff_toNat_lt.mp
  obtain ⟨h1, h2⟩ := h.step (t.leaves x.turns) (Int32.ofNat x.time) hne hroom'
  rw [hk] at h1
  exact ⟨_, tncStep_quiet h2, h1⟩

theorem Held.run : ∀ (seg : List KissByte) {s : List UInt8 × Bool} {k : KissCtx}, Held s k →
    UndisturbedRun (some ⟨t, k⟩) seg → FendFree (seg.map KissByte.byte) →
    ∃ k', final tncStep (some ⟨t, k⟩) seg = some ⟨t, k'⟩ ∧ Held ((seg.map KissByte.byte).foldl unescStep s) k'
  | [], _, k, h, _, _ => ⟨k, rfl, h⟩
  | x :: seg, s, k, h, hrun, hfree => by
    obtain ⟨hx, hseg⟩ := not_or.mp (mt List.mem_cons.mpr hfree)
    obtain ⟨k₁, hstep, h1⟩ := h.undisturbed hrun.1 (Ne.symm hx)
    have hrest := hrun.2
    rw [hstep] at hrest
    rw [final_cons, hstep]
    exact Held.run seg h1 hrest hseg

/-- What the receiver holds after a FEND and bytes without one. -/
theorem held_after {pre seg : List KissByte} {y : KissByte} {s : KissTnc}
    (hrun : UndisturbedRun (some ⟨t, kissBoot⟩) (pre ++ y :: seg)) (hy : y.byte = kissFend)
    (hfree : FendFree (seg.map KissByte.byte)) (hs : kissAfter t (pre ++ y :: seg) = some s) :
    Held ((seg.map KissByte.byte).foldl unescStep ([], false)) s.kiss := by
  have happ : pre ++ y :: seg = (pre ++ [y]) ++ seg := by simp
  rw [happ, undisturbedRun_append] at hrun
  rw [kissAfter, happ, final_append] at hs
  cases hfend : final tncStep (some ⟨t, kissBoot⟩) (pre ++ [y]) with
  | none =>
    rw [hfend, (tnc_stopped seg).1] at hs
    exact absurd hs nofun
  | some s₁ =>
    rw [hfend] at hs hrun
    obtain ⟨k', hfinal, hheld⟩ := Held.run seg (held_run rfl pre hy hfend) hrun.2 hfree
    obtain rfl := Option.some.inj (hfinal.symm.trans hs)
    exact hheld

theorem exists_last_fend : ∀ seg : List KissByte,
    FendFree (seg.map KissByte.byte) ∨
      ∃ a y seg', seg = a ++ y :: seg' ∧ y.byte = kissFend ∧ FendFree (seg'.map KissByte.byte)
  | [] => Or.inl (by simp [FendFree])
  | x :: seg => by
    rcases exists_last_fend seg with hfree | ⟨a, y, seg', rfl, hy, hfree⟩
    · by_cases hx : x.byte = kissFend
      · exact Or.inr ⟨[], x, seg, rfl, hx, hfree⟩
      · refine Or.inl fun hmem => ?_
        rcases List.mem_cons.mp hmem with he | hmem
        · exact hx he.symm
        · exact hfree hmem
    · exact Or.inr ⟨x :: a, y, seg', rfl, hy, hfree⟩

theorem last_fend {x : KissByte} (hx : x.byte = kissFend) (seg : List KissByte) : ∃ pre' y seg',
    x :: seg = pre' ++ y :: seg' ∧ y.byte = kissFend ∧ FendFree (seg'.map KissByte.byte) := by
  rcases exists_last_fend (x :: seg) with hfree | h
  · exact absurd (List.mem_cons.mpr (Or.inl hx.symm)) hfree
  · exact h

/-! ### The frames handed over -/

/-- The receiver at the last byte of a well-escaped frame. -/
theorem held_data {pre seg : List KissByte} {y z : KissByte} {data : List UInt8}
    (hrun : UndisturbedRun (some ⟨t, kissBoot⟩) line) (hpre : pre ++ y :: seg ++ [z] <+: line)
    (hy : y.byte = kissFend) (hseg : seg.map KissByte.byte = sendToSerial data) :
    ∃ s, kissAfter t (pre ++ y :: seg) = some s ∧ Held (data, false) s.kiss := by
  have hfree : FendFree (seg.map KissByte.byte) := by
    rw [hseg, sendToSerial_eq]
    exact fendFree_encode data
  obtain ⟨s, hs, -⟩ := hrun.running hpre
  have h := held_after (hrun.of_prefix ((List.prefix_append _ _).trans hpre)) hy hfree hs
  rw [hseg, sendToSerial_eq, foldl_unesc_encode, List.nil_append] at h
  exact ⟨s, hs, h⟩

/-- The last byte of a frame is one that set `rxTick`. -/
theorem last_stored {seg : List KissByte} {data : List UInt8} (hseg : seg.map KissByte.byte = sendToSerial data)
    (hdata : 1 ≤ data.length) : ∃ seg' b, seg = seg' ++ [b] ∧ b.byte ≠ kissFend ∧ b.byte ≠ kissFesc := by
  obtain ⟨d, c, rfl⟩ := (List.eq_nil_or_concat data).resolve_left (List.length_pos_iff.mp hdata)
  obtain ⟨w, b, hw, hb⟩ := word_last c
  rw [List.concat_eq_append, sendToSerial_eq, Stuffing.encode_append, Stuffing.encode_cons,
    Stuffing.encode_nil, List.append_nil, hw, ← List.append_assoc] at hseg
  obtain ⟨s₁, s₂, rfl, -, hs₂⟩ := List.map_eq_append_iff.mp hseg
  obtain ⟨x, s', rfl, rfl, hs'⟩ := List.map_eq_cons_iff.mp hs₂
  obtain rfl : s' = [] := List.map_eq_nil_iff.mp hs'
  exact ⟨s₁, x, rfl, hb⟩

/-- A frame that was sent without a gap is there at its closing FEND. -/
theorem not_timedOut_at_fend {pre seg : List KissByte} {y z : KissByte} {data : List UInt8} {s : KissTnc}
    (hseg : seg.map KissByte.byte = sendToSerial data) (hdata : 1 ≤ data.length)
    (hgap : NoGap ((seg ++ [z]).map KissByte.timed)) (hs : kissAfter t (pre ++ y :: seg) = some s)
    (hheld : Held (data, false) s.kiss) : s.kiss.timedOut (Int32.ofNat z.time) = false := by
  obtain ⟨seg', b, rfl, hb1, hb2⟩ := last_stored hseg hdata
  have htick : s.kiss.rxTick = Int32.ofNat b.time := by
    rw [kissAfter, ← List.cons_append, ← List.append_assoc, final_append, final_cons, final_nil] at hs
    cases hmid : final tncStep (some ⟨t, kissBoot⟩) (pre ++ y :: seg') with
    | none =>
      rw [hmid] at hs
      exact absurd hs nofun
    | some m =>
      rw [hmid] at hs
      rw [tncStep_kiss hs]
      exact (rxTick_pollSerial _ _ hb1).trans (if_neg hb2)
  have hne := hheld.readLen_ne (List.length_pos_iff.mp hdata)
  have hgap' : b.time ≤ z.time ∧ z.time ≤ b.time + 2000 := by
    rw [NoGap, List.append_assoc, List.singleton_append, List.map_append] at hgap
    exact (List.isChain_cons_cons.mp hgap.right_of_append).1
  rw [← Bool.not_eq_true, timedOut_iff hne htick hgap'.1 (by omega)]
  omega

theorem Held.stepFend_tnc {s : List UInt8 × Bool} (h : Held s k) {x : KissByte} (hx : x.byte = kissFend) :
    (tncStep (some ⟨t, k⟩) x).2.map Handed.bytes =
      if s.2 = false ∧ (kept k (Int32.ofNat x.time) s).1 ≠ [] then [(kept k (Int32.ofNat x.time) s).1] else [] := by
  have hout := (h.stepFend (t.leaves x.turns) (Int32.ofNat x.time)).2
  rw [← hx] at hout
  rw [tncStep_out]
  exact hout

/-- **An undisturbed line is framed faithfully.** On a line that begins with
a FEND and on which every byte finds the receiver in order, each frame
handed over is a whole one and each whole frame is handed over. -/
theorem framingIntegrity_of_undisturbed (t : Tnc) (hfirst : ∀ x ∈ line.head?, x.byte = kissFend)
    (hrun : UndisturbedRun (some ⟨t, kissBoot⟩) line) : FramingIntegrity t line where
  complete pre x f hpre hf := by
    obtain ⟨s, hs, hx⟩ := hrun.running hpre
    cases pre with
    | nil =>
      obtain ⟨post, rfl⟩ := hpre
      have hboot : Held ([], false) kissBoot := ⟨rfl, rfl, Cells.at_nil _ _, rfl⟩
      rw [show kissAfter t [] = some ⟨t, kissBoot⟩ from rfl, hboot.stepFend_tnc (hfirst x rfl)] at hf
      unfold kept at hf
      split_ifs at hf <;> simp at *
    | cons y pre =>
      have hy : y.byte = kissFend := by
        obtain ⟨post, rfl⟩ := hpre
        exact hfirst y rfl
      obtain ⟨pre', y', seg, he, hy', hfree⟩ := last_fend hy pre
      rw [he] at hpre hf hs ⊢
      have hheld := held_after (hrun.of_prefix ((List.prefix_append _ _).trans hpre)) hy' hfree hs
      obtain ⟨t', k⟩ := s
      rw [hs] at hf
      by_cases hc : x.byte = kissFend
      · refine ⟨hc, pre', y', seg, rfl, hy', hfree, ?_⟩
        rw [hheld.stepFend_tnc hc] at hf
        unfold kept at hf
        split_ifs at hf with h1 h2 h2
        · exact absurd rfl h2.2
        · exact absurd hf List.not_mem_nil
        · exact List.mem_singleton.mp hf
        · exact absurd hf List.not_mem_nil
      · obtain ⟨k', hstep, -⟩ := hheld.undisturbed hx hc
        rw [hstep] at hf
        exact absurd hf List.not_mem_nil
  handed pre y seg z data hpre hy hz hseg hdata _ hgap := by
    obtain ⟨s, hs, hheld⟩ := held_data hrun hpre hy hseg
    have hkeep := not_timedOut_at_fend hseg hdata hgap hs hheld
    obtain ⟨t', k⟩ := s
    rw [hs, hheld.stepFend_tnc hz, kept, hkeep]
    exact if_pos ⟨rfl, List.length_pos_iff.mp hdata⟩
  dropped pre y seg z data hpre hy hz hseg hlong := by
    -- `readLen` counts the bytes held, and it has 8 bits
    obtain ⟨s, -, hheld⟩ := held_data hrun hpre hy hseg
    have hlt := s.kiss.reader.readLen.toNat_lt
    rw [hheld.readLen] at hlt
    exact absurd hlong (by show ¬ 327 < data.length; change data.length < 256 at hlt; omega)

/-- A line a millisecond a byte, with a free channel. -/
def onFreeChannel (bytes : List UInt8) : List KissByte := bytes.mapIdx fun i c => ⟨i, c, [.idle 0]⟩

/-- Two data frames with one FEND between them. -/
def shortLine : List KissByte := onFreeChannel [kissFend, 0x00, 0x41, kissFend, 0x00, 0x42, kissFend]

theorem framingIntegrity_of_undisturbed_short :
    framesHandled (some ⟨factoryTnc, kissBoot⟩) shortLine = [[0x00, 0x41], [0x00, 0x42]] ∧
      FramingIntegrity factoryTnc shortLine :=
  ⟨by decide +kernel, framingIntegrity_of_undisturbed factoryTnc (by decide +kernel) (by decide +kernel)⟩

def longData : List UInt8 := 0x00 :: List.replicate 256 0x41

def longSeg : List KissByte := longData.map fun c => ⟨0, c, []⟩

def longLine : List KissByte := ⟨0, kissFend, []⟩ :: longSeg ++ [⟨0, kissFend, []⟩]

/-- A frame of 257 bytes is below the bound the code checks, and its last byte
is handed over as a frame. -/
theorem long_frame_cut : framesHandled (some ⟨factoryTnc, kissBoot⟩) longLine = [[0x41]] ∧
    ¬ FramingIntegrity factoryTnc longLine := by
  have hcut : framesHandled (some ⟨factoryTnc, kissBoot⟩) longLine = [[0x41]] := by decide +kernel
  refine ⟨hcut, fun h => ?_⟩
  have hout := h.handed [] ⟨0, kissFend, []⟩ longSeg ⟨0, kissFend, []⟩ longData (List.prefix_refl _) rfl rfl
    (by decide +kernel) (by decide +kernel) (by decide +kernel) (by unfold NoGap; decide +kernel)
  have hmem : longData ∈ [[0x41]] := by
    rw [← hcut, longLine, framesHandled_snoc, List.mem_append]
    exact Or.inr (hout ▸ List.mem_singleton_self longData)
  exact absurd (congrArg List.length (List.mem_singleton.mp hmem)) (by decide +kernel)

end TinyAprs
