/-
# Whether a decoded message lies inside its frame

`ax25_decode` follows the extension bits of the addresses and never looks at
`frm_len`; the buffer behind a short frame still holds bytes of earlier
frames, and `msg.len` is an unsigned difference. So a message lies inside
its frame (`InFrame`) exactly when the frame itself holds its whole header
(`HeaderFits`): the addresses up to the first extension bit, or eight
repeaters, then ctrl and pid. A frame with a good CRC that stops before that
makes the decoder run on into stale bytes.
-/
import TinyAprs.Ax25Frame

namespace TinyAprs

open Mealy

/-- The message the hook gets lies inside the frame: its header ends within
the first `frm_len - 2` bytes, and its info is all the rest of them. -/
def InFrame (ctx : AX25Ctx) (m : AX25Msg) : Prop :=
  m.info.off ≤ ctx.frmLen - 2 ∧ m.info.off + m.len = ctx.frmLen - 2 ∧ m.len ≤ ctx.frmLen - 18

instance (ctx : AX25Ctx) (m : AX25Msg) : Decidable (InFrame ctx m) :=
  inferInstanceAs (Decidable (_ ∧ _ ∧ _))

/-- A frame without its CRC holds its whole header: `k` repeater addresses,
the last address marked or eight repeaters read, and ctrl and pid. -/
def HeaderFits (frame : List UInt8) : Prop :=
  ∃ k ≤ ax25MaxRpt, 16 + 7 * k ≤ frame.length ∧ (∀ j < k, frame.getD (13 + 7 * j) 0 &&& 0x01 = 0) ∧
    (k = ax25MaxRpt ∨ frame.getD (13 + 7 * k) 0 &&& 0x01 ≠ 0)

/-- Where the address list ends: at the first extension bit, or after all
the places in `rpt_lst`. -/
def AddrEnd (buf : ℕ → UInt8) (n p k : ℕ) : Prop :=
  k ≤ n ∧ (∀ j < k, buf (p + 7 * j) &&& 0x01 = 0) ∧ (k = n ∨ buf (p + 7 * k) &&& 0x01 ≠ 0)

theorem AddrEnd.unique {buf : ℕ → UInt8} {n p k k' : ℕ} (h : AddrEnd buf n p k)
    (h' : AddrEnd buf n p k') : k = k' := by
  obtain ⟨hk, hz, he⟩ := h
  obtain ⟨hk', hz', he'⟩ := h'
  rcases Nat.lt_trichotomy k k' with hlt | heq | hlt
  · rcases he with he | he
    · omega
    · exact absurd (hz' k hlt) he
  · exact heq
  · rcases he' with he' | he'
    · omega
    · exact absurd (hz k' hlt) he'

theorem decodeRpt_end (buf : ℕ → UInt8) : ∀ (n p : ℕ) (msg : AX25Msg),
    ∃ k, AddrEnd buf n p k ∧ (decodeRpt buf n p msg).1 = p + 1 + 7 * k
  | 0, p, msg => ⟨0, ⟨Nat.le_refl _, fun j hj => by omega, Or.inl rfl⟩, rfl⟩
  | n + 1, p, msg => by
    unfold decodeRpt
    by_cases hb : buf p &&& 0x01 = 0
    · rw [if_pos hb]
      obtain ⟨k, ⟨hk, hz, he⟩, hq⟩ := decodeRpt_end buf n (p + 7) (decodeRptAddr buf p msg)
      refine ⟨k + 1, ⟨by omega, fun j hj => ?_, ?_⟩, by rw [hq]; omega⟩
      · cases j with
        | zero => simpa using hb
        | succ j =>
          rw [show p + 7 * (j + 1) = p + 7 + 7 * j by omega]
          exact hz j (by omega)
      · rcases he with he | he
        · exact Or.inl (by omega)
        · refine Or.inr ?_
          rw [show p + 7 * (k + 1) = p + 7 + 7 * k by omega]
          exact he
    · rw [if_neg hb]
      exact ⟨0, ⟨Nat.zero_le _, fun j hj => by omega, Or.inr (by simpa using hb)⟩, rfl⟩

theorem getD_slice (buf : ℕ → UInt8) {n i : ℕ} (h : i < n) :
    (Cells.slice buf 0 n).getD i 0 = buf i := by
  simp [Cells.slice, List.getD_eq_getElem?_getD, h]

/-- The header fits the frame when the list the decoder follows ends there. -/
theorem headerFits_iff {buf : ℕ → UInt8} {n k : ℕ} (h : AddrEnd buf ax25MaxRpt 13 k) :
    HeaderFits (Cells.slice buf 0 n) ↔ 16 + 7 * k ≤ n := by
  constructor
  · rintro ⟨k', hk', hlen, hz, he⟩
    rw [Cells.length_slice] at hlen
    have h' : AddrEnd buf ax25MaxRpt 13 k' := by
      refine ⟨hk', fun j hj => ?_, he.imp_right fun he => ?_⟩
      · rw [← getD_slice buf (show 13 + 7 * j < n by omega)]
        exact hz j hj
      · rw [← getD_slice buf (show 13 + 7 * k' < n by omega)]
        exact he
    rw [h.unique h']
    exact hlen
  · intro hlen
    obtain ⟨hk, hz, he⟩ := h
    refine ⟨k, hk, by simpa using hlen, fun j hj => ?_, he.imp_right fun he => ?_⟩
    · rw [getD_slice buf (by omega)]
      exact hz j hj
    · rw [getD_slice buf (by omega)]
      exact he

/-- A decoded message lies inside its frame exactly when the frame holds its
header. -/
theorem decode_inFrame_iff {stk : AX25Msg} {ctx : AX25Ctx} {m : AX25Msg}
    (hmin : ax25MinFrameLen ≤ ctx.frmLen) (hmax : ctx.frmLen ≤ configAx25FrameBufLen)
    (hm : ax25Decode stk ctx = some m) :
    InFrame ctx m ↔ HeaderFits (Cells.slice ctx.buf 0 (ctx.frmLen - 2)) := by
  obtain ⟨k, hk, hq⟩ := decodeRpt_end ctx.buf ax25MaxRpt 13 (decodeHead stk ctx.buf)
  have hmin' : 18 ≤ ctx.frmLen := hmin
  have hmax' : ctx.frmLen ≤ 330 := hmax
  have hk8 : k ≤ 8 := hk.1
  rw [headerFits_iff hk]
  unfold ax25Decode at hm
  dsimp only at hm
  split_ifs at hm
  have hoff : m.info.off = 16 + 7 * k := by
    rw [← Option.some.inj hm]
    simp only [hq]
    omega
  have hlen : m.len = (2 ^ 16 + ctx.frmLen - 2 - (16 + 7 * k)) % 2 ^ 16 := by
    rw [← Option.some.inj hm]
    simp only [hq]
    congr 2
    omega
  rw [InFrame, hoff, hlen]
  omega

/-! ### Over every history of the channel -/

/-- What holds between two channel bytes. -/
def Bounded (ctx : AX25Ctx) : Prop := ctx.frmLen ≤ configAx25FrameBufLen

theorem pollChar_bounded (stk : AX25Msg) (ctx : AX25Ctx) (c : UInt8) (h : Bounded ctx) :
    Bounded (ax25PollChar stk ctx c).1 := by
  unfold ax25PollChar
  split_ifs
  · exact Nat.zero_le _
  · exact h
  · exact h
  · unfold Bounded ax25PollData
    split_ifs with hs hl
    · simpa using Nat.succ_le_of_lt hl
    · exact h
    · exact h

/-- A hook call comes from a frame of good length, and its message from the
decoder. -/
theorem pollChar_call {stk : AX25Msg} {ctx : AX25Ctx} {c : UInt8} {call : HookCall}
    (h : call ∈ (ax25PollChar stk ctx c).2) :
    call.ctx.buf = ctx.buf ∧ call.ctx.frmLen = ctx.frmLen ∧ ax25MinFrameLen ≤ ctx.frmLen ∧
      ∀ m, call.msg = some m → ax25Decode stk call.ctx = some m := by
  unfold ax25PollChar at h
  split_ifs at h with h1
  · unfold ax25PollFlag at h
    dsimp only at h
    split_ifs at h with h2 h3
    · unfold ax25Deliver at h
      split_ifs at h with h4 h5
      · obtain rfl := List.mem_singleton.mp h
        exact ⟨rfl, rfl, h2, fun m hm => by simp at hm⟩
      · split at h
        · rename_i m hm
          obtain rfl := List.mem_singleton.mp h
          exact ⟨rfl, rfl, h2, fun m' hm' => by rw [← hm']; exact hm⟩
        · simp at h
      · simp at h
    · simp at h
    · simp at h
  · simp at h
  · simp at h
  · simp at h

theorem run_call {stk : AX25Msg} {ctx₀ : AX25Ctx} (h₀ : ctx₀.frmLen ≤ configAx25FrameBufLen) (hist : List UInt8) :
    ∀ call ∈ outs (ax25PollChar stk) ctx₀ hist, ax25MinFrameLen ≤ call.ctx.frmLen ∧
      call.ctx.frmLen ≤ configAx25FrameBufLen ∧ ∀ m, call.msg = some m → ax25Decode stk call.ctx = some m := by
  refine outs_forall (ax25PollChar stk) Bounded (fun ctx c h => ⟨pollChar_bounded stk ctx c h, ?_⟩) ctx₀ hist h₀
  intro call hcall
  obtain ⟨-, hlen, hmin, hdec⟩ := pollChar_call hcall
  rw [hlen]
  exact ⟨hmin, h, hdec⟩

/-- **When decoded info lies inside the frame.** In every run of the receiver,
whatever frames came before, a hook call's message lies inside the current
frame if and only if that frame holds its whole header. -/
theorem hook_inFrame_iff (stk : AX25Msg) (ctx₀ : AX25Ctx) (h₀ : ctx₀.frmLen ≤ configAx25FrameBufLen)
    (hist : List UInt8) :
    ∀ call ∈ outs (ax25PollChar stk) ctx₀ hist, ∀ m, call.msg = some m →
      (InFrame call.ctx m ↔ HeaderFits (Cells.slice call.ctx.buf 0 (call.ctx.frmLen - 2))) := by
  intro call hcall m hm
  obtain ⟨hmin, hmax, hdec⟩ := run_call h₀ hist call hcall
  exact decode_inFrame_iff hmin hmax (hdec m hm)

/-- A UI frame from N0CALL to APRS via WIDE1-1 with the info `!`. -/
def wideFrame : List UInt8 :=
  [0x82, 0xa0, 0xa4, 0xa6, 0x40, 0x40, 0x60, 0x9c, 0x60, 0x86, 0x82, 0x98, 0x98, 0x60,
    0xae, 0x92, 0x88, 0x8a, 0x62, 0x40, 0x63, 0x03, 0xf0, 0x21]

/-- That frame, and then its first 16 bytes as a frame of their own. -/
def shortAfterWide : List UInt8 := airFrame wideFrame ++ airFrame (wideFrame.take 16)

theorem hook_inFrame_iff_wide :
    ∃ call ∈ outs (ax25PollChar zeroMsg) (ax25Init true) shortAfterWide, ∃ m, call.msg = some m ∧
      (InFrame call.ctx m ↔ HeaderFits (Cells.slice call.ctx.buf 0 (call.ctx.frmLen - 2))) := by
  have hcall : ((outs (ax25PollChar zeroMsg) (ax25Init true) shortAfterWide).head?.bind (·.msg)).isSome := by
    decide +kernel
  obtain ⟨m, hm⟩ := Option.isSome_iff_exists.mp hcall
  obtain ⟨call, hhead, hm⟩ := Option.bind_eq_some_iff.mp hm
  have hmem := List.mem_of_head? hhead
  exact ⟨call, hmem, m, hm,
    hook_inFrame_iff zeroMsg (ax25Init true) (by decide) shortAfterWide call hmem m hm⟩

/-- The short frame ends in the source address, and what follows it in the
buffer is the rest of the frame before: the hook gets a message with its
info at byte 23 of a frame of 18. -/
theorem hook_not_inFrame : ¬ ∀ (stk : AX25Msg) (hist : List UInt8),
    ∀ call ∈ outs (ax25PollChar stk) (ax25Init true) hist, ∀ m, call.msg = some m →
      InFrame call.ctx m := by
  intro h
  have hall : ∀ call ∈ outs (ax25PollChar zeroMsg) (ax25Init true) shortAfterWide,
      (call.msg.all fun m => decide (InFrame call.ctx m)) = true := by
    intro call hcall
    cases hm : call.msg with
    | none => rfl
    | some m => simpa using h zeroMsg shortAfterWide call hcall m hm
  revert hall
  decide +kernel

end TinyAprs
