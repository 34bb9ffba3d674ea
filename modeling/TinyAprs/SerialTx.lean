/-
# The serial output

The model of the transmit side of `drv/ser.c` and `cpu/avr/drv/ser_mega.c`, one
statement of the main program at a time, with the interrupt `USART0_UDRE_vect`
between any two of them. `ser_putchar` waits for room in the tx FIFO, queues its
byte and calls `uart0_enabletxirq`, which turns the interrupt on unless `sending`
says that it is; the interrupt sends a byte, or finds the FIFO empty, turns
itself off and clears `sending`. `ser_flush` waits for both the FIFO and
`sending`, reading the FIFO without a lock, so that with the interrupt on it may
see anything; `ser_purgeTx` empties the FIFO. `CONFIG_SER_TXTIMEOUT` is -1:
there is no timeout.

What was put comes out in order, or is purged by `ser_purgeTx` and nobody else
(`purged_step`), and a flush returns between what was put before it and what was
put behind it (`balance_serial`). The FIFO never
holds a byte that nobody will send: outside of the if-block of
`uart0_enabletxirq` the interrupt is on when there is a byte (`SerInv`). So
every run gets everything out, as long as main program and interrupt take their
turns (`serial_output_done`).
-/
import Mathlib.Algebra.Order.Ring.Nat
import TinyAprs.Fifo
import TinyAprs.Lib.Rounds

namespace TinyAprs

open Mealy

/-! ### The code -/

/-- What the main program calls. -/
inductive SerCall
  | putchar (c : UInt8)
  | flush
  | purgeTx
  deriving DecidableEq, Repr

/-- Where the main program is: about to make the next call; in `ser_putchar`,
with room for the byte, or with the byte queued; in the if-block of
`uart0_enabletxirq`, before its first and before its second statement. -/
inductive SerPoint
  | next
  | room (c : UInt8)
  | queued
  | starting
  | begins
  deriving DecidableEq, Repr

/-- The tx FIFO, `sending`, the enable bit of the UDR-empty interrupt, and the
main program. -/
structure SerialTx where
  txfifo : FIFOBuffer
  sending : Bool
  udrie : Bool
  point : SerPoint
  calls : List SerCall

/-- A statement of the main program, and what an unlocked read of the FIFO may
see in it; or the interrupt. -/
inductive SerTxEvent
  | main (seesEmpty : Bool)
  | udre
  deriving DecidableEq, Repr

/-- A byte in `UDR0`, a byte that is purged, and the return of `ser_flush`. -/
inductive SerTxOut
  | sent (c : UInt8)
  | purged (c : UInt8)
  | flushed
  deriving DecidableEq, Repr

namespace SerialTx

/-- `ser_init`, with `CONFIG_UART0_TXBUFSIZE`, 32, bytes, and the calls to
come. -/
def boot (calls : List SerCall) : SerialTx := ⟨.init 31, false, false, .next, calls⟩

/-- The next call, at its first statement. -/
def call (s : SerialTx) (seesEmpty : Bool) : SerialTx × List SerTxOut :=
  match s.calls with
  | [] => (s, [])
  | .putchar c :: calls =>
    -- `fifo_isfull_locked`
    if s.txfifo.isfull then (s, []) else ({ s with point := .room c, calls := calls }, [])
  | .flush :: calls =>
    -- nobody else is at the FIFO while the interrupt is off
    let isempty := if s.udrie then seesEmpty else s.txfifo.isempty
    if !isempty || s.sending then (s, []) else ({ s with calls := calls }, [.flushed])
  | .purgeTx :: calls =>
    ({ s with txfifo := s.txfifo.flush, calls := calls }, s.txfifo.contents.map .purged)

/-- A statement of the main program. -/
def main (s : SerialTx) (seesEmpty : Bool) : SerialTx × List SerTxOut :=
  match s.point with
  | .next => s.call seesEmpty
  | .room c => ({ s with txfifo := s.txfifo.push c, point := .queued }, [])
  | .queued => ({ s with point := if s.sending then .next else .starting }, [])
  | .starting => ({ s with sending := true, point := .begins }, [])
  | .begins => ({ s with udrie := true, point := .next }, [])

/-- `USART0_UDRE_vect`, if it is on. -/
def udre (s : SerialTx) : SerialTx × List SerTxOut :=
  if s.udrie then
    if s.txfifo.isempty then ({ s with udrie := false, sending := false }, [])
    else ({ s with txfifo := s.txfifo.pop.2 }, [.sent s.txfifo.pop.1])
  else (s, [])

def step (s : SerialTx) : SerTxEvent → SerialTx × List SerTxOut
  | .main seesEmpty => s.main seesEmpty
  | .udre => s.udre

end SerialTx

/-! ### In order -/

/-- A byte, or the return of a flush. -/
inductive SerMark
  | byte (c : UInt8)
  | flush
  deriving DecidableEq, Repr

/-- What is put and waited for. -/
def SerCall.marks : SerCall → List SerMark
  | .putchar c => [.byte c]
  | .flush => [.flush]
  | .purgeTx => []

def SerTxOut.mark : SerTxOut → SerMark
  | .sent c => .byte c
  | .purged c => .byte c
  | .flushed => .flush

/-- A byte as it is sent, not purged. -/
def SerMark.sent : SerMark → SerTxOut
  | .byte c => .sent c
  | .flush => .flushed

/-- What a statement of the main program has in its hands. -/
def SerPoint.bytes : SerPoint → List UInt8
  | .room c => [c]
  | _ => []

/-- What is still to come out. -/
def SerialTx.left (s : SerialTx) : List SerMark :=
  (s.txfifo.contents ++ s.point.bytes).map .byte ++ s.calls.flatMap SerCall.marks

/-- The interrupt is on exactly while `sending` says so, but for the statement
between; and unless `uart0_enabletxirq` has still to look, it is on when there
is a byte. -/
structure SerInv (s : SerialTx) : Prop where
  size : s.txfifo.last = 31
  gate : s.point ≠ .begins → s.udrie = s.sending
  begins : s.point = .begins → s.sending = true ∧ s.udrie = false
  starting : s.point = .starting → s.sending = false
  room : ∀ c, s.point = .room c → s.txfifo.isfull = false
  alive : (s.point = .next ∨ ∃ c, s.point = .room c) → s.txfifo.contents ≠ [] → s.sending = true

namespace SerialTx
variable {s : SerialTx}

theorem inv_boot (calls : List SerCall) : SerInv (boot calls) :=
  ⟨rfl, fun _ => rfl, nofun, nofun, nofun, fun _ h => absurd rfl h⟩

/-- What the next call does: it waits; or it goes on, a flush with the FIFO
empty. -/
theorem call_cases (h : SerInv s) (hp : s.point = .next) (seesEmpty : Bool) :
    s.call seesEmpty = (s, []) ∨
    (∃ c calls, s.calls = .putchar c :: calls ∧ s.txfifo.isfull = false ∧
      s.call seesEmpty = ({ s with point := .room c, calls := calls }, [])) ∨
    (∃ calls, s.calls = .flush :: calls ∧ s.txfifo.contents = [] ∧
      s.call seesEmpty = ({ s with calls := calls }, [.flushed])) ∨
    ∃ calls, s.calls = .purgeTx :: calls ∧
      s.call seesEmpty = ({ s with txfifo := s.txfifo.flush, calls := calls }, s.txfifo.contents.map .purged) := by
  unfold call
  cases hc : s.calls with
  | nil => exact Or.inl rfl
  | cons c calls =>
    cases c with
    | putchar c =>
      cases hfull : s.txfifo.isfull with
      | true => exact Or.inl (if_pos rfl)
      | false => exact Or.inr (Or.inl ⟨c, calls, rfl, rfl, if_neg (by simp)⟩)
    | flush =>
      cases hwait : !(if s.udrie then seesEmpty else s.txfifo.isempty) || s.sending with
      | true => exact Or.inl (if_pos hwait)
      | false =>
        have hoff : s.sending = false := (Bool.or_eq_false_iff.mp hwait).2
        have hempty : s.txfifo.contents = [] := by
          by_contra hne
          simp [h.alive (Or.inl hp) hne] at hoff
        exact Or.inr (Or.inr (Or.inl ⟨calls, rfl, hempty, if_neg (by simp [hwait])⟩))
    | purgeTx => exact Or.inr (Or.inr (Or.inr ⟨calls, rfl, rfl⟩))

theorem call_inv (h : SerInv s) (hp : s.point = .next) (seesEmpty : Bool) : SerInv (s.call seesEmpty).1 := by
  have hgate : s.udrie = s.sending := h.gate (by rw [hp]; nofun)
  rcases call_cases h hp seesEmpty with heq | ⟨c, calls, -, hroom, heq⟩ | ⟨calls, -, -, heq⟩ | ⟨calls, -, heq⟩
  · rw [heq]
    exact h
  · rw [heq]
    exact ⟨h.size, fun _ => hgate, nofun, nofun, fun _ _ => hroom, fun _ => h.alive (Or.inl hp)⟩
  · rw [heq]
    exact ⟨h.size, h.gate, h.begins, h.starting, h.room, h.alive⟩
  · rw [heq]
    refine ⟨h.size, h.gate, h.begins, h.starting, fun c hr => ?_, fun _ hne => absurd s.txfifo.contents_flush hne⟩
    rw [show s.point = .room c from hr] at hp
    exact nomatch hp

theorem main_inv (h : SerInv s) (seesEmpty : Bool) : SerInv (s.main seesEmpty).1 := by
  unfold main
  cases hp : s.point with
  | next => exact call_inv h hp seesEmpty
  | room c =>
    have hgate : s.udrie = s.sending := h.gate (by rw [hp]; nofun)
    exact ⟨h.size, fun _ => hgate, nofun, nofun, nofun, fun hor => by simp at hor⟩
  | queued =>
    have hgate : s.udrie = s.sending := h.gate (by rw [hp]; nofun)
    dsimp only
    split_ifs with hs
    · exact ⟨h.size, fun _ => hgate, nofun, nofun, nofun, fun _ _ => hs⟩
    · exact ⟨h.size, fun _ => hgate, nofun, fun _ => by simpa using hs, nofun, fun hor => by simp at hor⟩
  | starting =>
    have hgate : s.udrie = s.sending := h.gate (by rw [hp]; nofun)
    exact ⟨h.size, fun hne => absurd rfl hne, fun _ => ⟨rfl, hgate.trans (h.starting hp)⟩, nofun, nofun,
      fun hor => by simp at hor⟩
  | begins =>
    have hon := (h.begins hp).1
    exact ⟨h.size, fun _ => hon.symm, nofun, nofun, nofun, fun _ _ => hon⟩

theorem udre_inv (h : SerInv s) : SerInv s.udre.1 := by
  unfold udre
  split_ifs with hon hempty
  · have hpoint : s.point ≠ .begins := fun hb => by simp [(h.begins hb).2] at hon
    refine ⟨h.size, fun _ => rfl, fun hb => absurd hb hpoint, fun _ => rfl, h.room, fun _ hne => ?_⟩
    exact absurd ((FIFOBuffer.isempty_iff _).mp hempty) hne
  · have hpop := FIFOBuffer.contents_pop (show s.txfifo.isempty = false by simpa using hempty)
    refine ⟨h.size, h.gate, h.begins, h.starting, fun c hr => ?_, fun hor _ => h.alive hor (by rw [hpop]; simp)⟩
    have hle := s.txfifo.count_le
    rw [← FIFOBuffer.length_contents, hpop, List.length_cons] at hle
    rw [← Bool.not_eq_true, FIFOBuffer.isfull_iff]
    show ¬ s.txfifo.pop.2.contents.length = s.txfifo.last
    omega
  · exact h

/-- **Every statement and every interrupt keeps the invariant.** -/
theorem step_inv (h : SerInv s) (e : SerTxEvent) : SerInv (s.step e).1 := by
  cases e with
  | main seesEmpty => exact main_inv h seesEmpty
  | udre => exact udre_inv h

/-- **What comes out and what is left** are what was left before. -/
theorem step_left (h : SerInv s) (e : SerTxEvent) :
    (s.step e).2.map SerTxOut.mark ++ (s.step e).1.left = s.left := by
  cases e with
  | main seesEmpty =>
    show (s.main seesEmpty).2.map SerTxOut.mark ++ (s.main seesEmpty).1.left = s.left
    unfold main
    cases hp : s.point with
    | next =>
      rcases call_cases h hp seesEmpty with heq | ⟨c, calls, hc, -, heq⟩ | ⟨calls, hc, hempty, heq⟩ | ⟨calls, hc, heq⟩
      · simp [heq]
      · simp [heq, left, hp, hc, SerPoint.bytes, SerCall.marks]
      · simp [heq, left, hp, hc, hempty, SerPoint.bytes, SerCall.marks, SerTxOut.mark]
      · simp [heq, left, hp, hc, SerPoint.bytes, SerCall.marks, SerTxOut.mark, FIFOBuffer.contents_flush]
    | room c => simp [left, hp, SerPoint.bytes, FIFOBuffer.contents_push (h.room c hp)]
    | queued => cases hs : s.sending <;> simp [left, hp, SerPoint.bytes]
    | starting => simp [left, hp, SerPoint.bytes]
    | begins => simp [left, hp, SerPoint.bytes]
  | udre =>
    show s.udre.2.map SerTxOut.mark ++ s.udre.1.left = s.left
    unfold udre
    split_ifs with hon hempty
    · rfl
    · have hpop := FIFOBuffer.contents_pop (show s.txfifo.isempty = false by simpa using hempty)
      rw [left, left, hpop]
      rfl
    · rfl

/-- **In order**: over any run, what has come out and what is left are what was
put and waited for. -/
theorem balance_serial : ∀ (es : List SerTxEvent) {s : SerialTx}, SerInv s →
    (outs step s es).map SerTxOut.mark ++ (final step s es).left = s.left
  | [], _, _ => rfl
  | e :: es, s, h => by
    rw [outs_cons, List.map_append, List.append_assoc, final_cons, balance_serial es (step_inv h e), step_left h e]

/-! ### Nothing is lost -/

/-- The main program is about to purge the FIFO. -/
def Purging (s : SerialTx) : Prop := s.point = .next ∧ ∃ calls, s.calls = .purgeTx :: calls

/-- Bytes are purged by `ser_purgeTx`, and by nothing else. -/
theorem purged_step {e : SerTxEvent} {c : UInt8} (hc : .purged c ∈ (s.step e).2) : s.Purging := by
  cases e with
  | main seesEmpty =>
    change .purged c ∈ (s.main seesEmpty).2 at hc
    unfold main at hc
    cases hp : s.point with
    | next =>
      rw [hp] at hc
      refine ⟨hp, ?_⟩
      change .purged c ∈ (s.call seesEmpty).2 at hc
      unfold call at hc
      cases hcalls : s.calls with
      | nil => simp [hcalls] at hc
      | cons k calls =>
        rw [hcalls] at hc
        cases k with
        | putchar c' =>
          dsimp only at hc
          split_ifs at hc <;> simp at hc
        | flush =>
          dsimp only at hc
          split_ifs at hc <;> simp at hc
        | purgeTx => exact ⟨calls, rfl⟩
    | _ => simp [hp] at hc
  | udre =>
    change .purged c ∈ s.udre.2 at hc
    unfold udre at hc
    split_ifs at hc <;> simp at hc

theorem calls_call (s : SerialTx) (seesEmpty : Bool) : (s.call seesEmpty).1.calls <:+ s.calls := by
  unfold call
  cases hc : s.calls with
  | nil => exact ⟨[], hc⟩
  | cons k calls =>
    cases k with
    | putchar c =>
      dsimp only
      split_ifs
      · exact ⟨[], hc⟩
      · exact List.suffix_cons _ _
    | flush =>
      dsimp only
      generalize (if s.udrie then seesEmpty else s.txfifo.isempty) = isempty
      split_ifs
      · exact ⟨[], hc⟩
      · exact List.suffix_cons _ _
    | purgeTx => exact List.suffix_cons _ _

theorem calls_step (s : SerialTx) (e : SerTxEvent) : (s.step e).1.calls <:+ s.calls := by
  cases e with
  | main seesEmpty =>
    show (s.main seesEmpty).1.calls <:+ s.calls
    unfold main
    cases s.point with
    | next => exact calls_call s seesEmpty
    | _ => exact List.suffix_refl _
  | udre =>
    show s.udre.1.calls <:+ s.calls
    unfold udre
    split_ifs <;> exact List.suffix_refl _

/-- Without a call of `ser_purgeTx`, what comes out is sent. -/
theorem outs_sent {s : SerialTx} (h : .purgeTx ∉ s.calls) (es : List SerTxEvent) :
    outs step s es = ((outs step s es).map SerTxOut.mark).map SerMark.sent := by
  have hnone : ∀ o ∈ outs step s es, o.mark.sent = o := by
    refine outs_forall step (fun s => .purgeTx ∉ s.calls) (fun s e hs => ⟨fun hmem => ?_, fun o ho => ?_⟩) s es h
    · exact hs ((calls_step s e).subset hmem)
    · cases o with
      | purged c =>
        obtain ⟨-, calls, hcalls⟩ := purged_step ho
        exact absurd (by rw [hcalls]; exact List.mem_cons_self) hs
      | sent c => rfl
      | flushed => rfl
  rw [List.map_map]
  exact (List.map_id _).symm.trans (List.map_congr_left fun o ho => (hnone o ho).symm)

/-! ### Everything -/

/-- The steps that a call takes at most, with the interrupt it starts. -/
def cost : SerCall → ℕ
  | .putchar _ => 8
  | .flush => 1
  | .purgeTx => 1

/-- And those from inside of one. -/
def rank : SerPoint → ℕ
  | .next => 0
  | .room _ => 7
  | .queued => 5
  | .starting => 4
  | .begins => 3

/-- The steps that are left. -/
def work (s : SerialTx) : ℕ :=
  (s.calls.map cost).sum + rank s.point + s.txfifo.contents.length + (if s.udrie then 1 else 0)

theorem main_lowers (h : SerInv s) (seesEmpty : Bool) :
    (s.main seesEmpty).1 = s ∨ (s.main seesEmpty).1.work < s.work := by
  unfold main
  cases hp : s.point with
  | next =>
    rcases call_cases h hp seesEmpty with heq | ⟨c, calls, hc, -, heq⟩ | ⟨calls, hc, -, heq⟩ | ⟨calls, hc, heq⟩
    · exact Or.inl (by rw [heq])
    · refine Or.inr ?_
      simp [heq, work, hc, hp, cost, rank]
      omega
    · refine Or.inr ?_
      simp [heq, work, hc, cost]
    · refine Or.inr ?_
      simp only [heq, work, hc, List.map_cons, List.sum_cons, cost, FIFOBuffer.contents_flush, List.length_nil]
      omega
  | room c =>
    refine Or.inr ?_
    simp only [work, hp, rank, FIFOBuffer.contents_push (h.room c hp), List.length_append, List.length_singleton]
    omega
  | queued =>
    refine Or.inr ?_
    cases hs : s.sending <;> simp [work, hp, rank]
  | starting =>
    refine Or.inr ?_
    simp [work, hp, rank]
  | begins =>
    refine Or.inr ?_
    simp only [work, hp, rank]
    split_ifs <;> omega

theorem udre_lowers (s : SerialTx) : s.udre.1 = s ∨ s.udre.1.work < s.work := by
  unfold udre
  split_ifs with hon hempty
  · refine Or.inr ?_
    simp [work, hon]
  · refine Or.inr ?_
    have hpop := FIFOBuffer.contents_pop (show s.txfifo.isempty = false by simpa using hempty)
    simp only [work, hpop, List.length_cons]
    omega
  · exact Or.inl rfl

theorem lowers : Lowers step SerInv work := by
  intro s e h
  refine ⟨step_inv h e, ?_⟩
  cases e with
  | main seesEmpty => exact main_lowers h seesEmpty
  | udre => exact udre_lowers s

/-- A turn of the main program and one of the interrupt, among others. -/
def Turns (es : List SerTxEvent) : Prop := (∃ seesEmpty, .main seesEmpty ∈ es) ∧ .udre ∈ es

/-- **Somebody can always go on.** -/
theorem turn_works (h : SerInv s) (hwork : s.work ≠ 0) {es : List SerTxEvent} (hturns : Turns es) :
    ∃ e ∈ es, (s.step e).1 ≠ s := by
  obtain ⟨⟨seesEmpty, hmain⟩, hudre⟩ := hturns
  by_cases hon : s.udrie = true
  · -- the interrupt is on: it sends, or it turns itself off
    refine ⟨.udre, hudre, fun heq => ?_⟩
    change s.udre.1 = s at heq
    rw [udre, if_pos hon] at heq
    cases hempty : s.txfifo.isempty with
    | true => simpa [hempty, hon] using congrArg udrie heq
    | false =>
      have hpop := congrArg List.length (FIFOBuffer.contents_pop hempty)
      have hsame : s.txfifo.pop.2 = s.txfifo := by simpa [hempty] using congrArg txfifo heq
      rw [hsame, List.length_cons] at hpop
      omega
  · refine ⟨.main seesEmpty, hmain, fun heq => ?_⟩
    change (s.main seesEmpty).1 = s at heq
    have hpoint := congrArg point heq
    unfold main at hpoint heq
    cases hp : s.point with
    | next =>
      -- the interrupt is off: the FIFO is empty, and no call waits
      rw [hp] at heq
      have hoff : s.sending = false := by
        rw [← h.gate (by rw [hp]; nofun)]
        simpa using hon
      have hempty : s.txfifo.contents = [] := by
        by_contra hne
        simp [h.alive (Or.inl hp) hne] at hoff
      have hroom : s.txfifo.isfull = false := by
        rw [← Bool.not_eq_true, FIFOBuffer.isfull_iff, hempty, h.size]
        decide
      have hcalls := congrArg (fun s' => s'.calls.length) heq
      have hisempty := (FIFOBuffer.isempty_iff s.txfifo).mpr hempty
      cases hc : s.calls with
      | nil => exact hwork (by simp [work, hc, hp, rank, hempty, hon])
      | cons c calls =>
        cases c with
        | putchar c => simp [call, hc, hroom] at hcalls
        | flush => simp [call, hc, hon, hisempty, hoff] at hcalls
        | purgeTx => simp [call, hc] at hcalls
    | room c => simp [hp] at hpoint
    | queued =>
      rw [hp] at hpoint
      cases hs : s.sending <;> simp [hs] at hpoint
    | starting => simp [hp] at hpoint
    | begins => simp [hp] at hpoint

theorem left_of_work (h : s.work = 0) : s.left = [] ∧ s.udrie = false := by
  unfold work at h
  have hcalls : s.calls = [] := by
    cases hc : s.calls with
    | nil => rfl
    | cons c calls =>
      rw [hc, List.map_cons, List.sum_cons] at h
      cases c <;> simp [cost] at h
  have hpoint : s.point = .next := by
    cases hp : s.point with
    | next => rfl
    | _ =>
      rw [hp] at h
      simp [rank] at h
  have hfifo : s.txfifo.contents = [] := List.eq_nil_of_length_eq_zero (by omega)
  refine ⟨by simp [left, hcalls, hpoint, hfifo, SerPoint.bytes], ?_⟩
  cases hu : s.udrie with
  | false => rfl
  | true => simp [hu] at h

end SerialTx

open SerialTx in
/-- **The serial output.** From `ser_init`, for any calls, in any order of
statements and interrupts: what has come out so far, bytes sent or purged and
flushes returned, is a beginning of what was put and waited for, in that order,
and a byte is purged only by a call of `ser_purgeTx`. And from wherever this run
has come, as many rounds of a turn of the main program and one of the interrupt
as there is work left bring out everything and turn the interrupt off; without a
call of `ser_purgeTx`, every byte that was put has then been sent. -/
theorem serial_output_done (calls : List SerCall) (es : List SerTxEvent) :
    (outs step (boot calls) es).map SerTxOut.mark <+: calls.flatMap SerCall.marks ∧
    (∀ e c, .purged c ∈ ((final step (boot calls) es).step e).2 → (final step (boot calls) es).Purging) ∧
    ∀ rounds : List (List SerTxEvent), (∀ r ∈ rounds, Turns r) → (final step (boot calls) es).work ≤ rounds.length →
      (outs step (boot calls) (es ++ rounds.flatten)).map SerTxOut.mark = calls.flatMap SerCall.marks ∧
      (.purgeTx ∉ calls →
        outs step (boot calls) (es ++ rounds.flatten) = (calls.flatMap SerCall.marks).map SerMark.sent) ∧
      (final step (boot calls) (es ++ rounds.flatten)).udrie = false := by
  have hboot : (boot calls).left = calls.flatMap SerCall.marks := by simp [boot, left, SerPoint.bytes]
  have hbalance := fun es' => balance_serial es' (inv_boot calls)
  rw [hboot] at hbalance
  refine ⟨⟨_, hbalance es⟩, fun _ _ => purged_step, fun rounds hr hlen => ?_⟩
  have hinv := final_inv step SerInv (fun s e h => step_inv h e) _ es (inv_boot calls)
  have hzero := work_zero_of_rounds lowers (fun s r h hw ht => turn_works h hw ht) rounds hinv hr hlen
  rw [← final_append] at hzero
  obtain ⟨hleft, hoff⟩ := left_of_work hzero
  have hall := hbalance (es ++ rounds.flatten)
  rw [hleft, List.append_nil] at hall
  refine ⟨hall, fun hpurge => ?_, hoff⟩
  rw [← hall]
  exact outs_sent hpurge (es ++ rounds.flatten)

open SerialTx in
/-- Two bytes and a flush between them; the interrupt comes first in every
round, and the unlocked read of the FIFO is always wrong. -/
theorem serial_output_done_two :
    outs step (boot [.putchar 0x41, .flush, .putchar 0x42])
      ([.main false, .main false] ++ (List.replicate 17 [.udre, .main false]).flatten) =
        [.sent 0x41, .flushed, .sent 0x42] := by
  refine ((serial_output_done [.putchar 0x41, .flush, .putchar 0x42] [.main false, .main false]).2.2
    (List.replicate 17 [.udre, .main false]) ?_ (by decide +kernel)).2.1 (by decide)
  intro r hr
  rw [List.eq_of_mem_replicate hr]
  exact ⟨⟨false, by simp⟩, by simp⟩

end TinyAprs
