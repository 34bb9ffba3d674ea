/-
# Byte stuffing

A framed byte stream keeps some symbols for itself. A `Stuffing` sends such
a special symbol `c` as the pair `esc, sub c` and every other symbol as it
is; `encode` stuffs a whole list. A receiver that takes in one stuffed word
at a time takes in a stuffed list (`run_encode`): what it has got after each
word is one symbol more, and it says nothing meanwhile.
-/
import TinyAprs.Lib.Mealy

/-- A way to send special symbols as pairs. -/
structure Stuffing (α : Type*) where
  esc : α
  special : α → Bool
  sub : α → α

namespace Stuffing

variable {α σ ω : Type*} (S : Stuffing α)

/-- A symbol on the wire. -/
def word (c : α) : List α := if S.special c then [S.esc, S.sub c] else [c]

/-- A list of symbols on the wire. -/
def encode (cs : List α) : List α := cs.flatMap S.word

@[simp] theorem encode_nil : S.encode [] = [] := rfl

@[simp] theorem encode_cons (c : α) (cs : List α) : S.encode (c :: cs) = S.word c ++ S.encode cs := rfl

theorem encode_append (a b : List α) : S.encode (a ++ b) = S.encode a ++ S.encode b := by
  simp [encode]

theorem word_of_special {c : α} (h : S.special c = true) : S.word c = [S.esc, S.sub c] := by
  simp [word, h]

theorem word_of_plain {c : α} (h : S.special c = false) : S.word c = [c] := by
  simp [word, h]

open Mealy

/-- A receiver that has got `f` after stuffing each of its symbols has got
all of `whole` after `whole` is stuffed; the words may rely on how much of
`whole` is in already. -/
theorem run_encode {step : σ → α → σ × List ω} (Got : List α → σ → Prop) {whole : List α}
    (hword : ∀ f c s, f ++ [c] <+: whole → Got f s →
      Got (f ++ [c]) (final step s (S.word c)) ∧ outs step s (S.word c) = []) :
    ∀ (cs f : List α) (s : σ), f ++ cs = whole → Got f s →
      Got whole (final step s (S.encode cs)) ∧ outs step s (S.encode cs) = []
  | [], f, s, hf, h => by
    simp only [List.append_nil] at hf
    simpa [hf] using h
  | c :: cs, f, s, hf, h => by
    have hpre : f ++ [c] <+: whole := ⟨cs, by simp [← hf]⟩
    obtain ⟨h1, h2⟩ := hword f c s hpre h
    obtain ⟨h3, h4⟩ := run_encode Got hword cs (f ++ [c]) _ (by simp [← hf]) h1
    rw [encode_cons, final_append, outs_append, h2, h4]
    exact ⟨h3, rfl⟩

end Stuffing
