/-
# Streams with flags and escapes

A stream of symbols in which a flag stands between frames, a reset breaks one
off, and an escape makes the symbol behind it data whatever that is. `Marks`
are the three symbols. `tokens` is what a reader takes the symbols for, one
at a time, with `pending` saying whether an escape has still to be used;
`segments` are the frames, the data between consecutive flags. Both are runs
of machines, so they go over an append. What `spell` writes for a list of
tokens is read as these tokens (`tokens_spell`), and the tokens of a part of
a stream come first in those of the whole (`tokens_prefix`).
-/
import TinyAprs.Lib.Mealy

namespace Framing

open Mealy

variable {α : Type*}

/-- The symbols that are not data. -/
structure Marks (α : Type*) where
  flag : α
  reset : α
  esc : α

/-- What a symbol is taken for. -/
inductive Token (α : Type*)
  | flag
  | reset
  | data (c : α)
deriving DecidableEq, Repr

namespace Marks

variable [DecidableEq α] (M : Marks α)

/-- One symbol, behind an escape or not. -/
def read (pending : Bool) (c : α) : Bool × List (Token α) :=
  if pending then (false, [.data c])
  else if c = M.flag then (false, [.flag])
  else if c = M.reset then (false, [.reset])
  else if c = M.esc then (true, [])
  else (false, [.data c])

/-- What the symbols are taken for. -/
def tokens (cs : List α) : List (Token α) := outs M.read false cs

/-- Whether an escape is the last of the symbols, and has its effect still to
come. -/
def pending (cs : List α) : Bool := final M.read false cs

theorem tokens_append (xs ys : List α) : M.tokens (xs ++ ys) = M.tokens xs ++ outs M.read (M.pending xs) ys :=
  outs_append M.read false xs ys

theorem pending_append (xs ys : List α) : M.pending (xs ++ ys) = final M.read (M.pending xs) ys :=
  final_append M.read false xs ys

/-- The tokens of a part of the stream are the first ones of the whole. -/
theorem tokens_prefix {xs ys : List α} (h : xs <+: ys) : M.tokens xs <+: M.tokens ys := by
  obtain ⟨zs, rfl⟩ := h
  rw [tokens_append]
  exact List.prefix_append _ _

/-- How a token is written. -/
def spell : Token α → List α
  | .flag => [M.flag]
  | .reset => [M.reset]
  | .data c => if c = M.flag ∨ c = M.reset ∨ c = M.esc then [M.esc, c] else [c]

/-- The three symbols are different. -/
structure Distinct : Prop where
  flag_reset : M.flag ≠ M.reset
  flag_esc : M.flag ≠ M.esc
  reset_esc : M.reset ≠ M.esc

variable {M}

/-- A token that is written is read, and leaves no escape behind. -/
theorem read_spell (hM : M.Distinct) (t : Token α) :
    outs M.read false (M.spell t) = [t] ∧ final M.read false (M.spell t) = false := by
  cases t with
  | flag => simp [spell, read]
  | reset => simp [spell, read, hM.flag_reset.symm]
  | data c =>
    rw [spell]
    split_ifs with h
    · simp [read, hM.flag_esc.symm, hM.reset_esc.symm]
    · rw [not_or, not_or] at h
      simp [read, h]

/-- What is written for a list of tokens is read as that list. -/
theorem tokens_spell (hM : M.Distinct) (ts : List (Token α)) :
    M.tokens (ts.flatMap M.spell) = ts ∧ M.pending (ts.flatMap M.spell) = false := by
  induction ts with
  | nil => exact ⟨rfl, rfl⟩
  | cons t ts ih =>
    obtain ⟨h1, h2⟩ := read_spell hM t
    obtain ⟨ih1, ih2⟩ := ih
    have h1' : M.tokens (M.spell t) = [t] := h1
    have h2' : M.pending (M.spell t) = false := h2
    rw [List.flatMap_cons, tokens_append, pending_append, h1', h2']
    exact ⟨congrArg (t :: ·) ih1, ih2⟩

end Marks

/-- One token, with the data since the last flag; none before the first one,
or behind a reset. -/
def cut : Option (List α) → Token α → Option (List α) × List (List α)
  | none, .flag => (some [], [])
  | some s, .flag => (some [], [s])
  | none, .data _ => (none, [])
  | some s, .data c => (some (s ++ [c]), [])
  | _, .reset => (none, [])

/-- The data between consecutive flags. -/
def segments (ts : List (Token α)) : List (List α) := outs cut none ts

theorem run_cut_data (cs s : List α) :
    final cut (some s) (cs.map Token.data) = some (s ++ cs) ∧ outs cut (some s) (cs.map Token.data) = [] := by
  induction cs generalizing s with
  | nil => exact ⟨by simp, rfl⟩
  | cons c cs ih =>
    obtain ⟨h1, h2⟩ := ih (s ++ [c])
    rw [List.map_cons, final_cons, outs_cons]
    exact ⟨by rw [cut, h1, List.append_assoc]; rfl, by rw [cut, h2]; rfl⟩

theorem segments_one (cs : List α) : segments (.flag :: (cs.map Token.data ++ [.flag])) = [cs] := by
  obtain ⟨h1, h2⟩ := run_cut_data cs []
  rw [segments, outs_cons, outs_append]
  show outs cut (some []) (cs.map Token.data) ++ outs cut (final cut (some []) (cs.map Token.data)) [.flag] = [cs]
  rw [h2, h1]
  rfl

end Framing
