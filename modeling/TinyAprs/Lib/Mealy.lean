/-
# Machines that read one symbol at a time

A machine is a step function `σ → ι → σ × List ω`: a state and an input
symbol give the next state and the outputs of that step. `final` and `outs`
are the state and the outputs of a whole run. A run over `xs ++ ys` is the
run over `xs` and then the run over `ys` from where the first one ended
(`final_append`, `outs_append`), an invariant of one step is an invariant of
a run (`final_inv`), also one of the state and all outputs so far
(`run_inv`), and what every step's outputs have under it, all outputs of a
run have (`outs_forall`). A machine that does over a text what another one does
in a step does so over whole runs (`outs_flatMap`).
-/
import Mathlib.Data.List.Basic
import Mathlib.Data.List.Forall2

namespace Mealy

variable {σ τ ι ω : Type*} (step : σ → ι → σ × List ω)

/-- The state after the inputs. -/
def final : σ → List ι → σ
  | s, [] => s
  | s, x :: xs => final (step s x).1 xs

/-- The outputs over the inputs, in order. -/
def outs : σ → List ι → List ω
  | _, [] => []
  | s, x :: xs => (step s x).2 ++ outs (step s x).1 xs

@[simp] theorem final_nil (s : σ) : final step s [] = s := rfl

@[simp] theorem final_cons (s : σ) (x : ι) (xs : List ι) :
    final step s (x :: xs) = final step (step s x).1 xs := rfl

@[simp] theorem outs_nil (s : σ) : outs step s [] = [] := rfl

@[simp] theorem outs_cons (s : σ) (x : ι) (xs : List ι) :
    outs step s (x :: xs) = (step s x).2 ++ outs step (step s x).1 xs := rfl

theorem final_append (s : σ) (xs ys : List ι) :
    final step s (xs ++ ys) = final step (final step s xs) ys := by
  induction xs generalizing s with
  | nil => rfl
  | cons x xs ih => exact ih (step s x).1

theorem outs_append (s : σ) (xs ys : List ι) :
    outs step s (xs ++ ys) = outs step s xs ++ outs step (final step s xs) ys := by
  induction xs generalizing s with
  | nil => rfl
  | cons x xs ih => rw [List.cons_append, outs_cons, outs_cons, final_cons, ih (step s x).1, List.append_assoc]

theorem outs_stopped {s : σ} (h : ∀ x, step s x = (s, [])) (xs : List ι) :
    final step s xs = s ∧ outs step s xs = [] := by
  induction xs with
  | nil => exact ⟨rfl, rfl⟩
  | cons x xs ih =>
    rw [final_cons, outs_cons, h x]
    exact ih

theorem final_inv (Inv : σ → Prop) (hstep : ∀ s x, Inv s → Inv (step s x).1) (s : σ) (xs : List ι)
    (h : Inv s) : Inv (final step s xs) := by
  induction xs generalizing s with
  | nil => exact h
  | cons x xs ih => exact ih (step s x).1 (hstep s x h)

/-- What every step keeps of the state and the outputs so far, every run
keeps. -/
theorem run_inv (Inv : σ → List ω → Prop)
    (hstep : ∀ s acts x, Inv s acts → Inv (step s x).1 (acts ++ (step s x).2)) (s : σ) (acts : List ω)
    (xs : List ι) (h : Inv s acts) : Inv (final step s xs) (acts ++ outs step s xs) := by
  induction xs generalizing s acts with
  | nil => rwa [final_nil, outs_nil, List.append_nil]
  | cons x xs ih =>
    rw [final_cons, outs_cons, ← List.append_assoc]
    exact ih (step s x).1 (acts ++ (step s x).2) (hstep s acts x h)

/-- What the outputs of every step have under an invariant, all outputs of a
run have. -/
theorem outs_forall (Inv : σ → Prop) {P : ω → Prop}
    (hstep : ∀ s x, Inv s → Inv (step s x).1 ∧ ∀ o ∈ (step s x).2, P o) (s : σ) (xs : List ι)
    (h : Inv s) : ∀ o ∈ outs step s xs, P o := by
  induction xs generalizing s with
  | nil => simp
  | cons x xs ih =>
    obtain ⟨h1, h2⟩ := hstep s x h
    intro o ho
    rcases List.mem_append.mp ho with ho | ho
    · exact h2 o ho
    · exact ih (step s x).1 h1 o ho

theorem outs_map {κ : Type*} (f : κ → ι) (s : σ) (xs : List κ) :
    outs step s (xs.map f) = outs (fun s x => step s (f x)) s xs := by
  induction xs generalizing s with
  | nil => rfl
  | cons x xs ih => rw [List.map_cons, outs_cons, outs_cons, ih]

/-- Where a machine, over the text of a symbol, does what another one does with
the symbol, it does so over all texts. -/
theorem outs_flatMap {κ ω' : Type*} {step' : τ → κ → τ × List ω'} {text : κ → List ι} {Sim : σ → τ → Prop}
    {R : ω → ω' → Prop} (hstep : ∀ s t x, Sim s t → Sim (final step s (text x)) (step' t x).1 ∧
      List.Forall₂ R (outs step s (text x)) (step' t x).2) {s : σ} {t : τ} (h : Sim s t) (xs : List κ) :
    List.Forall₂ R (outs step s (xs.flatMap text)) (outs step' t xs) := by
  induction xs generalizing s t with
  | nil => exact .nil
  | cons x xs ih =>
    obtain ⟨hsim, houts⟩ := hstep s t x h
    rw [List.flatMap_cons, outs_append, outs_cons]
    exact List.rel_append houts (ih hsim)

end Mealy
