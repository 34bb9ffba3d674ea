/-
# Lines of bounded length

A stream is cut into runs by the symbols that end a line, and a line has room
for `m` symbols. The lines of a run are its pieces of `m` symbols and, once
the run has ended, what is left of it (`ended`); `due` are the lines of a
stream, where the last run has not ended. `step` is the machine that collects
a line and gives it out when it is full or ended; over a run its lines are the
run's pieces (`outs_run`), and over a stream those that are due (`outs_step`).
Nothing of a run is lost (`flatten_due`).
-/
import Mathlib.Data.List.Induction
import TinyAprs.Lib.Mealy

namespace Lines

open Mealy

variable {α : Type*} (stop : α → Bool) (m : ℕ)

/-- The full pieces of a run. -/
def pieces (u : List α) : List (List α) := (List.range (u.length / m)).map fun k => (u.drop (k * m)).take m

/-- What is left of a run behind its full pieces. -/
def rest (u : List α) : List α := u.drop (u.length / m * m)

/-- The lines of a run that has ended. -/
def ended (u : List α) : List (List α) := pieces m u ++ [rest m u].filter fun l => !l.isEmpty

/-- The lines due for a stream: those of the runs that have ended, and the
full pieces of the last one. -/
def due (cs : List α) : List (List α) :=
  (cs.splitOnP stop).dropLast.flatMap (ended m) ++ pieces m ((cs.splitOnP stop).getLastD [])

/-- The machine: a line is given out when it is full, and when it ends. -/
def step (w : List α) (c : α) : List α × List (List α) :=
  if stop c then ([], [w].filter fun l => !l.isEmpty)
  else if w.length + 1 = m then ([], [w ++ [c]])
  else (w ++ [c], [])

/-! ### A run -/

variable {m}

theorem length_rest (u : List α) : (rest m u).length = u.length % m := by
  rw [rest, List.length_drop, Nat.mod_eq_sub_div_mul]

theorem piece_le {u : List α} {k : ℕ} (hk : k < u.length / m) : k * m + m ≤ u.length := by
  rw [← Nat.succ_mul]
  exact Nat.le_trans (Nat.mul_le_mul_right m hk) (Nat.div_mul_le_self ..)

theorem length_of_mem_pieces {u l : List α} (h : l ∈ pieces m u) : l.length = m := by
  obtain ⟨k, hk, rfl⟩ := List.mem_map.mp h
  have hle := piece_le (List.mem_range.mp hk)
  rw [List.length_take, List.length_drop]
  omega

theorem piece_snoc {u : List α} {k : ℕ} (hk : k < u.length / m) (c : α) :
    ((u ++ [c]).drop (k * m)).take m = (u.drop (k * m)).take m := by
  have hle := piece_le hk
  rw [List.drop_append_of_le_length (by omega), List.take_append_of_le_length (by rw [List.length_drop]; omega)]

theorem pieces_of_lt {u : List α} (h : u.length < m) : pieces m u = [] ∧ rest m u = u := by
  rw [pieces, rest, Nat.div_eq_of_lt h]
  simp

theorem mem_ended_of_lt {u : List α} (h : u.length < m) (hne : u ≠ []) : u ∈ ended m u := by
  rw [ended, (pieces_of_lt h).1, (pieces_of_lt h).2]
  simp [hne]

theorem snoc_of_ne (hm : 0 < m) {u : List α} (h : (rest m u).length + 1 ≠ m) (c : α) :
    pieces m (u ++ [c]) = pieces m u ∧ rest m (u ++ [c]) = rest m u ++ [c] := by
  rw [length_rest] at h
  have hdiv : (u.length + 1) / m = u.length / m := by
    have hlt := Nat.mod_lt u.length hm
    rw [Nat.div_eq_iff hm]
    have := Nat.div_add_mod u.length m
    rw [Nat.mul_comm] at this
    omega
  have hle := Nat.div_mul_le_self u.length m
  constructor
  · rw [pieces, pieces, List.length_append, List.length_singleton, hdiv]
    exact List.map_congr_left fun k hk => piece_snoc (List.mem_range.mp hk) c
  · rw [rest, rest, List.length_append, List.length_singleton, hdiv, List.drop_append_of_le_length hle]

theorem snoc_of_eq {u : List α} (h : (rest m u).length + 1 = m) (c : α) :
    pieces m (u ++ [c]) = pieces m u ++ [rest m u ++ [c]] ∧ rest m (u ++ [c]) = [] := by
  have hlen := length_rest (m := m) u
  have hsum := Nat.div_add_mod u.length m
  have hle := Nat.div_mul_le_self u.length m
  have hm : 0 < m := by omega
  have hnext : u.length + 1 = (u.length / m + 1) * m := by
    rw [Nat.succ_mul, Nat.mul_comm]
    omega
  have hdiv : (u.length + 1) / m = u.length / m + 1 := by
    rw [hnext, Nat.mul_div_cancel _ hm]
  constructor
  · rw [pieces, pieces, List.length_append, List.length_singleton, hdiv, List.range_succ, List.map_append,
      List.map_singleton]
    congr 1
    · exact List.map_congr_left fun k hk => piece_snoc (List.mem_range.mp hk) c
    · rw [List.drop_append_of_le_length hle, List.take_of_length_le]
      · rfl
      · rw [List.length_append, List.length_singleton]
        exact Nat.le_of_eq h
  · rw [rest, List.length_append, List.length_singleton, hdiv]
    apply List.drop_eq_nil_of_le
    rw [List.length_append, List.length_singleton]
    exact Nat.le_of_eq hnext

theorem step_run (hm : 0 < m) (u : List α) {c : α} (hc : stop c = false) :
    pieces m u ++ (step stop m (rest m u) c).2 = pieces m (u ++ [c]) ∧
      (step stop m (rest m u) c).1 = rest m (u ++ [c]) := by
  rw [step, hc]
  by_cases hfull : (rest m u).length + 1 = m
  · obtain ⟨hp, hr⟩ := snoc_of_eq hfull c
    rw [hp, hr]
    simp [hfull]
  · obtain ⟨hp, hr⟩ := snoc_of_ne hm hfull c
    rw [hp, hr]
    simp [hfull]

/-- Over a run, the machine gives out its pieces and holds the rest. -/
theorem outs_run (hm : 0 < m) {u : List α} (h : ∀ c ∈ u, stop c = false) :
    outs (step stop m) [] u = pieces m u ∧ final (step stop m) [] u = rest m u := by
  induction u using List.reverseRecOn with
  | nil => exact ⟨(pieces_of_lt hm).1.symm, (pieces_of_lt hm).2.symm⟩
  | append_singleton u c ih =>
    obtain ⟨houts, hfinal⟩ := ih fun d hd => h d (List.mem_append_left _ hd)
    obtain ⟨hp, hr⟩ := step_run stop hm u (h c (by simp))
    rw [outs_append, final_append, houts, hfinal, outs_cons, outs_nil, final_cons, final_nil, List.append_nil, hp, hr]
    exact ⟨rfl, rfl⟩

theorem flatten_pieces (hm : 0 < m) (u : List α) : (pieces m u).flatten ++ rest m u = u := by
  induction u using List.reverseRecOn with
  | nil => simp [pieces, rest]
  | append_singleton u c ih =>
    by_cases hfull : (rest m u).length + 1 = m
    · obtain ⟨hp, hr⟩ := snoc_of_eq hfull c
      rw [hp, hr, List.flatten_append, List.flatten_singleton, List.append_nil, ← List.append_assoc, ih]
    · obtain ⟨hp, hr⟩ := snoc_of_ne hm hfull c
      rw [hp, hr, ← List.append_assoc, ih]

theorem flatten_ended (hm : 0 < m) (u : List α) : (ended m u).flatten = u := by
  have hrest : ([rest m u].filter fun l => !l.isEmpty).flatten = rest m u := by
    cases rest m u with
    | nil => rfl
    | cons c w => exact List.append_nil _
  rw [ended, List.flatten_append, hrest, flatten_pieces hm]

/-! ### A stream -/

/-- A stream is a run, or a run with its end and a stream behind it. -/
theorem runs_induction {P : List α → Prop} (last : ∀ u, (∀ c ∈ u, stop c = false) → P u)
    (more : ∀ u e cs, (∀ c ∈ u, stop c = false) → stop e = true → P cs → P (u ++ e :: cs)) (cs : List α) : P cs := by
  suffices h : ∀ (cs u : List α), (∀ c ∈ u, stop c = false) → P (u ++ cs) from h cs [] (by simp)
  intro cs
  induction cs with
  | nil =>
    intro u hu
    rw [List.append_nil]
    exact last u hu
  | cons e cs ih =>
    intro u hu
    cases he : stop e with
    | true => exact more u e cs hu he (ih [] (by simp))
    | false =>
      have hnext := ih (u ++ [e]) (by simpa [or_imp, forall_and, he] using hu)
      rwa [List.append_assoc, List.singleton_append] at hnext

variable {stop}

theorem due_run {u : List α} (h : ∀ c ∈ u, stop c = false) : due stop m u = pieces m u := by
  rw [due, List.splitOnP_eq_singleton h]
  rfl

theorem due_more {u : List α} (h : ∀ c ∈ u, stop c = false) {e : α} (he : stop e = true) (cs : List α) :
    due stop m (u ++ e :: cs) = ended m u ++ due stop m cs := by
  have hne := List.splitOnP_ne_nil stop cs
  rw [due, due, List.splitOnP_append_cons_of_forall_mem h e he, List.dropLast_cons_of_ne_nil hne, List.flatMap_cons,
    List.append_assoc, List.getLastD_cons]
  cases hsplit : cs.splitOnP stop with
  | nil => exact absurd hsplit hne
  | cons v vs => rw [List.getLastD_cons, List.getLastD_cons]

theorem outs_step (hm : 0 < m) (cs : List α) : outs (step stop m) [] cs = due stop m cs := by
  induction cs using runs_induction stop with
  | last u hu => rw [(outs_run stop hm hu).1, due_run hu]
  | more u e cs hu he ih =>
    have hstep : step stop m (rest m u) e = ([], [rest m u].filter fun l => !l.isEmpty) := by rw [step, if_pos he]
    rw [outs_append, (outs_run stop hm hu).1, (outs_run stop hm hu).2, outs_cons, hstep, ih, due_more hu he, ended,
      List.append_assoc]

/-- No symbol is lost: the lines that are due and what is left of the last
run are the symbols of the runs. -/
theorem flatten_due (hm : 0 < m) (cs : List α) :
    ∃ w, (due stop m cs).flatten ++ w = cs.filter (fun c => !stop c) ∧ w.length < m := by
  induction cs using runs_induction stop with
  | last u hu =>
    refine ⟨rest m u, ?_, ?_⟩
    · rw [due_run hu, flatten_pieces hm, List.filter_eq_self.mpr (by simpa using hu)]
    · rw [length_rest]
      exact Nat.mod_lt _ hm
  | more u e cs hu he ih =>
    obtain ⟨w, hw, hlt⟩ := ih
    refine ⟨w, ?_, hlt⟩
    rw [due_more hu he, List.flatten_append, flatten_ended hm, List.append_assoc, hw, List.filter_append,
      List.filter_cons_of_neg (by simp [he])]
    congr 1
    exact (List.filter_eq_self.mpr (by simpa using hu)).symm

end Lines
