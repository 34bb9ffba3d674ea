/-
# The console's grammar

`console_parse_command` as it works on the reader's buffer: it looks for the
`=` of the line, stores a NUL there, puts the key in upper case where it
stands, and calls the handler with a pointer into the same buffer; for the
KISS commands of other TNCs it makes key and value out of the line itself.
Which handlers are registered depends on the modules of the firmware (`Build`).

`Build.Invokes` is the grammar as a relation between lines, handlers and
values. Every line without a NUL calls the handler the grammar gives it, once
and with the value it gives, and no line calls another (`console_grammar`).
In the firmware with all modules this is what `consoleParseCommand` says of
the line as a list (`consoleParse_refines`).
-/
import TinyAprs.Console

namespace TinyAprs

open Terminated

/-! ### The registry -/

/-- The modules of a firmware (`TinyAPRS_user.mk`); the tracker and the
digipeater bring the beacon along. -/
structure Build where
  kiss : Bool
  beacon : Bool
  tracker : Bool
  digi : Bool
  beacon_of_tracker : tracker = true → beacon = true
  beacon_of_digi : digi = true → beacon = true

/-- `TRACKER=1` -/
def Build.trackerOnly : Build := ⟨false, true, true, false, fun _ => rfl, fun _ => rfl⟩

/-- `ALL=1` -/
def Build.all : Build := ⟨true, true, true, true, fun _ => rfl, fun _ => rfl⟩

/-- `CONSOLE_MAX_COMMAND` -/
abbrev consoleMaxCommand : ℕ := 12

/-- The array `cmdEntries`, where a slot without a name is `none`, and
`cmdCount`. -/
structure Registry where
  cmdEntries : ℕ → Option (List UInt8 × Command)
  cmdCount : ℕ

/-- `console_add_command` -/
def consoleAddCommand (r : Registry) (cmd : List UInt8) (handler : Command) : Registry :=
  if r.cmdCount ≥ consoleMaxCommand then r
  else { cmdEntries := Function.update r.cmdEntries r.cmdCount (some (cmd, handler)), cmdCount := r.cmdCount + 1 }

/-- The commands that `console_init` and `init` add, in order. -/
def Build.commands (build : Build) : List (List UInt8 × Command) :=
  cmdEntries.filter fun e => e.2 != .kiss || build.kiss

/-- The registry after `init`. -/
def Build.registry (build : Build) : Registry :=
  build.commands.foldl (fun r e => consoleAddCommand r e.1 e.2) ⟨fun _ => none, 0⟩

/-- The loop of `console_lookup_command`, from slot `i`, for `n` more. -/
def Registry.lookupFrom (r : Registry) (command : List UInt8) : ℕ → ℕ → Option Command
  | 0, _ => none
  | n + 1, i =>
    match r.cmdEntries i with
    | none => none
    | some (cmdName, cmdHandler) =>
      if strcasecmpEq command cmdName then some cmdHandler else r.lookupFrom command n (i + 1)

/-- `console_lookup_command` -/
def Registry.lookup (r : Registry) (command : List UInt8) : Option Command :=
  r.lookupFrom command consoleMaxCommand 0

/-- The slots hold the list. -/
structure Registry.Holds (r : Registry) (l : List (List UInt8 × Command)) : Prop where
  count : r.cmdCount = l.length
  slots : ∀ i, r.cmdEntries i = l[i]?

theorem Registry.Holds.add {r : Registry} {l : List (List UInt8 × Command)} (h : r.Holds l)
    (hlen : l.length < consoleMaxCommand) (e : List UInt8 × Command) :
    (consoleAddCommand r e.1 e.2).Holds (l ++ [e]) := by
  rw [consoleAddCommand, if_neg (by rw [h.count]; omega)]
  constructor
  · simp [h.count]
  · intro i
    dsimp only
    rw [h.count]
    rcases Nat.lt_trichotomy i l.length with hi | rfl | hi
    · rw [Function.update_of_ne (by omega), h.slots, List.getElem?_append_left hi]
    · simp
    · rw [Function.update_of_ne (by omega), h.slots, List.getElem?_eq_none (by omega),
        List.getElem?_eq_none (by simp; omega)]

theorem Registry.Holds.addAll : ∀ (es : List (List UInt8 × Command)) {r : Registry}
    {l : List (List UInt8 × Command)}, r.Holds l → (l ++ es).length ≤ consoleMaxCommand →
    (es.foldl (fun r e => consoleAddCommand r e.1 e.2) r).Holds (l ++ es)
  | [], r, l, h, _ => by simpa using h
  | e :: es, r, l, h, hlen => by
    rw [List.length_append, List.length_cons] at hlen
    have hnext := addAll es (h.add (by omega) e) (by simp; omega)
    rwa [List.append_assoc, List.singleton_append] at hnext

theorem Build.registry_holds (build : Build) : build.registry.Holds build.commands := by
  apply Registry.Holds.addAll build.commands (l := [])
  · exact ⟨rfl, fun i => rfl⟩
  · exact Nat.le_trans (List.length_filter_le ..) (by decide)

/-- The loop stops at the first match, or at the first empty slot. -/
theorem Registry.Holds.lookupFrom {r : Registry} {l : List (List UInt8 × Command)} (h : r.Holds l)
    (command : List UInt8) : ∀ (n i : ℕ), l.length ≤ i + n →
    r.lookupFrom command n i = ((l.drop i).find? fun e => strcasecmpEq command e.1).map Prod.snd
  | 0, i, hlen => by
    rw [List.drop_eq_nil_of_le (by omega)]
    rfl
  | n + 1, i, hlen => by
    rw [Registry.lookupFrom, h.slots]
    by_cases hi : i < l.length
    · rw [List.getElem?_eq_getElem hi, List.drop_eq_getElem_cons hi, List.find?_cons]
      dsimp only
      rw [h.lookupFrom command n (i + 1) (by omega)]
      cases strcasecmpEq command l[i].1 <;> rfl
    · rw [List.getElem?_eq_none (by omega), List.drop_eq_nil_of_le (by omega)]
      rfl

/-- `console_lookup_command` finds the first entry of that name. -/
theorem Build.lookup_eq (build : Build) (command : List UInt8) : build.registry.lookup command =
    (build.commands.find? fun e => strcasecmpEq command e.1).map Prod.snd :=
  build.registry_holds.lookupFrom command consoleMaxCommand 0
    (Nat.le_trans (List.length_filter_le ..) (by decide))

/-! ### The parser -/

/-- `strupr` -/
def strupr (mem : ℕ → UInt8) (s : ℕ) : ℕ → UInt8 := Cells.write mem s ((termString mem s).map toupper)

/-- The pointers `key` and `value` into the buffer, with `valueLen`. -/
structure KeyValue where
  mem : ℕ → UInt8
  key : ℕ
  value : ℕ
  valueLen : UInt8

/-- The part of `console_parse_command` that finds key and value, if there
are any; addresses count from `command`. The outer `none` is a search for the
`=` that does not end. -/
def findKeyValue (mem : ℕ → UInt8) (commandLen : ℕ) : Option (Option KeyValue) := do
  if commandLen ≥ 6 ∧ (mem 0 = 0x41 ∨ mem 0 = 0x61) ∧ (mem 1 = 0x54 ∨ mem 1 = 0x74) ∧ mem 2 = 0x2b then
    match ← findEq (Cells.slice mem 0 commandLen) 256 3 with
    | some t =>
      let mem := Function.update mem t 0
      some (some ⟨mem, 3, t + 1, UInt8.ofNat (termString mem (t + 1)).length⟩)
    | none => some none
  else if commandLen ≥ 10 ∧ strcasecmpEq (termString mem 0) amodeKiss then
    -- the buffer is used again: the key is its own end, the value goes to its start
    some (some ⟨Cells.write (Function.update mem 10 0) 0 [0x31, 0], 6, 0, 1⟩)
  else if commandLen ≥ 7 ∧ strcasecmpEq (termString mem 0) kissOn then
    some (some ⟨Cells.write (Function.update mem 4 0) 5 [0x31, 0], 0, 5, 1⟩)
  else some none

/-- A call of a registered handler: the memory as it finds it, and its
arguments. -/
structure HandlerCall where
  handler : Command
  mem : ℕ → UInt8
  value : ℕ
  valueLen : UInt8

/-- The end of `console_parse_command`: the handler of the key, if there is
one. -/
def Build.callHandler (build : Build) (kv : KeyValue) : List HandlerCall :=
  let mem := strupr kv.mem kv.key
  match build.registry.lookup (termString mem kv.key) with
  | some handler => [⟨handler, mem, kv.value, kv.valueLen⟩]
  | none => []

/-- `console_parse_command`: the handlers of the registry that it calls. -/
def Build.consoleParse (build : Build) (mem : ℕ → UInt8) (commandLen : ℕ) : Option (List HandlerCall) := do
  -- `cmd_test_send`, `cmd_info` and `cmd_help` are not registered
  if build.beacon ∧ commandLen > 0 ∧ mem 0 = 0x21 then some []
  else if commandLen = 1 ∧ mem 0 = 0x3f then some []
  else if commandLen = 2 ∧ mem 0 = 0x3f ∧ mem 1 = 0x3f then some []
  else match ← findKeyValue mem commandLen with
    | none => some []
    | some kv => some (build.callHandler kv)

/-! ### The grammar -/

/-- The first command of that name, ignoring case. -/
def Build.First (build : Build) (key : List UInt8) (c : Command) : Prop :=
  ∃ before name after, build.commands = before ++ (name, c) :: after ∧ strcasecmpEq key name = true ∧
    ∀ e ∈ before, strcasecmpEq key e.1 = false

/-- `AT+key=value`, with the key up to the first `=`. -/
def AtForm (line key value : List UInt8) : Prop :=
  ∃ a t, (a = 0x41 ∨ a = 0x61) ∧ (t = 0x54 ∨ t = 0x74) ∧ 0x3d ∉ key ∧
    line = a :: t :: 0x2b :: (key ++ 0x3d :: value)

/-- The line asks for handler `c` with this value: as an AT command, or as
one of the KISS commands of other TNCs. -/
def Build.Names (build : Build) (line : List UInt8) (c : Command) (value : List UInt8) : Prop :=
  (6 ≤ line.length ∧ ∃ key, AtForm line key value ∧ build.First key c) ∨
    ((strcasecmpEq line amodeKiss = true ∨ strcasecmpEq line kissOn = true) ∧
      build.First (kissOn.take 4) c ∧ value = [0x31])

/-- The line calls handler `c` with this value: it asks for it, and is not a
test command. -/
def Build.Invokes (build : Build) (line : List UInt8) (c : Command) (value : List UInt8) : Prop :=
  line.head? ≠ some 0x21 ∧ build.Names line c value

/-! ### The handler of a key -/

theorem tolower_toupper : ∀ c : UInt8, tolower (toupper c) = tolower c := by decide +kernel

theorem toupper_ne_zero : ∀ c : UInt8, c ≠ 0 → toupper c ≠ 0 := by decide +kernel

/-- Case does not matter to `strcasecmp`. -/
theorem strcasecmpEq_congr {a b : List UInt8} (h : a.map tolower = b.map tolower) (name : List UInt8) :
    strcasecmpEq a name = strcasecmpEq b name := by
  rw [strcasecmpEq, strcasecmpEq, h]

theorem Build.first_congr (build : Build) {a b : List UInt8} (h : a.map tolower = b.map tolower) (c : Command) :
    build.First a c ↔ build.First b c := by
  simp only [First, strcasecmpEq_congr h]

theorem Build.lookup_iff (build : Build) (key : List UInt8) (c : Command) :
    build.registry.lookup key = some c ↔ build.First key c := by
  rw [build.lookup_eq, Option.map_eq_some_iff]
  constructor
  · rintro ⟨⟨name, c'⟩, hfind, rfl⟩
    obtain ⟨hname, before, after, hsplit, hbefore⟩ := List.find?_eq_some_iff_append.mp hfind
    exact ⟨before, name, after, hsplit, hname, fun e he => by simpa using hbefore e he⟩
  · rintro ⟨before, name, after, hsplit, hname, hbefore⟩
    refine ⟨(name, c), List.find?_eq_some_iff_append.mpr ⟨hname, before, after, hsplit, ?_⟩, rfl⟩
    intro e he
    simpa using hbefore e he

/-- Key and value, as strings that lie beside each other. -/
structure KeyValue.Has (kv : KeyValue) (key value : List UInt8) : Prop where
  keyStr : Str 0 kv.mem kv.key key
  valueStr : Str 0 kv.mem kv.value value
  beside : kv.key + key.length ≤ kv.value ∨ kv.value + value.length < kv.key
  keyLen : key.length ≤ 255
  valueLen : kv.valueLen.toNat = value.length

/-- What calls there are for a key and a value. -/
structure Build.CallsOf (build : Build) (key value : List UInt8) (calls : List HandlerCall) : Prop where
  none : (∀ c, ¬build.First key c) → calls = []
  one : ∀ c, build.First key c → ∃ call, calls = [call] ∧ call.handler = c ∧ Str 0 call.mem call.value value ∧
    call.valueLen.toNat = value.length

/-- The key goes to upper case, the value stays, and the key's handler is
called. -/
theorem Build.callHandler_spec (build : Build) {kv : KeyValue} {key value : List UInt8} (h : kv.Has key value) :
    build.CallsOf key value (build.callHandler kv) := by
  have hupper : strupr kv.mem kv.key = Cells.write kv.mem kv.key (key.map toupper) := by
    rw [strupr, termString_of_str h.keyStr (Nat.le_trans h.keyLen (by decide))]
  have hfree : 0 ∉ key.map toupper := by
    intro hmem
    obtain ⟨c, hc, hzero⟩ := List.mem_map.mp hmem
    exact toupper_ne_zero c (fun h0 => h.keyStr.free (h0 ▸ hc)) hzero
  have hkey := h.keyStr.overwrite (List.length_map toupper) hfree
  have hvalue : Str 0 (Cells.write kv.mem kv.key (key.map toupper)) kv.value value :=
    h.valueStr.write_beside (by simpa using h.beside)
  have hstring : termString (Cells.write kv.mem kv.key (key.map toupper)) kv.key = key.map toupper :=
    termString_of_str hkey (Nat.le_trans (by simpa using h.keyLen) (by decide))
  have hlower : (key.map toupper).map tolower = key.map tolower := by
    rw [List.map_map]
    exact List.map_congr_left fun c _ => tolower_toupper c
  have hfirst : ∀ c, build.registry.lookup (key.map toupper) = some c ↔ build.First key c := by
    intro c
    rw [build.lookup_iff, build.first_congr hlower]
  unfold callHandler
  dsimp only
  rw [hupper, hstring]
  constructor
  · intro hnone
    cases hlook : build.registry.lookup (key.map toupper) with
    | none => rfl
    | some c => exact absurd ((hfirst c).mp hlook) (hnone c)
  · intro c hc
    rw [(hfirst c).mpr hc]
    exact ⟨_, rfl, rfl, hvalue, h.valueLen⟩

/-! ### The key and the value of a line -/

/-- The search for the `=`, behind `before`. -/
theorem findEq_found : ∀ (key before after : List UInt8) (n : ℕ) (i : UInt8), i.toNat = before.length →
    0x3d ∉ key → (before ++ (key ++ 0x3d :: after)).length ≤ 255 → key.length < n →
    findEq (before ++ (key ++ 0x3d :: after)) n i = some (some (before.length + key.length))
  | [], before, after, n + 1, i, hi, _, hlen, _ => by
    simp [findEq, hi]
  | c :: key, before, after, n + 1, i, hi, hkey, hlen, hn => by
    rw [List.mem_cons, not_or] at hkey
    simp only [List.length_append, List.length_cons] at hlen hn
    have hnext : (i + 1).toNat = i.toNat + 1 := Cells.toNat_succ (by omega)
    have ih := findEq_found key (before ++ [c]) after n (i + 1) (by simp [hnext, hi]) hkey.2
      (by simp; omega) (by omega)
    rw [List.append_assoc, List.singleton_append, List.length_append, List.length_singleton] at ih
    have hc : (before ++ (c :: key ++ 0x3d :: after)).getD i.toNat 0 = c := by simp [hi]
    rw [findEq, if_pos (by simp [hi]), hc, if_neg (Ne.symm hkey.1), List.cons_append, ih, List.length_cons]
    congr 2
    omega

theorem findEq_none : ∀ (rest before : List UInt8) (n : ℕ) (i : UInt8), i.toNat = before.length → 0x3d ∉ rest →
    (before ++ rest).length ≤ 255 → rest.length < n → findEq (before ++ rest) n i = some none
  | [], before, n + 1, i, hi, _, _, _ => by
    simp [findEq, hi]
  | c :: rest, before, n + 1, i, hi, hrest, hlen, hn => by
    rw [List.mem_cons, not_or] at hrest
    simp only [List.length_append, List.length_cons] at hlen hn
    have hnext : (i + 1).toNat = i.toNat + 1 := Cells.toNat_succ (by omega)
    have ih := findEq_none rest (before ++ [c]) n (i + 1) (by simp [hnext, hi]) hrest.2 (by simp; omega) (by omega)
    rw [List.append_assoc, List.singleton_append] at ih
    have hc : (before ++ c :: rest).getD i.toNat 0 = c := by simp [hi]
    rw [findEq, if_pos (by simp [hi]), hc, if_neg (Ne.symm hrest.1), ih]

theorem AtForm.unique {line key value key' value' : List UInt8} (h : AtForm line key value)
    (h' : AtForm line key' value') : key' = key ∧ value' = value := by
  obtain ⟨a, t, -, -, hkey, rfl⟩ := h
  obtain ⟨a', t', -, -, hkey', heq⟩ := h'
  obtain ⟨-, -, -, hrest⟩ : a = a' ∧ t = t' ∧ True ∧ key ++ 0x3d :: value = key' ++ 0x3d :: value' := by
    simpa using heq
  have htake := congrArg (List.takeWhile (· != 0x3d)) hrest
  rw [takeWhile_free hkey, takeWhile_free hkey'] at htake
  subst htake
  simpa using hrest.symm

theorem strcasecmpEq_iff {a b : List UInt8} : strcasecmpEq a b = true ↔ a.map tolower = b.map tolower := by
  simp [strcasecmpEq]

theorem length_of_strcasecmp {a b : List UInt8} (h : strcasecmpEq a b = true) : a.length = b.length := by
  simpa using congrArg List.length (strcasecmpEq_iff.mp h)

theorem tolower_facts : ∀ c : UInt8, (tolower c = 0x6d → c ≠ 0x54 ∧ c ≠ 0x74) ∧
    (tolower c = 0x6b → c ≠ 0x41 ∧ c ≠ 0x61) := by
  decide +kernel

theorem at_not_kiss {a t : UInt8} {rest : List UInt8} (ha : a = 0x41 ∨ a = 0x61) (ht : t = 0x54 ∨ t = 0x74) :
    ¬(strcasecmpEq (a :: t :: rest) amodeKiss = true ∨ strcasecmpEq (a :: t :: rest) kissOn = true) := by
  rw [strcasecmpEq_iff, strcasecmpEq_iff]
  rintro (h | h)
  · have hm : tolower t = 0x6d := (List.cons.inj (List.cons.inj h).2).1
    have := (tolower_facts t).1 hm
    simp [this] at ht
  · have hk : tolower a = 0x6b := (List.cons.inj h).1
    have := (tolower_facts a).2 hk
    simp [this] at ha

section
variable {mem : ℕ → UInt8} {line key value rest : List UInt8} {a t : UInt8}

theorem str_slice (h : Str 0 mem 0 line) : Cells.slice mem 0 line.length = line :=
  ((Cells.at_append ..).mp h.cells).1

theorem at_prefix (h : Str 0 mem 0 (a :: t :: rest)) : mem 0 = a ∧ mem 1 = t ∧ mem 2 = rest.headD 0 := by
  have hcells := h.cells
  rw [List.cons_append, List.cons_append, Cells.at_cons, Cells.at_cons] at hcells
  exact ⟨hcells.1, hcells.2.1, (h.suffix (a := [a, t])).head⟩

/-- An AT command with a `=` is split there. -/
theorem findKeyValue_at (h : Str 0 mem 0 line) (hform : AtForm line key value) (h6 : 6 ≤ line.length)
    (h255 : line.length ≤ 255) : ∃ kv, findKeyValue mem line.length = some (some kv) ∧ kv.Has key value := by
  obtain ⟨a, t, ha, ht, hkey, rfl⟩ := hform
  obtain ⟨h0, h1, h2⟩ := at_prefix h
  have hfind := findEq_found key [a, t, 0x2b] value 256 3 rfl hkey h255 (by simp at h255; omega)
  have hcut := Str.cut (a := a :: t :: 0x2b :: key) h
  have hvalue := termString_of_str hcut.2 (by simp at h255; omega)
  unfold findKeyValue
  rw [if_pos ⟨h6, by rwa [h0], by rwa [h1], h2⟩, str_slice h]
  change ∃ kv, (findEq ([a, t, 0x2b] ++ (key ++ 0x3d :: value)) 256 3 >>= _) = _ ∧ _
  rw [hfind]
  have hlen : 0 + (a :: t :: 0x2b :: key).length = [a, t, 0x2b].length + key.length := by simp; omega
  rw [hlen] at hcut hvalue
  refine ⟨_, rfl, Str.suffix (a := [a, t, 0x2b]) hcut.1, hcut.2, Or.inl ?_, ?_, ?_⟩
  · simp
  · simp at h255
    omega
  · rw [hvalue, UInt8.toNat_ofNat', Nat.mod_eq_of_lt]
    simp at h255
    omega

theorem findKeyValue_at_none (h : Str 0 mem 0 (a :: t :: 0x2b :: rest)) (ha : a = 0x41 ∨ a = 0x61)
    (ht : t = 0x54 ∨ t = 0x74) (hrest : 0x3d ∉ rest) (h6 : 6 ≤ (a :: t :: 0x2b :: rest).length)
    (h255 : (a :: t :: 0x2b :: rest).length ≤ 255) :
    findKeyValue mem (a :: t :: 0x2b :: rest).length = some none := by
  obtain ⟨h0, h1, h2⟩ := at_prefix h
  have hfind := findEq_none rest [a, t, 0x2b] 256 3 rfl hrest h255 (by simp at h255; omega)
  unfold findKeyValue
  rw [if_pos ⟨h6, by rwa [h0], by rwa [h1], h2⟩, str_slice h]
  change (findEq ([a, t, 0x2b] ++ rest) 256 3 >>= _) = _
  rw [hfind]
  rfl

theorem kiss_not_at (h : Str 0 mem 0 line)
    (hkiss : strcasecmpEq line amodeKiss = true ∨ strcasecmpEq line kissOn = true) :
    ¬(line.length ≥ 6 ∧ (mem 0 = 0x41 ∨ mem 0 = 0x61) ∧ (mem 1 = 0x54 ∨ mem 1 = 0x74) ∧ mem 2 = 0x2b) := by
  rintro ⟨h6, ha, ht, -⟩
  match line, h with
  | [], _ | [_], _ => simp at h6
  | a :: t :: rest, h =>
    obtain ⟨h0, h1, -⟩ := at_prefix h
    exact at_not_kiss (by rwa [← h0]) (by rwa [← h1]) hkiss

/-- `AMODE KISS` gets its own end as the key, and the value `1`. -/
theorem findKeyValue_amode (h : Str 0 mem 0 line) (hamode : strcasecmpEq line amodeKiss = true) :
    ∃ kv, findKeyValue mem line.length = some (some kv) ∧ kv.Has (line.drop 6) [0x31] := by
  have h10 : line.length = 10 := length_of_strcasecmp hamode
  have hsame : Function.update mem 10 0 = mem := by
    have hz := h.terminator
    rw [h10] at hz
    rw [← hz, Function.update_eq_self]
  have hkey : Str 0 mem 6 (line.drop 6) := by
    have hsplit : Str 0 mem 0 (line.take 6 ++ line.drop 6) := by rwa [List.take_append_drop]
    simpa [h10] using hsplit.suffix
  unfold findKeyValue
  rw [if_neg (kiss_not_at h (Or.inl hamode)), termString_of_str h (by omega), if_pos ⟨by omega, hamode⟩, hsame]
  refine ⟨_, rfl, hkey.write_beside (Or.inl (by decide)), ?_, Or.inr (by simp), ?_, rfl⟩
  · exact ⟨Cells.at_write [0x31, 0] mem 0, by decide⟩
  · simp [h10]

/-- `KISS ON` is cut behind its first word, and gets the value `1`. -/
theorem findKeyValue_kissOn (h : Str 0 mem 0 line) (hon : strcasecmpEq line kissOn = true) :
    ∃ kv, findKeyValue mem line.length = some (some kv) ∧ kv.Has (line.take 4) [0x31] := by
  have h7 : line.length = 7 := length_of_strcasecmp hon
  have hkey : Str 0 (Function.update mem 4 0) 0 (line.take 4) := by
    have hcut := h.cut_take (k := 4) (by omega)
    rwa [Nat.zero_add] at hcut
  unfold findKeyValue
  rw [if_neg (kiss_not_at h (Or.inr hon)), termString_of_str h (by omega), if_neg (by omega),
    if_pos ⟨by omega, hon⟩]
  refine ⟨_, rfl, hkey.write_beside (Or.inr (by simp [h7])), ?_, Or.inl (by simp [h7]), ?_, rfl⟩
  · exact ⟨Cells.at_write [0x31, 0] _ 5, by decide⟩
  · simp [h7]

/-- `AMODE KISS` and `KISS ON` get the key `KISS` and the value `1`. -/
theorem findKeyValue_kiss (h : Str 0 mem 0 line)
    (hkiss : strcasecmpEq line amodeKiss = true ∨ strcasecmpEq line kissOn = true) :
    ∃ kv key, findKeyValue mem line.length = some (some kv) ∧ kv.Has key [0x31] ∧
      key.map tolower = (kissOn.take 4).map tolower := by
  rcases hkiss with hamode | hon
  · obtain ⟨kv, hfind, hhas⟩ := findKeyValue_amode h hamode
    refine ⟨kv, line.drop 6, hfind, hhas, ?_⟩
    rw [List.map_drop, strcasecmpEq_iff.mp hamode]
    rfl
  · obtain ⟨kv, hfind, hhas⟩ := findKeyValue_kissOn h hon
    refine ⟨kv, line.take 4, hfind, hhas, ?_⟩
    rw [List.map_take, strcasecmpEq_iff.mp hon]
    rfl

theorem findKeyValue_none (h : Str 0 mem 0 line) (h255 : line.length ≤ 255)
    (hat : ∀ a t rest, line = a :: t :: 0x2b :: rest → 6 ≤ line.length → (a = 0x41 ∨ a = 0x61) → (t = 0x54 ∨ t = 0x74) →
      0x3d ∉ rest)
    (hkiss : ¬(strcasecmpEq line amodeKiss = true ∨ strcasecmpEq line kissOn = true)) :
    findKeyValue mem line.length = some none := by
  by_cases hc : line.length ≥ 6 ∧ (mem 0 = 0x41 ∨ mem 0 = 0x61) ∧ (mem 1 = 0x54 ∨ mem 1 = 0x74) ∧ mem 2 = 0x2b
  · obtain ⟨h6, ha, ht, hp⟩ := hc
    match line, h with
    | [], _ | [_], _ | [_, _], _ => simp at h6
    | a :: t :: p :: rest, h =>
      obtain ⟨h0, h1, h2⟩ := at_prefix h
      obtain rfl : p = 0x2b := by rw [← hp, h2]; rfl
      rw [h0] at ha
      rw [h1] at ht
      exact findKeyValue_at_none h ha ht (hat a t rest rfl h6 ha ht) h6 h255
  · rw [not_or] at hkiss
    unfold findKeyValue
    rw [if_neg hc, termString_of_str h (by omega), if_neg (fun hk => hkiss.1 hk.2), if_neg (fun hk => hkiss.2 hk.2)]

end

/-! ### What a line asks for -/

theorem Build.names_at (build : Build) {line key value : List UInt8} (hform : AtForm line key value)
    (h6 : 6 ≤ line.length) (c : Command) (value' : List UInt8) :
    build.Names line c value' ↔ build.First key c ∧ value' = value := by
  constructor
  · rintro (⟨-, key', hform', hfirst⟩ | ⟨hkiss, -⟩)
    · obtain ⟨rfl, rfl⟩ := hform.unique hform'
      exact ⟨hfirst, rfl⟩
    · obtain ⟨a, t, ha, ht, -, rfl⟩ := hform
      exact absurd hkiss (at_not_kiss ha ht)
  · rintro ⟨hfirst, rfl⟩
    exact Or.inl ⟨h6, key, hform, hfirst⟩

/-- The KISS commands ask for `KISS`. -/
theorem Build.names_kiss (build : Build) {line : List UInt8}
    (hkiss : strcasecmpEq line amodeKiss = true ∨ strcasecmpEq line kissOn = true) (c : Command)
    (value' : List UInt8) :
    build.Names line c value' ↔ build.First (kissOn.take 4) c ∧ value' = [0x31] := by
  constructor
  · rintro (⟨-, _, ⟨a, t, ha, ht, -, rfl⟩, -⟩ | ⟨-, hnames⟩)
    · exact absurd hkiss (at_not_kiss ha ht)
    · exact hnames
  · exact fun hnames => Or.inr ⟨hkiss, hnames⟩

theorem Build.names_none (build : Build) {line : List UInt8}
    (hkiss : ¬(strcasecmpEq line amodeKiss = true ∨ strcasecmpEq line kissOn = true))
    (hform : ¬(6 ≤ line.length ∧ ∃ key value, AtForm line key value)) (c : Command) (value : List UInt8) :
    ¬build.Names line c value := by
  rintro (⟨h6, key, hat, -⟩ | ⟨hkiss', -⟩)
  · exact hform ⟨h6, key, value, hat⟩
  · exact hkiss hkiss'

/-- What the search for key and value finds is what the line asks for. -/
theorem findKeyValue_spec {mem : ℕ → UInt8} {line : List UInt8} (h : Str 0 mem 0 line) (h255 : line.length ≤ 255) :
    (findKeyValue mem line.length = some none ∧ ∀ (build : Build) c value, ¬build.Names line c value) ∨
    ∃ kv key value, findKeyValue mem line.length = some (some kv) ∧ kv.Has key value ∧
      ∀ (build : Build) c value', build.Names line c value' ↔ build.First key c ∧ value' = value := by
  by_cases hkiss : strcasecmpEq line amodeKiss = true ∨ strcasecmpEq line kissOn = true
  · obtain ⟨kv, key, hfind, hhas, hlower⟩ := findKeyValue_kiss h hkiss
    refine Or.inr ⟨kv, key, [0x31], hfind, hhas, fun build c value' => ?_⟩
    rw [build.names_kiss hkiss, build.first_congr hlower]
  · by_cases hform : 6 ≤ line.length ∧ ∃ key value, AtForm line key value
    · obtain ⟨h6, key, value, hform⟩ := hform
      obtain ⟨kv, hfind, hhas⟩ := findKeyValue_at h hform h6 h255
      exact Or.inr ⟨kv, key, value, hfind, hhas, fun build c value' => build.names_at hform h6 c value'⟩
    · refine Or.inl ⟨findKeyValue_none h h255 ?_ hkiss, fun build => build.names_none hkiss hform⟩
      rintro a t rest rfl h6 ha ht hmem
      obtain ⟨key, value, rfl, hkey⟩ := List.eq_append_cons_of_mem hmem
      exact hform ⟨h6, key, value, a, t, ha, ht, hkey, rfl⟩

/-! ### The grammar holds -/

/-- A line that asks for a handler has at least six characters. -/
theorem Build.Names.length {build : Build} {line value : List UInt8} {c : Command} (h : build.Names line c value) :
    6 ≤ line.length := by
  rcases h with ⟨h6, -⟩ | ⟨hamode | hon, -⟩
  · exact h6
  · rw [length_of_strcasecmp hamode]
    decide
  · rw [length_of_strcasecmp hon]
    decide

/-- The calls that a line makes: none, or those of its key. -/
theorem Build.consoleParse_spec (build : Build) (hbeacon : build.beacon = true) {mem : ℕ → UInt8} {line : List UInt8}
    (h : Str 0 mem 0 line) (h1 : 1 ≤ line.length) (h255 : line.length ≤ 255) :
    (build.consoleParse mem line.length = some [] ∧ ∀ c value, ¬build.Invokes line c value) ∨
    ∃ calls key value, build.consoleParse mem line.length = some calls ∧ build.CallsOf key value calls ∧
      ∀ c value', build.Invokes line c value' ↔ build.First key c ∧ value' = value := by
  have hhead : mem 0 = 0x21 ↔ line.head? = some 0x21 := by
    cases line with
    | nil => simp at h1
    | cons a line => simp [h.head]
  unfold consoleParse
  by_cases htest : mem 0 = 0x21
  · refine Or.inl ⟨if_pos ⟨hbeacon, by omega, htest⟩, fun c value hin => ?_⟩
    exact hin.1 (hhead.mp htest)
  · have hbang : line.head? ≠ some 0x21 := fun hl => htest (hhead.mpr hl)
    rw [if_neg (fun hc => htest hc.2.2)]
    split_ifs with hone htwo
    · refine Or.inl ⟨rfl, fun c value hin => ?_⟩
      have := hin.2.length
      omega
    · refine Or.inl ⟨rfl, fun c value hin => ?_⟩
      have := hin.2.length
      omega
    · rcases findKeyValue_spec h h255 with ⟨hfind, hnone⟩ | ⟨kv, key, value, hfind, hhas, hnames⟩
      · rw [hfind]
        exact Or.inl ⟨rfl, fun c value hin => hnone build c value hin.2⟩
      · rw [hfind]
        refine Or.inr ⟨_, key, value, rfl, build.callHandler_spec hhas, fun c value' => ?_⟩
        rw [← hnames build c value']
        exact and_iff_right hbang

/-- **The console's grammar.** In a firmware with the beacon, every line of 1
to 255 bytes without a NUL is parsed, and calls at most one registered
handler: one exactly when the line does not start with `!` and is either an
AT command of at least six characters whose key, up to the first `=`, is the
name of a command, ignoring case, or `AMODE KISS` or `KISS ON`, ignoring case,
where a command `KISS` is registered. The handler is that of the first
command of the name; it finds everything behind the `=` as its value, and `1`
for the KISS commands, with its length. -/
theorem console_grammar (build : Build) (hbeacon : build.beacon = true) (mem : ℕ → UInt8) (line : List UInt8)
    (h : Str 0 mem 0 line) (h1 : 1 ≤ line.length) (h255 : line.length ≤ 255) :
    ∃ calls, build.consoleParse mem line.length = some calls ∧ calls.length ≤ 1 ∧
      (calls ≠ [] ↔ ∃ c value, build.Invokes line c value) ∧
      ∀ c value, build.Invokes line c value → ∃ call, calls = [call] ∧ call.handler = c ∧
        Str 0 call.mem call.value value ∧ call.valueLen.toNat = value.length := by
  rcases build.consoleParse_spec hbeacon h h1 h255 with ⟨hparse, hnone⟩ | ⟨calls, key, value, hparse, hcalls, hin⟩
  · refine ⟨[], hparse, by simp, by simp [hnone], ?_⟩
    intro c value hc
    exact absurd hc (hnone c value)
  · refine ⟨calls, hparse, ?_, ?_, ?_⟩
    · by_cases hfirst : ∃ c, build.First key c
      · obtain ⟨c, hc⟩ := hfirst
        obtain ⟨call, rfl, -⟩ := hcalls.one c hc
        simp
      · rw [hcalls.none (not_exists.mp hfirst)]
        simp
    · constructor
      · intro hne
        by_contra hnot
        refine hne (hcalls.none fun c hc => hnot ⟨c, value, (hin c value).mpr ⟨hc, rfl⟩⟩)
      · rintro ⟨c, value', hc⟩
        obtain ⟨call, rfl, -⟩ := hcalls.one c ((hin c value').mp hc).1
        simp
    · intro c value' hc
      obtain ⟨hfirst, rfl⟩ := (hin c value').mp hc
      exact hcalls.one c hfirst

/-- `AT+KISS=1` and its NUL. -/
def atKiss : ℕ → UInt8 := Cells.write (fun _ => 0) 0 [0x41, 0x54, 0x2b, 0x4b, 0x49, 0x53, 0x53, 0x3d, 0x31, 0]

/-- `AT+KISS=1`, in the firmware with all modules. -/
theorem console_grammar_kiss : ∃ calls, Build.all.consoleParse atKiss 9 = some calls ∧
    ∃ call, calls = [call] ∧ call.handler = .kiss ∧ Str 0 call.mem call.value [0x31] ∧ call.valueLen.toNat = 1 := by
  obtain ⟨calls, hparse, -, -, hcall⟩ := console_grammar Build.all rfl atKiss
    [0x41, 0x54, 0x2b, 0x4b, 0x49, 0x53, 0x53, 0x3d, 0x31] ⟨Cells.at_write _ _ _, by decide⟩ (by decide) (by decide)
  refine ⟨calls, hparse, hcall .kiss [0x31] ⟨by decide, Or.inl ⟨by decide, kissOn.take 4, ?_, ?_⟩⟩⟩
  · exact ⟨0x41, 0x54, Or.inl rfl, Or.inl rfl, by decide, rfl⟩
  · exact (Build.all.lookup_iff ..).mp (by rw [Build.lookup_eq]; decide)

/-- `KISS ON` in the tracker, which has the beacon but no KISS mode: no
handler is called. -/
theorem kiss_on_unregistered : Build.trackerOnly.beacon = true ∧
    Str 0 (Cells.write (fun _ => 0) 0 (kissOn ++ [0])) 0 kissOn ∧ strcasecmpEq kissOn kissOn = true ∧
    Build.trackerOnly.consoleParse (Cells.write (fun _ => 0) 0 (kissOn ++ [0])) 7 = some [] := by
  have hline : Str 0 (Cells.write (fun _ => 0) 0 (kissOn ++ [0])) 0 kissOn := ⟨Cells.at_write _ _ _, by decide⟩
  have hnone : ∀ c, ¬Build.trackerOnly.First (kissOn.take 4) c := by
    intro c hc
    have hlook := (Build.trackerOnly.lookup_iff _ c).mpr hc
    rw [Build.lookup_eq, show (Build.trackerOnly.commands.find? fun e => strcasecmpEq (kissOn.take 4) e.1) = none by
      decide] at hlook
    cases hlook
  refine ⟨rfl, hline, by decide, ?_⟩
  rcases Build.trackerOnly.consoleParse_spec rfl hline (by decide) (by decide) with
    ⟨hparse, -⟩ | ⟨calls, key, value, hparse, hcalls, hin⟩
  · exact hparse
  · refine hparse.trans (congrArg some (hcalls.none fun c hc => ?_))
    rcases ((hin c value).mpr ⟨hc, rfl⟩).2 with ⟨-, k, ⟨a, t, ha, -, -, hform⟩, -⟩ | ⟨-, hfirst, -⟩
    · obtain rfl : 0x4b = a := (List.cons.inj hform).1
      revert ha
      decide
    · exact hnone c hfirst

/-! ### The line as a list -/

theorem dispatch_iff {key value value' : List UInt8} {c : Command} :
    dispatch key value = .run c value' ↔ Build.all.First key c ∧ value' = value := by
  have hlook : consoleLookupCommand key = Build.all.registry.lookup key := (Build.all.lookup_eq key).symm
  rw [← Build.all.lookup_iff, dispatch, hlook]
  cases Build.all.registry.lookup key with
  | none => simp
  | some c' => simp [eq_comm]

theorem cString_free {w : List UInt8} (h : 0 ∉ w) : cString w = w := by
  rw [cString, List.takeWhile_eq_self_iff]
  intro c hc
  rw [bne_iff_ne]
  rintro rfl
  exact h hc

/-- The key and the value of an AT command, as parts of the list. -/
theorem AtForm.findEq {line key value : List UInt8} (h : AtForm line key value) (hfree : 0 ∉ line)
    (h255 : line.length ≤ 255) : ∃ i, findEq line 256 3 = some (some i) ∧ cString ((line.take i).drop 3) = key ∧
      cString (line.drop (i + 1)) = value := by
  obtain ⟨a, t, -, -, hkey, rfl⟩ := h
  have hdrop : (a :: t :: 0x2b :: (key ++ 0x3d :: value)).drop (3 + key.length + 1) = value := by
    simp [show 3 + key.length + 1 = key.length + 1 + 3 by omega, List.drop_append]
  have htake : ((a :: t :: 0x2b :: (key ++ 0x3d :: value)).take (3 + key.length)).drop 3 = key := by
    simp [Nat.add_comm 3 key.length]
  simp only [List.mem_cons, List.mem_append, not_or] at hfree
  refine ⟨3 + key.length, ?_, ?_, ?_⟩
  · exact findEq_found key [a, t, 0x2b] value 256 3 rfl hkey h255 (by simp at h255; omega)
  · rw [htake, cString_free hfree.2.2.2.1]
  · rw [hdrop, cString_free hfree.2.2.2.2.2]

/-- The search of the AT branch: it finds the key and the value, or there are
none. -/
theorem findEq_at {a t : UInt8} {rest : List UInt8} (ha : a = 0x41 ∨ a = 0x61) (ht : t = 0x54 ∨ t = 0x74)
    (hfree : 0 ∉ a :: t :: 0x2b :: rest) (h255 : (a :: t :: 0x2b :: rest).length ≤ 255) :
    (∃ i key value, AtForm (a :: t :: 0x2b :: rest) key value ∧
      findEq (a :: t :: 0x2b :: rest) 256 3 = some (some i) ∧
      cString (((a :: t :: 0x2b :: rest).take i).drop 3) = key ∧
      cString ((a :: t :: 0x2b :: rest).drop (i + 1)) = value) ∨
    (findEq (a :: t :: 0x2b :: rest) 256 3 = some none ∧ ∀ key value, ¬AtForm (a :: t :: 0x2b :: rest) key value) := by
  by_cases hmem : 0x3d ∈ rest
  · obtain ⟨key, value, rfl, hkey⟩ := List.eq_append_cons_of_mem hmem
    have hform : AtForm (a :: t :: 0x2b :: (key ++ 0x3d :: value)) key value := ⟨a, t, ha, ht, hkey, rfl⟩
    obtain ⟨i, hfind, htake, hdrop⟩ := hform.findEq hfree h255
    exact Or.inl ⟨i, key, value, hform, hfind, htake, hdrop⟩
  · refine Or.inr ⟨findEq_none rest [a, t, 0x2b] 256 3 rfl hmem h255 (by simp at h255; omega), ?_⟩
    rintro key value ⟨a', t', -, -, -, heq⟩
    simp only [List.cons.injEq] at heq
    exact hmem (by simp [heq.2.2])

theorem bang_iff {line : List UInt8} : (line.length > 0 ∧ line.getD 0 0 = 0x21) ↔ line.head? = some 0x21 := by
  cases line with
  | nil => simp
  | cons a rest => simp

/-- **The list model of the parser is what the parser does.** In the firmware
with all modules, `consoleParseCommand` finds the command and the value that
the line calls a handler with. -/
theorem consoleParse_refines {line : List UInt8} (hfree : 0 ∉ line) (h255 : line.length ≤ 255)
    (c : Command) (value : List UInt8) :
    consoleParseCommand line = some (.run c value) ↔ Build.all.Invokes line c value := by
  unfold consoleParseCommand
  dsimp only
  rw [cString_free hfree]
  by_cases hbang : line.length > 0 ∧ line.getD 0 0 = 0x21
  · rw [if_pos hbang]
    exact iff_of_false (by simp) fun hin => hin.1 (bang_iff.mp hbang)
  have hin : Build.all.Invokes line c value ↔ Build.all.Names line c value :=
    and_iff_right fun hhead => hbang (bang_iff.mpr hhead)
  rw [if_neg hbang, hin]
  by_cases h6 : 6 ≤ line.length
  · rw [if_neg (by omega), if_neg (by omega)]
    split_ifs with hat hamode hon
    · obtain ⟨-, ha, ht, hp⟩ := hat
      match line, h6 with
      | a :: t :: p :: rest, h6 =>
        obtain rfl : p = 0x2b := hp
        change a = 0x41 ∨ a = 0x61 at ha
        change t = 0x54 ∨ t = 0x74 at ht
        rcases findEq_at ha ht hfree h255 with ⟨i, key, value', hform, hfind, htake, hdrop⟩ | ⟨hfind, hform⟩
        · rw [hfind, Build.all.names_at hform h6, ← dispatch_iff]
          change some (dispatch (cString _) (cString _)) = _ ↔ _
          rw [htake, hdrop]
          exact Option.some_inj
        · rw [hfind]
          refine iff_of_false (by simp) (Build.all.names_none (at_not_kiss ha ht) ?_ c value)
          rintro ⟨-, key, value', hform'⟩
          exact hform key value' hform'
    · rw [Build.all.names_kiss (Or.inl hamode.2), Option.some.injEq, dispatch_iff]
      rfl
    · rw [Build.all.names_kiss (Or.inr hon.2), Option.some.injEq, dispatch_iff]
    · refine iff_of_false (by simp) (Build.all.names_none ?_ ?_ c value)
      · rintro (hk | hk)
        · exact hamode ⟨(length_of_strcasecmp hk).ge, hk⟩
        · exact hon ⟨(length_of_strcasecmp hk).ge, hk⟩
      · rintro ⟨-, key, value', a, t, ha, ht, -, rfl⟩
        exact hat ⟨h6, ha, ht, rfl⟩
  · have hnot : ¬Build.all.Names line c value := fun hnames => h6 hnames.length
    rw [if_neg (by omega : ¬(line.length ≥ 6 ∧ _)), if_neg (by omega : ¬(line.length ≥ 10 ∧ _)),
      if_neg (by omega : ¬(line.length ≥ 7 ∧ _))]
    split_ifs <;> simp [hnot]

end TinyAprs
