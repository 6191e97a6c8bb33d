import Mathlib.Data.List.Basic
import StyleAudit.Program
import StyleAudit.Proofs.Text

/-!
# Command lines that ask for an audit

A command line spells a row of items: options with a value, flags, and files. An option and its
value are one argument with an equals sign or two arguments; after a lone `--` there are only files.
Main statement: a command line asks for an audit exactly if it spells items that name one file and
no option or flag twice. So the order of the items and the way they are spelled do not matter.
-/

namespace StyleAudit
set_option autoImplicit false

/-- What stands on a command line. -/
inductive Item where
  | value (option : ValueOption) (text : String)
  | flag (flag : Flag)
  | file (name : String)
  deriving DecidableEq

def ValueOption.long : ValueOption → String
  | .output => "--output"
  | .root => "--root"

def Flag.spellings : Flag → List String
  | .verbose => ["--verbose", "-v"]
  | .debug => ["--debug"]

/-- A hyphen with more after it makes an argument an option. -/
def isOption (arg : String) : Bool :=
  match arg.toList with
  | '-' :: _ :: _ => true
  | _ => false

/-- The ways to spell an item. -/
inductive Spelling : Item → List String → Prop
  | joined (option : ValueOption) (text : String) :
      Spelling (.value option text) [option.long ++ "=" ++ text]
  | apart (option : ValueOption) {text : String} :
      isOption text = false → Spelling (.value option text) [option.long, text]
  | flag {flag : Flag} {arg : String} : arg ∈ flag.spellings → Spelling (.flag flag) [arg]
  | file {name : String} : isOption name = false → Spelling (.file name) [name]

/-- A command line spells a row of items. -/
inductive Spells : List Item → List String → Prop
  | nil : Spells [] []
  | cons {item : Item} {items : List Item} {args rest : List String} :
      Spelling item args → Spells items rest → Spells (item :: items) (args ++ rest)
  | onlyFiles (names : List String) : Spells (names.map .file) ("--" :: names)

namespace Item

def text? (option : ValueOption) : Item → Option String
  | .value o text => if o = option then some text else none
  | _ => none

def name? : Item → Option String
  | .file name => some name
  | _ => none

end Item

/-- Items that hold at most one of a kind: the file, the values and the flags among them. -/
structure Holds (items : List Item) (file output root : Option String) (verbose debug : Bool) :
    Prop where
  file : items.filterMap Item.name? = file.toList
  output : items.filterMap (Item.text? .output) = output.toList
  root : items.filterMap (Item.text? .root) = root.toList
  verbose : items.count (.flag .verbose) = verbose.toNat
  debug : items.count (.flag .debug) = debug.toNat

theorem Holds.unique {items : List Item} {file file' output output' root root' : Option String}
    {verbose verbose' debug debug' : Bool} (h : Holds items file output root verbose debug)
    (h' : Holds items file' output' root' verbose' debug') :
    file = file' ∧ output = output' ∧ root = root' ∧ verbose = verbose' ∧ debug = debug' := by
  have hslot : ∀ {slot slot' : Option String}, slot.toList = slot'.toList → slot = slot' := by
    intro slot slot' hlist
    have hhead := congrArg List.head? hlist
    rwa [Option.head?_toList, Option.head?_toList] at hhead
  have hflag : ∀ {up up' : Bool}, up.toNat = up'.toNat → up = up' := by decide
  exact ⟨hslot (h.file.symm.trans h'.file), hslot (h.output.symm.trans h'.output),
    hslot (h.root.symm.trans h'.root), hflag (h.verbose.symm.trans h'.verbose),
    hflag (h.debug.symm.trans h'.debug)⟩

def Item.Collects (items : List Item) (o : Options) : Prop :=
  Holds items (some o.file) o.output o.root o.verbose o.debug

namespace Reading

def Has (r : Reading) (items : List Item) : Prop :=
  Holds items r.file r.output r.root r.verbose r.debug

/-- The options that a reading ends with. -/
def options (r : Reading) : Except Refusal Options :=
  match r.file with
  | none => .error .missingFile
  | some file =>
    .ok { file, output := r.output, root := r.root, verbose := r.verbose, debug := r.debug }

/-- What a reading makes of the arguments that are left. -/
def complete (r : Reading) (args : List String) : Except Refusal Options := do
  let r ← args.foldlM next r
  let r ← r.settle
  r.options

theorem complete_nil (r : Reading) : r.complete [] = r.settle.bind options := rfl

theorem complete_cons (r : Reading) (arg : String) (args : List String) :
    r.complete (arg :: args) = (r.next arg).bind fun r => r.complete args := by
  rw [complete, List.foldlM_cons]
  cases r.next arg <;> rfl

theorem bind_eq_ok {α β : Type} {x : Except Refusal α} {f : α → Except Refusal β} {b : β} :
    x.bind f = .ok b ↔ ∃ a, x = .ok a ∧ f a = .ok b := by
  cases x with
  | error e => exact ⟨nofun, nofun⟩
  | ok a => exact ⟨fun h => ⟨a, rfl, h⟩, fun ⟨_, rfl, h⟩ => h⟩

/-- Take an item up. -/
def take (r : Reading) : Item → Except Refusal Reading
  | .value option text => r.store option text
  | .flag flag => r.raise flag
  | .file name => r.operand name

section Taking
variable {r r' : Reading} {items : List Item}

theorem settle_of_pending_eq_none (h : r.pending = none) : r.settle = .ok r := by
  rw [settle, h]

theorem filterMap_keeps {f : Item → Option String} {item : Item} {slot : Option String}
    (h : items.filterMap f = slot.toList) (hitem : f item = none) :
    (items ++ [item]).filterMap f = slot.toList := by
  rw [List.filterMap_append, h, List.filterMap_cons_none hitem, List.filterMap_nil,
    List.append_nil]

theorem filterMap_gains {f : Item → Option String} {item : Item} {text : String}
    (h : items.filterMap f = []) (hitem : f item = some text) :
    (items ++ [item]).filterMap f = [text] := by
  rw [List.filterMap_append, h, List.filterMap_cons_some hitem, List.filterMap_nil,
    List.nil_append]

theorem count_keeps {item other : Item} {up : Bool} (h : items.count item = up.toNat)
    (hne : other ≠ item) : (items ++ [other]).count item = up.toNat := by
  rw [List.count_append, h, List.count_singleton, beq_eq_false_iff_ne.mpr hne]
  rfl

theorem count_gains {item : Item} (h : items.count item = 0) :
    (items ++ [item]).count item = 1 := by
  rw [List.count_append, h, List.count_singleton_self]

theorem filterMap_overflows {f : Item → Option String} {item : Item} {held text : String}
    (h : items.filterMap f = [held]) (hitem : f item = some text) (more : List Item)
    (slot : Option String) : (items ++ item :: more).filterMap f ≠ slot.toList := by
  intro hslot
  have hlength := congrArg List.length hslot
  rw [List.filterMap_append, h, List.filterMap_cons_some hitem] at hlength
  have hle := slot.length_toList_le
  simp only [List.length_append, List.length_cons] at hlength
  omega

theorem count_overflows {item : Item} (h : items.count item = 1) (more : List Item) (up : Bool) :
    (items ++ item :: more).count item ≠ up.toNat := by
  rw [List.count_append, h, List.count_cons_self]
  have hle := up.toNat_le
  omega

/-- A reading takes an item up, or no row of items with that item after its own can be read. -/
theorem take_cases (h : r.Has items) (hpending : r.pending = none) (item : Item) :
    (∃ r', r.take item = .ok r' ∧ r'.Has (items ++ [item]) ∧ r'.pending = none ∧
      r'.filesOnly = r.filesOnly) ∨
    ((∃ f, r.take item = .error f) ∧ ∀ more o, ¬Item.Collects (items ++ item :: more) o) := by
  obtain ⟨file, output, root, verbose, debug, pending, filesOnly⟩ := r
  obtain rfl : pending = none := hpending
  obtain ⟨hfile, houtput, hroot, hverbose, hdebug⟩ := h
  cases item with
  | value option text =>
    cases option with
    | output =>
      cases output with
      | none =>
        exact .inl ⟨_, rfl, ⟨filterMap_keeps hfile rfl, filterMap_gains houtput rfl,
          filterMap_keeps hroot rfl, count_keeps hverbose nofun, count_keeps hdebug nofun⟩,
          rfl, rfl⟩
      | some held =>
        exact .inr ⟨⟨_, rfl⟩, fun more o hall => filterMap_overflows houtput rfl more _ hall.output⟩
    | root =>
      cases root with
      | none =>
        exact .inl ⟨_, rfl, ⟨filterMap_keeps hfile rfl, filterMap_keeps houtput rfl,
          filterMap_gains hroot rfl, count_keeps hverbose nofun, count_keeps hdebug nofun⟩,
          rfl, rfl⟩
      | some held =>
        exact .inr ⟨⟨_, rfl⟩, fun more o hall => filterMap_overflows hroot rfl more _ hall.root⟩
  | flag flag =>
    cases flag with
    | verbose =>
      cases verbose with
      | false =>
        exact .inl ⟨_, rfl, ⟨filterMap_keeps hfile rfl, filterMap_keeps houtput rfl,
          filterMap_keeps hroot rfl, count_gains hverbose, count_keeps hdebug nofun⟩, rfl, rfl⟩
      | true =>
        exact .inr ⟨⟨_, rfl⟩, fun more o hall => count_overflows hverbose more _ hall.verbose⟩
    | debug =>
      cases debug with
      | false =>
        exact .inl ⟨_, rfl, ⟨filterMap_keeps hfile rfl, filterMap_keeps houtput rfl,
          filterMap_keeps hroot rfl, count_keeps hverbose nofun, count_gains hdebug⟩, rfl, rfl⟩
      | true =>
        exact .inr ⟨⟨_, rfl⟩, fun more o hall => count_overflows hdebug more _ hall.debug⟩
  | file name =>
    cases file with
    | none =>
      exact .inl ⟨_, rfl, ⟨filterMap_gains hfile rfl, filterMap_keeps houtput rfl,
        filterMap_keeps hroot rfl, count_keeps hverbose nofun, count_keeps hdebug nofun⟩, rfl, rfl⟩
    | some held =>
      exact .inr ⟨⟨_, rfl⟩, fun more o hall => filterMap_overflows hfile rfl more _ hall.file⟩

end Taking

section Arguments

theorem next_separator {r : Reading} (h : r.filesOnly = false) :
    r.next "--" = .ok { r with filesOnly := true } := by
  simp [next, h]

theorem next_short {r : Reading} (h : r.filesOnly = false) {arg : String} {c : Char}
    {rest : List Char} (hc : c ≠ '-') (hlist : arg.toList = '-' :: c :: rest) :
    r.next arg = r.short (c :: rest) := by
  rw [next, h, hlist]
  simp [hc]

theorem next_name {r : Reading} (h : r.filesOnly = false) {name : String} (hne : name.toList ≠ [])
    (hname : '=' ∉ name.toList) : r.next ("--" ++ name) = r.long name none := by
  have hrun : ∀ c ∈ name.toList, (c != '=') = true := fun c hc =>
    bne_iff_ne.mpr fun e => hname (e ▸ hc)
  have htake : name.toList.takeWhile (· != '=') = name.toList :=
    List.takeWhile_eq_self_iff.mpr hrun
  have hdrop : name.toList.dropWhile (· != '=') = [] := List.dropWhile_eq_nil_iff.mpr hrun
  have hlist : ("--" ++ name).toList = '-' :: '-' :: name.toList := by simp
  rw [next, h, hlist]
  simp [htake, hdrop]

theorem next_name_value {r : Reading} (h : r.filesOnly = false) {name : String}
    (hname : '=' ∉ name.toList) (text : String) :
    r.next ("--" ++ name ++ "=" ++ text) = r.long name (some text) := by
  have hrun : ∀ c ∈ name.toList, (c != '=') = true := fun c hc =>
    bne_iff_ne.mpr fun e => hname (e ▸ hc)
  have hstops : Text.Stops (· != '=') ('=' :: text.toList) := by simp [Text.Stops]
  have htake := Text.takeWhile_run hrun hstops
  have hdrop := Text.dropWhile_run hrun hstops
  have hlist : ("--" ++ name ++ "=" ++ text).toList =
      '-' :: '-' :: (name.toList ++ '=' :: text.toList) := by simp
  rw [next, h, hlist]
  have hne : name.toList ++ '=' :: text.toList ≠ [] := by simp
  simp only [Bool.false_eq_true, if_false, hdrop, htake, String.ofList_toList]

theorem next_apart {r : Reading} (h : r.filesOnly = false) (option : ValueOption) :
    r.next option.long = r.settle.bind fun r => .ok { r with pending := some (option, none) } := by
  rw [next, h]
  cases option <;> rfl

theorem next_joined {r : Reading} (h : r.filesOnly = false) (option : ValueOption) (text : String) :
    r.next (option.long ++ "=" ++ text) = r.settle.bind fun r => r.store option text := by
  cases option with
  | output => exact next_name_value h (by decide : '=' ∉ "output".toList) text
  | root => exact next_name_value h (by decide : '=' ∉ "root".toList) text

theorem next_flag {r : Reading} (h : r.filesOnly = false) {flag : Flag} {arg : String}
    (harg : arg ∈ flag.spellings) : r.next arg = r.raise flag := by
  rw [next, h]
  cases flag with
  | verbose =>
    rcases List.mem_pair.mp harg with rfl | rfl
    · rfl
    · change (r.raise .verbose).bind (fun r => r.short []) = _
      cases r.raise .verbose <;> rfl
  | debug =>
    obtain rfl := List.mem_singleton.mp harg
    rfl

theorem next_plain {r : Reading} (h : r.filesOnly = false) {arg : String}
    (harg : isOption arg = false) : r.next arg =
      match r.pending with
      | some (option, none) => .ok { r with pending := some (option, some arg) }
      | _ => r.operand arg := by
  rw [next, h]
  simp only [Bool.false_eq_true, if_false]
  rw [isOption] at harg
  split
  · next hlist => simp [hlist] at harg
  · next hlist => simp [hlist] at harg
  · next hlist => simp [hlist] at harg
  · rfl

theorem settle_keeps {r settled : Reading} (h : r.settle = .ok settled) :
    settled.pending = none ∧ settled.file = r.file ∧ settled.filesOnly = r.filesOnly ∧
      settled.verbose = r.verbose := by
  rw [settle] at h
  split at h
  · next hpending =>
    cases h
    exact ⟨hpending, rfl, rfl, rfl⟩
  · cases h
  · next option text _ =>
    cases option <;> rw [store] at h <;> split at h <;> cases h <;> exact ⟨rfl, rfl, rfl, rfl⟩

theorem raise_verbose {r settled : Reading} (h : r.settle = .ok settled) :
    r.raise .verbose = if r.verbose then .error (.repeated Flag.verbose.shown)
      else .ok { settled with verbose := true } := by
  rw [raise, h, ← (settle_keeps h).2.2.2]
  rfl

theorem raise_verbose_twice {r raised : Reading} (h : r.raise .verbose = .ok raised) :
    ∃ f, raised.raise .verbose = .error f := by
  have hraised : raised.verbose = true := by
    cases hsettle : r.settle with
    | error f =>
      rw [raise, hsettle] at h
      cases h
    | ok settled =>
      rw [raise_verbose hsettle] at h
      split at h
      · cases h
      · cases h
        rfl
  cases hsettle : raised.settle with
  | error f =>
    refine ⟨f, ?_⟩
    rw [raise, hsettle]
    rfl
  | ok settled => exact ⟨_, by rw [raise_verbose hsettle, if_pos hraised]⟩

theorem ask_error (r : Reading) (request : Refusal) : ∃ f, r.ask request = .error f := by
  rw [ask]
  cases r.settle with
  | error f => exact ⟨f, rfl⟩
  | ok settled => exact ⟨request, rfl⟩

theorem short_v (r : Reading) (rest : List Char) :
    r.short ('v' :: rest) = (r.raise .verbose).bind fun r => r.short rest := rfl

theorem short_cons_error (r : Reading) {c : Char} (hc : c ≠ 'v') (rest : List Char) :
    ∃ f, r.short (c :: rest) = .error f := by
  unfold short
  split
  · exact absurd rfl hc
  · exact ask_error r _
  · exact ask_error r _
  · exact ⟨_, rfl⟩

/-- Letters after one hyphen are those of the flag `-v`, or they cannot be read. -/
theorem short_cases (r : Reading) (c : Char) (rest : List Char) :
    (c = 'v' ∧ rest = []) ∨ ∃ f, r.short (c :: rest) = .error f := by
  by_cases hc : c = 'v'
  · subst hc
    cases rest with
    | nil => exact .inl ⟨rfl, rfl⟩
    | cons d rest =>
      refine .inr ?_
      rw [short_v]
      cases hraise : r.raise .verbose with
      | error f => exact ⟨f, rfl⟩
      | ok raised =>
        by_cases hd : d = 'v'
        · subst hd
          obtain ⟨f, htwice⟩ := raise_verbose_twice hraise
          refine ⟨f, ?_⟩
          change raised.short ('v' :: rest) = _
          rw [short_v, htwice]
          rfl
        · exact short_cons_error raised hd rest
  · exact .inr (short_cons_error r hc rest)

theorem long_error_of_value (r : Reading) {name : String}
    (hname : ∀ option, "--" ++ name ≠ ValueOption.long option) (value : String) :
    ∃ f, r.long name (some value) = .error f := by
  unfold long
  dsimp only
  split
  · exact (hname .output rfl).elim
  · exact (hname .root rfl).elim
  all_goals exact ⟨_, rfl⟩

theorem long_error (r : Reading) {name : String}
    (hname : ∀ option, "--" ++ name ≠ ValueOption.long option)
    (hflag : ∀ flag, "--" ++ name ∉ Flag.spellings flag) : ∃ f, r.long name none = .error f := by
  unfold long
  dsimp only
  split
  · exact (hname .output rfl).elim
  · exact (hname .root rfl).elim
  · exact (hflag .verbose List.mem_cons_self).elim
  · exact (hflag .debug List.mem_cons_self).elim
  · exact ask_error r _
  · exact ask_error r _
  · exact ⟨_, rfl⟩

theorem double_hyphen_cases {arg : String} {rest : List Char}
    (hlist : arg.toList = '-' :: '-' :: rest) :
    arg = "--" ∨ ∃ name : String, '=' ∉ name.toList ∧
      (name.toList ≠ [] ∧ arg = "--" ++ name ∨ ∃ text, arg = "--" ++ name ++ "=" ++ text) := by
  have hsplit := List.takeWhile_append_dropWhile (p := (· != '=')) (l := rest)
  have hname : '=' ∉ rest.takeWhile (· != '=') := fun hmem =>
    absurd (List.mem_takeWhile_imp hmem) (by simp)
  have harg : ∀ {other : String}, other.toList = '-' :: '-' :: rest → arg = other := fun h =>
    String.toList_inj.mp (hlist.trans h.symm)
  by_cases hempty : rest = []
  · subst hempty
    exact .inl (harg rfl)
  · refine .inr ⟨String.ofList (rest.takeWhile (· != '=')), by simpa using hname, ?_⟩
    cases hdrop : rest.dropWhile (· != '=') with
    | nil =>
      rw [hdrop, List.append_nil] at hsplit
      exact .inl ⟨by simpa [hsplit] using hempty, harg (by simp [hsplit])⟩
    | cons c text =>
      obtain rfl : c = '=' := by
        have hstops := Text.stops_dropWhile (· != '=') rest c (by simp [hdrop])
        simpa using hstops
      refine .inr ⟨String.ofList text, harg ?_⟩
      rw [hdrop] at hsplit
      simp [hsplit]

/-- An argument has one of the forms that items are spelled with, or it cannot be read. -/
theorem argument_cases (arg : String) :
    arg = "--" ∨ (∃ option, arg = ValueOption.long option) ∨
      (∃ option text, arg = ValueOption.long option ++ "=" ++ text) ∨
      (∃ flag, arg ∈ Flag.spellings flag) ∨ isOption arg = false ∨
      ∀ r : Reading, r.filesOnly = false → ∃ f, r.next arg = .error f := by
  rcases hlist : arg.toList with _ | ⟨a, _ | ⟨b, rest⟩⟩
  · simp [isOption, hlist]
  · simp [isOption, hlist]
  · by_cases ha : a = '-'
    · subst ha
      by_cases hb : b = '-'
      · subst hb
        rcases double_hyphen_cases hlist with rfl | ⟨name, hname, ⟨hne, rfl⟩ | ⟨text, rfl⟩⟩
        · exact .inl rfl
        · by_cases hoption : ∃ option, "--" ++ name = ValueOption.long option
          · exact .inr (.inl hoption)
          · by_cases hflag : ∃ flag, "--" ++ name ∈ Flag.spellings flag
            · exact .inr (.inr (.inr (.inl hflag)))
            · refine .inr (.inr (.inr (.inr (.inr fun r h => ?_))))
              rw [next_name h hne hname]
              exact long_error r (not_exists.mp hoption) (not_exists.mp hflag)
        · by_cases hoption : ∃ option, "--" ++ name = ValueOption.long option
          · obtain ⟨option, hlong⟩ := hoption
            rw [hlong]
            exact .inr (.inr (.inl ⟨option, text, rfl⟩))
          · refine .inr (.inr (.inr (.inr (.inr fun r h => ?_))))
            rw [next_name_value h hname]
            exact long_error_of_value r (not_exists.mp hoption) text
      · by_cases hflag : b = 'v' ∧ rest = []
        · obtain ⟨rfl, rfl⟩ := hflag
          obtain rfl : arg = "-v" := String.toList_inj.mp hlist
          exact .inr (.inr (.inr (.inl ⟨.verbose, by decide⟩)))
        · refine .inr (.inr (.inr (.inr (.inr fun r h => ?_))))
          rw [next_short h hb hlist]
          exact (short_cases r b rest).resolve_left hflag
    · simp [isOption, hlist, ha]

end Arguments

section Completing
variable {r : Reading} {o : Options}

theorem operand_eq_ok (r r' : Reading) (arg : String) : r.operand arg = .ok r' ↔
    ∃ settled, r.settle = .ok settled ∧ settled.file = none ∧
      { settled with file := some arg } = r' := by
  rw [operand]
  cases hfile : r.file with
  | some name =>
    refine ⟨nofun, fun ⟨settled, hsettle, hnone, _⟩ => ?_⟩
    rw [(settle_keeps hsettle).2.1, hfile] at hnone
    cases hnone
  | none =>
    change r.settle.bind (fun r => .ok { r with file := some arg }) = .ok r' ↔ _
    rw [bind_eq_ok]
    refine exists_congr fun settled => and_congr_right fun hsettle => ?_
    rw [(settle_keeps hsettle).2.1, hfile, Except.ok.injEq, eq_self_iff_true, true_and]

theorem settle_settled {settled : Reading} (h : r.settle = .ok settled) :
    settled.settle = .ok settled := settle_of_pending_eq_none (settle_keeps h).1

theorem bind_settle_eq_ok {f : Reading → Except Refusal Reading} {r' : Reading} :
    r.settle.bind f = .ok r' ↔
      ∃ settled, r.settle = .ok settled ∧ settled.settle.bind f = .ok r' := by
  rw [bind_eq_ok]
  refine exists_congr fun settled => and_congr_right fun hsettle => ?_
  rw [settle_settled hsettle]
  rfl

theorem operand_settle (r r' : Reading) (arg : String) : r.operand arg = .ok r' ↔
    ∃ settled, r.settle = .ok settled ∧ settled.operand arg = .ok r' := by
  rw [operand_eq_ok]
  refine exists_congr fun settled => and_congr_right fun hsettle => ?_
  rw [operand_eq_ok, settle_settled hsettle]
  simp

theorem next_files (h : r.filesOnly = true) (arg : String) : r.next arg = r.operand arg := by
  rw [next, if_pos h]

theorem raise_settle (r r' : Reading) (flag : Flag) : r.raise flag = .ok r' ↔
    ∃ settled, r.settle = .ok settled ∧ settled.raise flag = .ok r' := bind_settle_eq_ok

/-- Reading an argument other than `--` begins with the option that waits for its end. -/
theorem next_pending {option : ValueOption} {text arg : String} (r' : Reading)
    (hpending : r.pending = some (option, some text)) (harg : r.filesOnly = true ∨ arg ≠ "--") :
    r.next arg = .ok r' ↔ ∃ settled, r.settle = .ok settled ∧ settled.next arg = .ok r' := by
  have hfiles : ∀ {settled : Reading}, r.settle = .ok settled → settled.filesOnly = r.filesOnly :=
    fun h => (settle_keeps h).2.2.1
  have hcongr : ∀ {f : Reading → Except Refusal Reading},
      (∀ settled, r.settle = .ok settled → settled.next arg = f settled) →
      (r.next arg = .ok r' ↔ ∃ settled, r.settle = .ok settled ∧ f settled = .ok r') →
      (r.next arg = .ok r' ↔ ∃ settled, r.settle = .ok settled ∧ settled.next arg = .ok r') := by
    intro f hf hnext
    rw [hnext]
    refine exists_congr fun settled => and_congr_right fun hsettle => ?_
    rw [hf settled hsettle]
  cases hopen : r.filesOnly with
  | true =>
    refine hcongr (fun settled h => next_files ((hfiles h).trans hopen) arg) ?_
    rw [next_files hopen]
    exact operand_settle r r' arg
  | false =>
    have hopen' : ∀ {settled : Reading}, r.settle = .ok settled → settled.filesOnly = false :=
      fun h => (hfiles h).trans hopen
    rcases argument_cases arg with rfl | ⟨named, rfl⟩ | ⟨named, value, rfl⟩ | ⟨flag, hflag⟩ |
      hplain | hother
    · simp [hopen] at harg
    · refine hcongr (fun settled h => next_apart (hopen' h) named) ?_
      rw [next_apart hopen]
      exact bind_settle_eq_ok
    · refine hcongr (fun settled h => next_joined (hopen' h) named value) ?_
      rw [next_joined hopen]
      exact bind_settle_eq_ok
    · refine hcongr (fun settled h => next_flag (hopen' h) hflag) ?_
      rw [next_flag hopen hflag]
      exact raise_settle r r' flag
    · refine hcongr (f := fun settled => settled.operand arg) (fun settled h => ?_) ?_
      · rw [next_plain (hopen' h) hplain, (settle_keeps h).1]
      · rw [next_plain hopen hplain, hpending]
        exact operand_settle r r' arg
    · obtain ⟨f, hf⟩ := hother r hopen
      rw [hf]
      refine ⟨nofun, fun ⟨settled, hsettle, hnext⟩ => ?_⟩
      obtain ⟨f', hf'⟩ := hother settled (hopen' hsettle)
      rw [hf'] at hnext
      cases hnext

theorem settle_onlyFiles {option : ValueOption} {text : String}
    (hpending : r.pending = some (option, some text)) (settled : Reading) :
    { r with filesOnly := true }.settle = .ok settled ↔
      ∃ s, r.settle = .ok s ∧ { s with filesOnly := true } = settled := by
  rw [settle, settle, hpending]
  cases option with
  | output =>
    simp only [store]
    split
    · simp
    · simp
  | root =>
    simp only [store]
    split
    · simp
    · simp

/-- An option with its value can be finished before or after the arguments that are left. -/
theorem complete_pending {option : ValueOption} {text : String}
    (hpending : r.pending = some (option, some text)) (args : List String) :
    r.complete args = .ok o ↔
      ∃ settled, r.settle = .ok settled ∧ settled.complete args = .ok o := by
  induction args generalizing r with
  | nil =>
    rw [complete_nil, bind_eq_ok]
    refine exists_congr fun settled => and_congr_right fun hsettle => ?_
    rw [complete_nil, settle_settled hsettle]
    rfl
  | cons arg args ih =>
    simp only [complete_cons, bind_eq_ok]
    -- Only a separator leaves the option pending; every other argument finishes it.
    by_cases hclose : r.filesOnly = false ∧ arg = "--"
    · obtain ⟨hopen, rfl⟩ := hclose
      have hclosed : ∀ {settled : Reading}, r.settle = .ok settled →
          settled.next "--" = .ok { settled with filesOnly := true } := fun h =>
        next_separator ((settle_keeps h).2.2.1.trans hopen)
      rw [next_separator hopen]
      simp only [Except.ok.injEq, exists_eq_left']
      rw [ih (r := { r with filesOnly := true }) hpending]
      constructor
      · rintro ⟨closed, hclosing, hcomplete⟩
        obtain ⟨settled, hsettle, rfl⟩ := (settle_onlyFiles hpending closed).mp hclosing
        exact ⟨settled, hsettle, _, hclosed hsettle, hcomplete⟩
      · rintro ⟨settled, hsettle, closed, hnext, hcomplete⟩
        rw [hclosed hsettle] at hnext
        cases hnext
        exact ⟨_, (settle_onlyFiles hpending _).mpr ⟨settled, hsettle, rfl⟩, hcomplete⟩
    · have harg : r.filesOnly = true ∨ arg ≠ "--" := by
        simpa [Classical.or_iff_not_imp_left] using hclose
      constructor
      · rintro ⟨r', hnext, hcomplete⟩
        obtain ⟨settled, hsettle, hnext⟩ := (next_pending r' hpending harg).mp hnext
        exact ⟨settled, hsettle, r', hnext, hcomplete⟩
      · rintro ⟨settled, hsettle, r', hnext, hcomplete⟩
        exact ⟨r', (next_pending r' hpending harg).mpr ⟨settled, hsettle, hnext⟩, hcomplete⟩

theorem bind_settle_error {f : Refusal} (h : r.settle = .error f)
    (g : Reading → Except Refusal Reading) (r' : Reading) : r.settle.bind g ≠ .ok r' := by
  rw [h]
  exact nofun

theorem complete_missing_files {option : ValueOption} (hpending : r.pending = some (option, none))
    (hfiles : r.filesOnly = true) (names : List String) : r.complete names ≠ .ok o := by
  have hsettle : r.settle = .error (.missingValue option) := by rw [settle, hpending]
  intro h
  cases names with
  | nil =>
    rw [complete_nil, hsettle] at h
    cases h
  | cons name names =>
    obtain ⟨r', hnext, -⟩ := bind_eq_ok.mp (complete_cons r name names ▸ h)
    obtain ⟨settled, hok, -⟩ := (operand_eq_ok r r' name).mp (next_files hfiles name ▸ hnext)
    rw [hsettle] at hok
    cases hok

/-- An option that waits for its value gets the next argument, which is none that starts an
option. -/
theorem complete_missing {option : ValueOption} (hpending : r.pending = some (option, none))
    (hopen : r.filesOnly = false) {args : List String} (h : r.complete args = .ok o) :
    ∃ text rest, args = text :: rest ∧ isOption text = false := by
  have hsettle : r.settle = .error (.missingValue option) := by rw [settle, hpending]
  cases args with
  | nil =>
    rw [complete_nil, hsettle] at h
    cases h
  | cons arg args =>
    obtain ⟨r', hnext, hcomplete⟩ := bind_eq_ok.mp (complete_cons r arg args ▸ h)
    rcases argument_cases arg with rfl | ⟨named, rfl⟩ | ⟨named, value, rfl⟩ | ⟨flag, hflag⟩ |
      hplain | hother
    · rw [next_separator hopen] at hnext
      cases hnext
      exact absurd hcomplete
        (complete_missing_files (r := { r with filesOnly := true }) hpending rfl args)
    · rw [next_apart hopen] at hnext
      exact absurd hnext (bind_settle_error hsettle _ r')
    · rw [next_joined hopen] at hnext
      exact absurd hnext (bind_settle_error hsettle _ r')
    · rw [next_flag hopen hflag] at hnext
      exact absurd hnext (bind_settle_error hsettle _ r')
    · exact ⟨arg, args, rfl, hplain⟩
    · obtain ⟨f, hf⟩ := hother r hopen
      rw [hf] at hnext
      cases hnext

theorem complete_nil_iff {items : List Item} (h : r.Has items) (hpending : r.pending = none) :
    r.complete [] = .ok o ↔ Item.Collects items o := by
  rw [complete_nil, settle_of_pending_eq_none hpending]
  change r.options = .ok o ↔ _
  rw [options]
  cases hfile : r.file with
  | none =>
    refine ⟨nofun, fun hcollects => ?_⟩
    have hnone := h.file
    rw [hfile, hcollects.file] at hnone
    cases hnone
  | some file =>
    rw [Has, hfile] at h
    constructor
    · intro heq
      cases heq
      exact h
    · intro hcollects
      obtain ⟨hname, houtput, hroot, hverbose, hdebug⟩ := h.unique hcollects
      rw [houtput, hroot, hverbose, hdebug, Option.some.inj hname]

theorem complete_files {items : List Item} (h : r.Has items) (hpending : r.pending = none)
    (hfiles : r.filesOnly = true) (names : List String) :
    r.complete names = .ok o ↔ Item.Collects (items ++ names.map .file) o := by
  induction names generalizing r items with
  | nil => simpa using complete_nil_iff h hpending
  | cons name names ih =>
    rw [complete_cons, next_files hfiles, List.map_cons]
    rcases take_cases h hpending (.file name) with
      ⟨r', htake, hhas, hpending', hfiles'⟩ | ⟨⟨f, htake⟩, hnever⟩
    · have htake : r.operand name = .ok r' := htake
      rw [htake, List.append_cons]
      exact ih hhas hpending' (hfiles'.trans hfiles)
    · have htake : r.operand name = .error f := htake
      rw [htake]
      exact ⟨nofun, fun hcollects => absurd hcollects (hnever _ o)⟩

/-- A spelled item in front is taken up, whatever comes after it. -/
theorem complete_spelling {item : Item} {args : List String} (hspelling : Spelling item args)
    (hpending : r.pending = none) (hopen : r.filesOnly = false) (rest : List String) :
    r.complete (args ++ rest) = .ok o ↔
      ∃ r', r.take item = .ok r' ∧ r'.complete rest = .ok o := by
  have hsettle := settle_of_pending_eq_none hpending
  cases hspelling with
  | joined option text =>
    rw [List.singleton_append, complete_cons, next_joined hopen, hsettle]
    exact bind_eq_ok
  | @apart option text htext =>
    have hopen' : ∀ p, { r with pending := p }.filesOnly = false := fun _ => hopen
    change r.complete (option.long :: text :: rest) = _ ↔ _
    rw [complete_cons, next_apart hopen, hsettle]
    change Reading.complete _ (text :: rest) = _ ↔ _
    rw [complete_cons, next_plain (hopen' _) htext]
    change Reading.complete { r with pending := some (option, some text) } rest = _ ↔ _
    rw [complete_pending rfl]
    have hstore : { r with pending := some (option, some text) }.settle = r.store option text := by
      obtain ⟨file, output, root, verbose, debug, pending, filesOnly⟩ := r
      obtain rfl : pending = none := hpending
      rfl
    rw [hstore]
    rfl
  | flag hflag =>
    rw [List.singleton_append, complete_cons, next_flag hopen hflag]
    exact bind_eq_ok
  | file hname =>
    rw [List.singleton_append, complete_cons, next_plain hopen hname, hpending]
    exact bind_eq_ok

/-- Whichever way items are spelled, a reading ends with the options that collect them. -/
theorem complete_spells {items more : List Item} {args : List String} (hspells : Spells more args)
    (h : r.Has items) (hpending : r.pending = none) (hopen : r.filesOnly = false) :
    r.complete args = .ok o ↔ Item.Collects (items ++ more) o := by
  induction hspells generalizing r items with
  | nil => simpa using complete_nil_iff h hpending
  | @cons item more args rest hspelling _ ih =>
    rw [complete_spelling hspelling hpending hopen]
    rcases take_cases h hpending item with
      ⟨r', htake, hhas, hpending', hopen'⟩ | ⟨⟨f, htake⟩, hnever⟩
    · rw [htake, List.append_cons, ← ih hhas hpending' (hopen'.trans hopen)]
      simp
    · rw [htake]
      exact ⟨nofun, fun hcollects => absurd hcollects (hnever more o)⟩
  | onlyFiles names =>
    rw [complete_cons, next_separator hopen]
    exact complete_files (r := { r with filesOnly := true }) h hpending rfl names

/-- Arguments that can be read begin with `--` or with a spelled item. -/
theorem spelling_of_complete {arg : String} {args : List String} (hopen : r.filesOnly = false)
    (hcomplete : r.complete (arg :: args) = .ok o) :
    arg = "--" ∨ ∃ item spelled rest,
      Spelling item spelled ∧ spelled ≠ [] ∧ arg :: args = spelled ++ rest := by
  obtain ⟨r', hnext, hrest⟩ := bind_eq_ok.mp (complete_cons r arg args ▸ hcomplete)
  rcases argument_cases arg with rfl | ⟨option, rfl⟩ | ⟨option, text, rfl⟩ | ⟨flag, hflag⟩ |
    hplain | hother
  · exact .inl rfl
  · rw [next_apart hopen] at hnext
    obtain ⟨settled, hsettle, hwait⟩ := bind_eq_ok.mp hnext
    cases hwait
    obtain ⟨text, rest, rfl, htext⟩ :=
      complete_missing (r := { settled with pending := some (option, none) }) rfl
        ((settle_keeps hsettle).2.2.1.trans hopen) hrest
    exact .inr ⟨_, _, rest, .apart option htext, by simp, rfl⟩
  · exact .inr ⟨_, _, args, .joined option text, by simp, rfl⟩
  · exact .inr ⟨_, _, args, .flag hflag, by simp, rfl⟩
  · exact .inr ⟨_, _, args, .file hplain, by simp, rfl⟩
  · obtain ⟨f, hf⟩ := hother r hopen
    rw [hf] at hnext
    cases hnext

theorem spells_of_complete {items : List Item} {args : List String}
    (h : r.Has items) (hpending : r.pending = none) (hopen : r.filesOnly = false)
    (hcomplete : r.complete args = .ok o) : ∃ more, Spells more args := by
  -- An item takes one argument or two.
  induction hlength : args.length using Nat.strong_induction_on generalizing r items args with
  | h n ih =>
    subst hlength
    cases args with
    | nil => exact ⟨[], .nil⟩
    | cons arg args =>
      rcases spelling_of_complete hopen hcomplete with
        rfl | ⟨item, spelled, rest, hspelling, hne, hargs⟩
      · exact ⟨_, .onlyFiles args⟩
      · rw [hargs] at hcomplete ⊢
        obtain ⟨r', htake, hrest⟩ := (complete_spelling hspelling hpending hopen rest).mp hcomplete
        rcases take_cases h hpending item with
          ⟨r'', htake', hhas, hpending', hopen'⟩ | ⟨⟨f, hf⟩, -⟩
        · rw [htake] at htake'
          cases htake'
          have hshort : rest.length < (arg :: args).length := by
            have hpos := List.length_pos_of_ne_nil hne
            rw [hargs, List.length_append]
            omega
          obtain ⟨more, hmore⟩ := ih _ hshort hhas hpending' (hopen'.trans hopen) hrest rfl
          exact ⟨item :: more, .cons hspelling hmore⟩
        · rw [htake] at hf
          cases hf

end Completing

end Reading

namespace Options

theorem has_nil : ({} : Reading).Has [] := ⟨rfl, rfl, rfl, rfl, rfl⟩

theorem parse_spells {items : List Item} {args : List String} (h : Spells items args)
    (o : Options) : parse args = .ok o ↔ Item.Collects items o :=
  Reading.complete_spells h has_nil rfl rfl

/-- A command line asks for an audit with some options exactly if it spells items that name one
file, and no option and no flag more than once, and the options collect them. -/
theorem parse_eq_ok_iff (args : List String) (o : Options) :
    parse args = .ok o ↔ ∃ items, Spells items args ∧ Item.Collects items o := by
  constructor
  · intro h
    obtain ⟨items, hspells⟩ := Reading.spells_of_complete has_nil rfl rfl h
    exact ⟨items, hspells, (parse_spells hspells o).mp h⟩
  · rintro ⟨items, hspells, hcollects⟩
    exact (parse_spells hspells o).mpr hcollects

example : parse ["-v", "--root", "-", "a.py", "--output="] =
    .ok ⟨"a.py", some "", some "-", true, false⟩ := by decide

theorem collects_perm {items items' : List Item} (h : items.Perm items') {o : Options}
    (hcollects : Item.Collects items o) : Item.Collects items' o := by
  have hslot : ∀ {f : Item → Option String} {slot : Option String},
      items.filterMap f = slot.toList → items'.filterMap f = slot.toList := by
    intro f slot hitems
    have hperm := (h.filterMap f).symm
    rw [hitems] at hperm
    cases slot with
    | none => exact List.perm_nil.mp hperm
    | some text => exact List.perm_singleton.mp hperm
  obtain ⟨hfile, houtput, hroot, hverbose, hdebug⟩ := hcollects
  exact ⟨hslot hfile, hslot houtput, hslot hroot, (h.count_eq _).symm.trans hverbose,
    (h.count_eq _).symm.trans hdebug⟩

/-- Neither the order of the items on a command line nor their spelling matters. -/
theorem parse_perm {items items' : List Item} {args args' : List String} (h : Spells items args)
    (h' : Spells items' args') (hperm : items.Perm items') (o : Options) :
    parse args = .ok o ↔ parse args' = .ok o := by
  rw [parse_spells h, parse_spells h']
  exact ⟨collects_perm hperm, collects_perm hperm.symm⟩

end Options

namespace Refusal

theorem error_prefix_headline {r : Refusal} (h : r.isInformation = false) :
    "error: ".toList <+: r.headline.toList := by
  have happend : ∀ {front : String}, "error: ".toList <+: front.toList → ∀ rest : String,
      "error: ".toList <+: (front ++ rest).toList := fun hfront rest => by
    rw [String.toList_append]
    exact hfront.trans (List.prefix_append _ _)
  cases r with
  | help full => cases h
  | version => cases h
  | missingFile => decide
  | unknown arg => exact happend (happend (by decide) _) _
  | missingValue option => exact happend (happend (by decide) _) _
  | repeated option => exact happend (happend (by decide) _) _
  | needlessValue value option => exact happend (happend (happend (happend (by decide) _) _) _) _

theorem error_prefix_firstLine {r : Refusal} (h : r.isInformation = false) :
    "error: ".toList <+: (Text.firstLine r.text).toList := by
  refine Text.prefix_firstLine ?_ (by decide) (by decide)
  rw [text, h]
  simp only [Bool.false_eq_true, if_false, String.toList_append, List.append_assoc]
  exact (error_prefix_headline h).trans (List.prefix_append _ _)

end Refusal

namespace Program
variable {σ : Type}

/-- A command line that asks for no audit does nothing to the system. It prints the text it asks for
and exits with 0, or it exits with 2 and an error. -/
theorem run_refused (decoders : Decoders) (host : Host σ) (coloured : Bool) {args : List String}
    (h : ∀ o, Options.parse args ≠ .ok o) (world : σ) :
    ∃ exit, run decoders host coloured args world = (exit, world) ∧
      (exit.code = 0 ∧ exit.stderr = "" ∨ exit.code = 2 ∧ exit.stdout = "" ∧
        "error: ".toList <+: (Text.firstLine exit.stderr).toList) := by
  rw [run]
  cases hparse : Options.parse args with
  | ok o => exact absurd hparse (h o)
  | error r =>
    dsimp only
    cases hinfo : r.isInformation with
    | true => exact ⟨_, rfl, .inl ⟨rfl, rfl⟩⟩
    | false => exact ⟨_, rfl, .inr ⟨rfl, rfl, r.error_prefix_firstLine hinfo⟩⟩

end Program
end StyleAudit
