import Mathlib.Algebra.Order.BigOperators.Group.List
import StyleAudit.Machine.Shell.Run
import StyleAudit.Proofs.ShellQuoting

/-!
# Scripts that are quoted lines

Quoted words are expanded to the texts in them: no parameter, pattern or divider has a meaning
there. A script that is one quoted line therefore runs its first text on the others, and a script
that prints quoted lines writes exactly these lines.
-/

namespace StyleAudit.Machine.Shell
set_option autoImplicit false

section Expansion

theorem run_bind_apply {α β : Type} (m : Run α) (k : α → Run β) (s : State) :
    (m >>= k) s = match m s with
      | (.ok a, t) => k a t
      | (.error leave, t) => (.error leave, t) := by
  simp only [bind, ExceptT.bind, ExceptT.mk, StateT.bind]
  rcases m s with ⟨leave | a, t⟩ <;> rfl

theorem run_bind_ok {α β : Type} {m : Run α} {k : α → Run β} {a : α} {s t : State}
    (h : m s = (.ok a, t)) : (m >>= k) s = k a t := by
  rw [run_bind_apply, h]

theorem run_get_bind {β : Type} (k : State → Run β) (s : State) : (get >>= k) s = k s s :=
  run_bind_ok rfl

theorem run_modify_bind {β : Type} (f : State → State) (k : PUnit → Run β) (s : State) :
    (modify f >>= k) s = k ⟨⟩ (f s) :=
  run_bind_ok rfl

/-- The items of a quoted piece. -/
def pieceItems : Piece → List Item
  | .text true cs => if cs.isEmpty then [.anchor] else items true false cs
  | _ => []

/-- The characters of a quoted piece. -/
def pieceChars : Piece → Octets
  | .text true cs => cs
  | _ => []

def IsQuoted (w : Word) : Prop := ∀ p ∈ w, ∃ cs, p = .text true cs

theorem expand_quoted {w : Word} (h : IsQuoted w) {fuel : Nat} (hfuel : w.length < fuel)
    (s : State) : expand fuel w s = (.ok (w.flatMap pieceItems), s) := by
  induction w generalizing fuel with
  | nil =>
    obtain ⟨fuel, rfl⟩ : ∃ n, fuel = n + 1 := Nat.exists_eq_add_one.mpr hfuel
    rw [expand]
    · rfl
    · exact Nat.succ_ne_zero _
  | cons p rest ih =>
    obtain ⟨cs, rfl⟩ := h p List.mem_cons_self
    obtain ⟨fuel, rfl⟩ : ∃ n, fuel = n + 2 := Nat.exists_eq_add_of_le' (by
      rw [List.length_cons] at hfuel
      omega)
    have hpiece : expandPiece (fuel + 1) (.text true cs) s =
        (.ok (pieceItems (.text true cs)), s) := by
      rw [expandPiece]
      rfl
    have hrest := ih (fun p hp => h p (List.mem_cons_of_mem _ hp)) (Nat.lt_of_succ_lt_succ hfuel)
    rw [expand, run_bind_ok hpiece, run_bind_ok hrest, List.flatMap_cons]
    rfl

theorem add_piece (dividers : Octets) (cs : Octets) (p : Splitting) :
    (pieceItems (.text true cs)).foldl (Splitting.add dividers) p =
      { p with field := some ((cs.map fun c => (c, true)).reverse ++ p.field.getD []),
               ended := false } := by
  have hchars : ∀ (cs : Octets) (p : Splitting), cs ≠ [] →
      (items true false cs).foldl (Splitting.add dividers) p =
        { p with field := some ((cs.map fun c => (c, true)).reverse ++ p.field.getD []),
                 ended := false } := by
    intro cs
    induction cs with
    | nil => exact fun p h => absurd rfl h
    | cons c rest ih =>
      intro p _
      rw [items, List.map_cons, List.foldl_cons]
      cases rest with
      | nil => rfl
      | cons d more =>
        have hrest := ih (Splitting.add dividers p (.char c true false)) (List.cons_ne_nil _ _)
        rw [items] at hrest
        rw [hrest]
        simp [Splitting.add]
  rw [pieceItems]
  cases cs with
  | nil => rfl
  | cons c rest => exact hchars _ _ (List.cons_ne_nil _ _)

theorem add_pieces {w : Word} (h : IsQuoted w) (dividers : Octets) {p : Splitting}
    {field : List PatternChar} (hfield : p.field = some field) :
    ((w.flatMap pieceItems).foldl (Splitting.add dividers) p).field =
        some (((w.flatMap pieceChars).map fun c => (c, true)).reverse ++ field) ∧
      ((w.flatMap pieceItems).foldl (Splitting.add dividers) p).done = p.done := by
  induction w generalizing p field with
  | nil => exact ⟨hfield, rfl⟩
  | cons piece rest ih =>
    obtain ⟨cs, rfl⟩ := h piece List.mem_cons_self
    rw [List.flatMap_cons, List.foldl_append, add_piece, hfield]
    obtain ⟨hrest, hdone⟩ := ih (fun p hp => h p (List.mem_cons_of_mem _ hp))
      (p := { p with field := some ((cs.map fun c => (c, true)).reverse ++ field), ended := false })
      rfl
    refine ⟨?_, hdone⟩
    refine hrest.trans ?_
    simp [pieceChars]

theorem done_close {p : Splitting} {field : List PatternChar} (h : p.field = some field) :
    (p.close false).done = field.reverse :: p.done := by
  rw [Splitting.close, h]

theorem fields_quoted {w : Word} (h : IsQuoted w) (hne : w ≠ []) (dividers : Octets) :
    fields dividers (w.flatMap pieceItems) = [(w.flatMap pieceChars).map fun c => (c, true)] := by
  cases w with
  | nil => exact absurd rfl hne
  | cons piece rest =>
    obtain ⟨cs, rfl⟩ := h piece List.mem_cons_self
    obtain ⟨hfield, hdone⟩ := add_pieces (fun p hp => h p (List.mem_cons_of_mem _ hp)) dividers
      (p := { field := some ((cs.map fun c => (c, true)).reverse ++ []) }) rfl
    rw [fields, List.flatMap_cons, List.foldl_append, add_piece]
    refine (congrArg List.reverse ((done_close hfield).trans (congrArg _ hdone))).trans ?_
    simp [pieceChars]

theorem fieldPaths_quoted (t : FileTree) (cwd : Location) (cs : Octets) :
    fieldPaths t cwd (cs.map fun c => (c, true)) = [cs] := by
  have hpattern : isPattern (cs.map fun c => (c, true)) = false := by
    rw [isPattern, List.any_map]
    simp
  have htext : (cs.map fun c => (c, true)).map Prod.fst = cs := by
    rw [List.map_map]
    exact List.map_id' cs
  rw [fieldPaths, hpattern, htext]
  rfl

theorem quotedPieces_chars (run cs : Octets) :
    (quotedPieces run cs).flatMap pieceChars = run.reverse ++ cs := by
  induction cs generalizing run with
  | nil => simp [quotedPieces, pieceChars]
  | cons c rest ih =>
    rw [quotedPieces]
    split
    · next hc => simp [pieceChars, ih, hc]
    · simp [ih]

theorem isQuoted_quotedPieces (run cs : Octets) : IsQuoted (quotedPieces run cs) := by
  induction cs generalizing run with
  | nil =>
    intro p hp
    exact ⟨_, List.mem_singleton.mp hp⟩
  | cons c rest ih =>
    rw [quotedPieces]
    split
    · intro p hp
      rcases List.mem_cons.mp hp with rfl | hp
      · exact ⟨_, rfl⟩
      · rcases List.mem_cons.mp hp with rfl | hp
        · exact ⟨_, rfl⟩
        · exact ih [] p hp
    · exact ih (c :: run)

/-- Quoted texts are expanded to themselves, one field each, whatever the state. -/
theorem expandWords_quoted (args : List Octets) {fuel : Nat} (hpos : args.length < fuel)
    (hfuel : ∀ a ∈ args, (quotedWordOf a).length + args.length < fuel) (s : State) :
    expandWords fuel (args.map quotedWordOf) s = (.ok args, s) := by
  induction args generalizing fuel with
  | nil =>
    obtain ⟨fuel, rfl⟩ : ∃ n, fuel = n + 1 := Nat.exists_eq_add_one.mpr hpos
    rw [List.map_nil, expandWords]
    · rfl
    · exact Nat.succ_ne_zero _
  | cons a rest ih =>
    obtain ⟨fuel, rfl⟩ : ∃ n, fuel = n + 1 := Nat.exists_eq_add_one.mpr (Nat.zero_lt_of_lt hpos)
    have hquoted : IsQuoted (quotedWordOf a) := isQuoted_quotedPieces [] a
    have hword := hfuel a List.mem_cons_self
    rw [List.length_cons] at hword hpos
    have hne : quotedWordOf a ≠ [] := by
      obtain ⟨first, more, hpieces⟩ := exists_quotedPieces [] a
      rw [quotedWordOf, hpieces]
      exact List.cons_ne_nil _ _
    have hfirst := expand_quoted hquoted (show (quotedWordOf a).length < fuel by omega) s
    have hrest : expandWords fuel (rest.map quotedWordOf) s = (.ok rest, s) := by
      refine ih (by omega) fun b hb => ?_
      have hb := hfuel b (List.mem_cons_of_mem _ hb)
      rw [List.length_cons] at hb
      omega
    have hchars : (quotedWordOf a).flatMap pieceChars = a := quotedPieces_chars [] a
    rw [List.map_cons, expandWords, run_bind_ok hfirst]
    refine (run_get_bind _ s).trans ?_
    rw [run_bind_ok hrest, fields_quoted hquoted hne, hchars]
    simp [fieldPaths_quoted]
    rfl

end Expansion

section Printing

/-- The format that prints each argument on a line of its own. -/
def lineFormat : Octets := "%s\\n".toList

theorem directives_lineFormat : directives (lineFormat.length + 1) lineFormat =
    [.conversion ⟨[], .absent, .absent, 's'⟩, .text ['\n']] := by
  simp [lineFormat, directives, measureAt, isOctal, letterEscape]

theorem once_lineFormat (p : Printed) (a : Octets) (rest : List Octets) (hargs : p.args = a :: rest)
    (hstopped : p.stopped = false) :
    p.once [.conversion ⟨[], .absent, .absent, 's'⟩, .text ['\n']] =
      ({ p with out := p.out ++ (a ++ ['\n']), args := rest, used := true }, none) := by
  obtain ⟨out, complaints, args, used, stopped⟩ := p
  obtain rfl : args = a :: rest := hargs
  obtain rfl : stopped = false := hstopped
  simp [Printed.once, Printed.convert, Printed.measure, Printed.take, pad]

theorem all_lineFormat (lines : List Octets) (hne : lines ≠ []) (p : Printed)
    (hargs : p.args = lines) (hstopped : p.stopped = false) {fuel : Nat}
    (hfuel : lines.length ≤ fuel) :
    Printed.all [.conversion ⟨[], .absent, .absent, 's'⟩, .text ['\n']] fuel p =
      ({ p with out := p.out ++ lines.flatMap (· ++ ['\n']), args := [], used := true }, none) := by
  induction lines generalizing p fuel with
  | nil => exact absurd rfl hne
  | cons a rest ih =>
    obtain ⟨fuel, rfl⟩ : ∃ n, fuel = n + 1 := Nat.exists_eq_add_one.mpr (by
      rw [List.length_cons] at hfuel
      omega)
    rw [Printed.all, once_lineFormat p a rest hargs hstopped]
    cases rest with
    | nil => simp
    | cons b more =>
      obtain ⟨out, complaints, args, used, stopped⟩ := p
      obtain rfl : stopped = false := hstopped
      let next : Printed := ⟨out ++ (a ++ ['\n']), complaints, b :: more, true, false⟩
      refine (ih (List.cons_ne_nil b more) next rfl rfl (Nat.le_of_succ_le_succ hfuel)).trans ?_
      simp [next]

/-- The line format prints every argument and complains about none. -/
theorem printfText_lineFormat {lines : List Octets} (hne : lines ≠ []) :
    printfText lineFormat lines =
      ({ out := lines.flatMap (· ++ ['\n']), args := [], used := true }, none) := by
  rw [printfText, directives_lineFormat]
  exact all_lineFormat lines hne _ rfl rfl (Nat.le_succ _)

end Printing

section Scripts

/-- The state after a text has gone out. -/
def State.printed (s : State) (cs : Octets) : State := (write s.out cs s).2

theorem State.printed_out (s : State) (cs : Octets) : (s.printed cs).out = s.out := by
  rw [State.printed]
  cases h : s.out <;> exact h

theorem State.printed_err (s : State) (cs : Octets) : (s.printed cs).err = s.err := by
  rw [State.printed]
  cases h : s.out <;> rfl

theorem State.printed_due (s : State) (cs : Octets) : (s.printed cs).due = s.due := by
  rw [State.printed]
  cases h : s.out <;> rfl

theorem printArgs_lineFormat {lines : List Octets} (hne : lines ≠ []) (s : State) :
    printArgs (lineFormat :: lines) s =
      (.ok (), { s.printed (lines.flatMap (· ++ ['\n'])) with status := 0 }) := by
  have hargs : printArgs (lineFormat :: lines) = printByFormat (lineFormat :: lines) := rfl
  rw [hargs, printByFormat, printfText_lineFormat hne]
  rfl

/-- The work that a line of quoted texts needs. -/
def workFor (args : List Octets) : Nat :=
  args.length + (args.map fun a => (quotedWordOf a).length).sum

theorem length_le_workFor {args : List Octets} {a : Octets} (h : a ∈ args) :
    (quotedWordOf a).length + args.length ≤ workFor args := by
  have hle := List.le_sum_of_mem (List.mem_map_of_mem (f := fun a => (quotedWordOf a).length) h)
  rw [workFor]
  omega

theorem expandWords_workFor {args : List Octets} {fuel : Nat} (h : workFor args < fuel)
    (s : State) : expandWords fuel (args.map quotedWordOf) s = (.ok args, s) := by
  refine expandWords_quoted args ?_ (fun a ha => ?_) s
  · rw [workFor] at h
    omega
  · have hle := length_le_workFor ha
    omega

/-- The arguments of a command that prints lines. -/
def printing (lines : List Octets) : List Octets := "printf".toList :: lineFormat :: lines

theorem runNamed_printing {lines : List Octets} (hne : lines ≠ []) (fuel : Nat) {s : State}
    (h : s.functions.lookup "printf".toList = none) :
    runNamed (fuel + 2) [] "printf".toList (lineFormat :: lines) s =
      (.ok (), { s.printed (lines.flatMap (· ++ ['\n'])) with status := 0 }) := by
  have hspecial : specialBuiltins.contains (String.ofList "printf".toList) = false := by decide
  have hrunner : runners.contains (String.ofList "printf".toList) = false := by decide
  have hbuiltin : builtin (String.ofList "printf".toList) (lineFormat :: lines) s =
      (.ok true, { s.printed (lines.flatMap (· ++ ['\n'])) with status := 0 }) :=
    run_bind_ok (printArgs_lineFormat hne s)
  have hunnamed : runUnnamed (fuel + 1) [] "printf".toList (lineFormat :: lines) s =
      (.ok (), { s.printed (lines.flatMap (· ++ ['\n'])) with status := 0 }) := by
    rw [runUnnamed, hrunner]
    exact run_bind_ok hbuiltin
  rw [runNamed, hspecial]
  refine (run_get_bind _ s).trans ?_
  simp only [Bool.false_eq_true, if_false, h]
  exact hunnamed

theorem applyRedirections_none (fuel : Nat) (s : State) :
    applyRedirections (fuel + 1) [] s = (.ok true, s) := by
  rw [applyRedirections]
  · rfl
  · exact Nat.succ_ne_zero _

theorem assignAll_none (fuel : Nat) (s : State) : assignAll (fuel + 1) [] s = (.ok [], s) := by
  rw [assignAll]
  · rfl
  · exact Nat.succ_ne_zero _

theorem showCommand_quiet {s : State} (h : s.switches.trace = false) (sink : Sink)
    (assigned : List (Octets × Octets)) (args : List Octets) :
    showCommand sink assigned args s = (.ok (), s) := by
  rw [showCommand]
  refine (run_get_bind _ s).trans ?_
  rw [h]
  rfl

theorem runDue_none {s : State} (h : s.due = []) (fuel : Nat) :
    runDue (fuel + 1) s = (.ok (), s) := by
  rw [runDue]
  refine (run_get_bind _ s).trans ?_
  rw [h]
  rfl

/-- A quoted name and quoted arguments run what the name stands for, on these arguments. -/
theorem runSimple_quoted {name : Octets} {args : List Octets} {fuel : Nat}
    (hfuel : workFor (name :: args) < fuel + 1)
    (hspecial : specialBuiltins.contains (String.ofList name) = false)
    (hexec : name ≠ "exec".toList) {s t : State} (htrace : s.switches.trace = false)
    (hrun : runNamed (fuel + 1) [] name args { s with inner := 0 } = (.ok (), t))
    (hout : t.out = s.out) (herr : t.err = s.err) (hdue : t.due = []) :
    runSimple (fuel + 2) [] ((name :: args).map quotedWordOf) [] s = (.ok (), t) := by
  have hexec : (name == "exec".toList) = false := beq_eq_false_iff_ne.mpr hexec
  -- The state is given a name, so that the steps below do not carry all its fields.
  obtain ⟨u, hu⟩ : ∃ u : State, u = { s with inner := 0 } := ⟨_, rfl⟩
  have hsame : u.switches.trace = false ∧ t.out = u.out ∧ t.err = u.err := by
    subst hu
    exact ⟨htrace, hout, herr⟩
  obtain ⟨htrace, hout, herr⟩ := hsame
  rw [← hu] at hrun
  have hrestored : { t with out := u.out, err := u.err } = t := by rw [← hout, ← herr]
  rw [runSimple]
  refine (run_modify_bind _ _ s).trans ?_
  rw [← hu]
  refine (run_bind_ok (expandWords_workFor hfuel u)).trans ?_
  refine (run_get_bind _ u).trans ?_
  refine (run_bind_ok (applyRedirections_none fuel u)).trans ?_
  refine (run_bind_ok (assignAll_none fuel u)).trans ?_
  refine (run_bind_ok (showCommand_quiet htrace _ _ _)).trans ?_
  refine (run_bind_ok hrun).trans ?_
  rw [hexec, hspecial]
  refine (run_modify_bind _ _ t).trans ?_
  change runDue (fuel + 1) { t with out := u.out, err := u.err } = _
  rw [hrestored]
  exact runDue_none hdue fuel

theorem leaveIfFailed_ok {s : State} (h : s.status = 0) : leaveIfFailed s = (.ok (), s) := by
  rw [leaveIfFailed]
  refine (run_get_bind _ s).trans ?_
  rw [h, bne_self_eq_false, Bool.and_false]
  rfl

/-- A script of one quoted line runs what its first text stands for, on the other texts. -/
theorem runSource_quoteLine {name : Octets} {args : List Octets} {fuel : Nat}
    (hfuel : workFor (name :: args) < fuel + 1)
    (hspecial : specialBuiltins.contains (String.ofList name) = false)
    (hexec : name ≠ "exec".toList) {s t : State} (htrace : s.switches.trace = false)
    (hrun : runNamed (fuel + 1) [] name args { s with line := 1, inner := 0 } = (.ok (), t))
    (hout : t.out = s.out) (herr : t.err = s.err) (hdue : t.due = []) (hstatus : t.status = 0) :
    runSource (fuel + 7) (quoteLine (name :: args)) s = (.ok (), t) := by
  have hsimple : runCommand (fuel + 3) (.simple 1 [] ((name :: args).map quotedWordOf) []) s =
      (.ok (), t) := by
    have hrun : runSimple (fuel + 2) [] ((name :: args).map quotedWordOf) [] { s with line := 1 } =
        (.ok (), t) := runSimple_quoted hfuel hspecial hexec htrace hrun hout herr hdue
    rw [runCommand]
    refine (run_modify_bind _ _ s).trans ?_
    refine (run_bind_ok hrun).trans ?_
    exact leaveIfFailed_ok hstatus
  have hall : runAll (fuel + 4) [.simple 1 [] ((name :: args).map quotedWordOf) []] s =
      (.ok (), t) := by
    rw [runAll]
    refine (run_bind_ok hsimple).trans ?_
    rw [runAll]
    · rfl
    · exact Nat.succ_ne_zero _
  rw [runSource, runTokens, nextCommand_quoteLine]
  have hsequence : runCommand (fuel + 5)
      (.sequence [.simple 1 [] ((name :: args).map quotedWordOf) []]) s = (.ok (), t) := by
    rw [runCommand]
    exact hall
  refine (run_bind_ok hsequence).trans ?_
  rw [runTokens]
  rfl

/-- A script prints the lines that it quotes, whatever their characters. -/
theorem runSource_printing {lines : List Octets} (hne : lines ≠ []) {fuel : Nat}
    (hfuel : workFor (printing lines) < fuel + 2) {s : State}
    (h : s.functions.lookup "printf".toList = none) (hdue : s.due = [])
    (htrace : s.switches.trace = false) :
    runSource (fuel + 8) (quoteLine (printing lines)) s =
      (.ok (), { ({ s with line := 1, inner := 0 } : State).printed
        (lines.flatMap (· ++ ['\n'])) with status := 0 }) :=
  runSource_quoteLine hfuel (by decide) (by decide) htrace (runNamed_printing hne fuel h)
    (State.printed_out _ _) (State.printed_err _ _) ((State.printed_due _ _).trans hdue) rfl

end Scripts

end StyleAudit.Machine.Shell
