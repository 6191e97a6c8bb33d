import StyleAudit.Machine.Shell.Script
import StyleAudit.Proofs.Text

/-!
# Quoted lines of the shell

A text in single quotes is one word, whatever its characters, and quoted texts with blanks between
them are one simple command with these words. Newlines in the texts only move the number of the
line.
-/

namespace StyleAudit.Machine.Shell
set_option autoImplicit false

section Words

/-- A character between single quotes. A single quote itself is put outside, after a backslash. -/
def quoteChar (c : Char) : Octets := if c = '\x27' then "\x27\\\x27\x27".toList else [c]

/-- A text in single quotes. -/
def quote (cs : Octets) : Octets := '\x27' :: (cs.flatMap quoteChar ++ ['\x27'])

/-- The pieces of a quoted text, from the characters before it since the last single quote, last one
first. -/
def quotedPieces (run : Octets) : Octets → List Piece
  | [] => [.text true run.reverse]
  | c :: rest =>
    if c = '\x27' then .text true run.reverse :: .text true ['\x27'] :: quotedPieces [] rest
    else quotedPieces (c :: run) rest

def quotedWordOf (cs : Octets) : Word := quotedPieces [] cs

theorem wordPieces_apostrophe {run rest : Octets} (hrun : '\x27' ∉ run) (fuel : Nat) (stops : Bool)
    (done : List Piece) :
    wordPieces (fuel + 1) stops false [] done ('\x27' :: (run ++ '\x27' :: rest)) =
      wordPieces fuel stops false [] (.text true run :: done) rest := by
  have hkeep : ∀ c ∈ run, (c != '\x27') = true := fun c hc =>
    bne_iff_ne.mpr fun e => hrun (e ▸ hc)
  have hstop : Text.Stops (· != '\x27') ('\x27' :: rest) := by simp [Text.Stops]
  have htake := Text.takeWhile_run hkeep hstop
  have hdrop := Text.dropWhile_run hkeep hstop
  rw [wordPieces.eq_def]
  simp [htake, hdrop]

theorem wordPieces_escaped {c : Char} (hc : c ≠ '\n') (rest : Octets) (fuel : Nat) (stops : Bool)
    (done : List Piece) :
    wordPieces (fuel + 1) stops false [] done ('\\' :: c :: rest) =
      wordPieces fuel stops false [] (.text true [c] :: done) rest := by
  rw [wordPieces.eq_def]
  simp

theorem wordPieces_quote {run : Octets} (hrun : '\x27' ∉ run) (cs rest : Octets) {fuel : Nat}
    (hfuel : (run.reverse ++ (cs.flatMap quoteChar ++ '\x27' :: rest)).length < fuel)
    (stops : Bool) (done : List Piece) : ∃ left, rest.length < left ∧
      wordPieces fuel stops false [] done
          ('\x27' :: (run.reverse ++ (cs.flatMap quoteChar ++ '\x27' :: rest))) =
        wordPieces left stops false [] ((quotedPieces run cs).reverse ++ done) rest := by
  induction cs generalizing run fuel done with
  | nil =>
    obtain ⟨fuel, rfl⟩ : ∃ n, fuel = n + 1 := Nat.exists_eq_add_one.mpr (Nat.zero_lt_of_lt hfuel)
    refine ⟨fuel, ?_, wordPieces_apostrophe (by simpa using hrun) fuel stops done⟩
    simp only [List.length_append, List.length_cons, List.flatMap_nil, List.length_nil] at hfuel
    omega
  | cons c more ih =>
    by_cases hc : c = '\x27'
    · subst hc
      have hsplit : run.reverse ++ (('\x27' :: more).flatMap quoteChar ++ '\x27' :: rest) =
          run.reverse ++ '\x27' :: '\\' :: '\x27' ::
            '\x27' :: ([] ++ (more.flatMap quoteChar ++ '\x27' :: rest)) := by
        simp [quoteChar]
      rw [hsplit] at hfuel ⊢
      obtain ⟨fuel, rfl⟩ : ∃ n, fuel = n + 2 := Nat.exists_eq_add_of_le' (by
        simp only [List.length_append, List.length_cons] at hfuel
        omega)
      have hshort : ([].reverse ++ (more.flatMap quoteChar ++ '\x27' :: rest)).length < fuel := by
        simp only [List.length_append, List.length_cons, List.reverse_nil] at hfuel ⊢
        omega
      obtain ⟨left, hleft, hrest⟩ := ih List.not_mem_nil hshort
        (.text true ['\x27'] :: .text true run.reverse :: done)
      refine ⟨left, hleft, ?_⟩
      rw [wordPieces_apostrophe (by simpa using hrun), wordPieces_escaped (by decide)]
      refine hrest.trans ?_
      rw [quotedPieces, if_pos rfl]
      simp
    · have hsplit : run.reverse ++ ((c :: more).flatMap quoteChar ++ '\x27' :: rest) =
          (c :: run).reverse ++ (more.flatMap quoteChar ++ '\x27' :: rest) := by
        simp [quoteChar, hc]
      rw [hsplit] at hfuel ⊢
      obtain ⟨left, hleft, hrest⟩ := ih (by simp [hrun, Ne.symm hc]) hfuel done
      refine ⟨left, hleft, ?_⟩
      rw [hrest, quotedPieces, if_neg hc]

/-- A word ends here. -/
def EndsWord (rest : Octets) : Prop := ∀ c ∈ rest.head?, isMeta c = true

theorem wordPieces_end {rest : Octets} (h : EndsWord rest) (fuel : Nat) (done : List Piece) :
    wordPieces (fuel + 1) true false [] done rest = .ok (done.reverse, rest) := by
  cases rest with
  | nil =>
    rw [wordPieces.eq_def]
    rfl
  | cons c more =>
    have hmeta : isMeta c = true := h c rfl
    have hother : c ≠ '"' ∧ c ≠ '$' ∧ c ≠ '\x60' ∧ c ≠ '\\' ∧ c ≠ '\x27' := by
      refine ⟨?_, ?_, ?_, ?_, ?_⟩ <;> rintro rfl <;> cases hmeta
    obtain ⟨hdouble, hdollar, hback, hslash, hsingle⟩ := hother
    rw [wordPieces.eq_def]
    simp [hdouble, hdollar, hback, hslash, hsingle, hmeta]

theorem wordOf_quote (cs : Octets) {rest : Octets} (h : EndsWord rest) :
    wordOf (quote cs ++ rest) = .ok (quotedWordOf cs, rest) := by
  have hsplit : quote cs ++ rest =
      '\x27' :: ([].reverse ++ (cs.flatMap quoteChar ++ '\x27' :: rest)) := by
    simp [quote]
  obtain ⟨left, hleft, hrun⟩ := wordPieces_quote List.not_mem_nil cs rest
    (Nat.lt_of_lt_of_le (Nat.lt_succ_self _) (Nat.le_succ _)) true []
  obtain ⟨left, rfl⟩ : ∃ n, left = n + 1 := Nat.exists_eq_add_one.mpr (Nat.zero_lt_of_lt hleft)
  rw [wordOf, hsplit]
  refine hrun.trans ?_
  rw [wordPieces_end h, List.append_nil, List.reverse_reverse]
  rfl

end Words

section Tokens

/-- Quoted texts with blanks between them. -/
def quoteLine : List Octets → Octets
  | [] => []
  | [a] => quote a
  | a :: b :: rest => quote a ++ ' ' :: quoteLine (b :: rest)

/-- The tokens of quoted texts, from a line on. -/
def quotedTokens : Nat → List Octets → List Token
  | _, [] => []
  | line, a :: rest => .word line (quotedWordOf a) :: quotedTokens (line + newlinesIn a) rest

theorem newlinesIn_quote (cs : Octets) : newlinesIn (quote cs) = newlinesIn cs := by
  have hbody : newlinesIn (cs.flatMap quoteChar) = newlinesIn cs := by
    induction cs with
    | nil => rfl
    | cons c rest ih =>
      have hchar : (quoteChar c).count '\n' = [c].count '\n' := by
        rw [quoteChar]
        split
        · next hc =>
          subst hc
          decide
        · rfl
      rw [newlinesIn] at ih ⊢
      rw [List.flatMap_cons, List.count_append, ih, hchar, newlinesIn, ← List.count_append]
      rfl
  rw [newlinesIn] at hbody ⊢
  rw [quote, List.count_cons, List.count_append, hbody]
  rfl

theorem operatorAt_apostrophe (more : Octets) : operatorAt ('\x27' :: more) = none := by
  have hall : operators.all (fun o => !o.isPrefixOf ['\x27'] && o.head? != some '\x27') = true :=
    rfl
  rw [operatorAt, List.find?_eq_none]
  intro o ho hstart
  have hone := List.all_eq_true.mp hall o ho
  cases o with
  | nil => cases hone
  | cons d ds =>
    rw [List.isPrefixOf_cons_cons, Bool.and_eq_true, beq_iff_eq] at hstart
    rw [hstart.1] at hone
    simp at hone

theorem tokensFrom_quote (cs : Octets) {rest : Octets} (h : EndsWord rest) (fuel line : Nat)
    (done : List Token) : tokensFrom (fuel + 1) line [] done (quote cs ++ rest) =
      tokensFrom fuel (line + newlinesIn cs) [] (.word line (quotedWordOf cs) :: done) rest := by
  have hused : newlinesIn ((quote cs ++ rest).take ((quote cs ++ rest).length - rest.length)) =
      newlinesIn cs := by
    rw [List.length_append, Nat.add_sub_cancel, List.take_left, newlinesIn_quote]
  have hword := wordOf_quote cs h
  obtain ⟨more, hmore⟩ : ∃ more, quote cs ++ rest = '\x27' :: more := ⟨_, rfl⟩
  have hdigits : ('\x27' :: more).takeWhile Char.isDigit = [] := rfl
  rw [hmore] at hused hword ⊢
  rw [tokensFrom.eq_def]
  simp only [hdigits, hword, operatorAt_apostrophe, hused]
  rfl

theorem tokensFrom_blank (fuel line : Nat) (done : List Token) (rest : Octets) :
    tokensFrom (fuel + 1) line [] done (' ' :: rest) = tokensFrom fuel line [] done rest := by
  rw [tokensFrom.eq_def]
  rfl

theorem tokensFrom_nil (fuel line : Nat) (done : List Token) :
    tokensFrom fuel line [] done [] = done.reverse := by
  cases fuel <;> rfl

theorem tokensFrom_quoteLine (args : List Octets) (line : Nat) (done : List Token) {fuel : Nat}
    (hfuel : (quoteLine args).length < fuel) :
    tokensFrom fuel line [] done (quoteLine args) = done.reverse ++ quotedTokens line args := by
  induction args generalizing line done fuel with
  | nil => rw [quoteLine, tokensFrom_nil, quotedTokens, List.append_nil]
  | cons a rest ih =>
    obtain ⟨fuel, rfl⟩ : ∃ n, fuel = n + 1 := Nat.exists_eq_add_one.mpr (Nat.zero_lt_of_lt hfuel)
    cases rest with
    | nil =>
      have hend : EndsWord [] := by simp [EndsWord]
      have hword := tokensFrom_quote a hend fuel line done
      rw [List.append_nil] at hword
      rw [quoteLine, hword, tokensFrom_nil, quotedTokens, quotedTokens, List.reverse_cons]
    | cons b rest =>
      have hquote : 0 < (quote a).length := Nat.succ_pos _
      rw [quoteLine, List.length_append, List.length_cons] at hfuel
      obtain ⟨fuel, rfl⟩ : ∃ n, fuel = n + 1 := Nat.exists_eq_add_one.mpr (by omega)
      have hblank : EndsWord (' ' :: quoteLine (b :: rest)) := by
        rintro _ ⟨⟩
        rfl
      rw [quoteLine, tokensFrom_quote a hblank, tokensFrom_blank, ih _ _ (by omega), quotedTokens,
        List.reverse_cons, List.append_assoc]
      rfl

/-- A line of quoted texts is cut into one word for each. -/
theorem tokens_quoteLine (args : List Octets) : tokens (quoteLine args) = quotedTokens 1 args :=
  tokensFrom_quoteLine args 1 [] (Nat.lt_succ_self _)

end Tokens

section Commands

theorem exists_quotedPieces (run cs : Octets) :
    ∃ first more, quotedPieces run cs = .text true first :: more := by
  induction cs generalizing run with
  | nil => exact ⟨_, _, rfl⟩
  | cons c rest ih =>
    rw [quotedPieces]
    split
    · exact ⟨_, _, rfl⟩
    · exact ih (c :: run)

theorem plain?_quoted (line : Nat) (cs : Octets) :
    (Token.word line (quotedWordOf cs)).plain? = none := by
  obtain ⟨first, more, hpieces⟩ := exists_quotedPieces [] cs
  rw [quotedWordOf, hpieces]
  cases more <;> rfl

theorem assignment?_quoted (cs : Octets) : assignment? (quotedWordOf cs) = none := by
  obtain ⟨first, more, hpieces⟩ := exists_quotedPieces [] cs
  rw [quotedWordOf, hpieces]
  rfl

theorem simpleFrom_quoted (args : List Octets) (line l : Nat) (words : List Word) :
    simpleFrom line { words } (quotedTokens l args) =
      .ok (.simple line [] (words ++ args.map quotedWordOf) [], []) := by
  induction args generalizing l words with
  | nil =>
    rw [quotedTokens, List.map_nil, List.append_nil]
    rfl
  | cons a rest ih =>
    rw [quotedTokens, simpleFrom.eq_def]
    simp only [assignment?_quoted]
    have hrest := ih (l + newlinesIn a) (words ++ [quotedWordOf a])
    rw [List.append_assoc] at hrest
    cases words <;> exact hrest

theorem command_quoted (fuel l : Nat) (a : Octets) (args : List Octets) :
    command (fuel + 1) l (quotedTokens l (a :: args)) =
      .ok (.simple l [] ((a :: args).map quotedWordOf) [], []) := by
  have hsimple := simpleFrom_quoted (a :: args) l l []
  rw [quotedTokens] at hsimple ⊢
  rw [command.eq_def]
  simp only [plain?_quoted, Token.line, Nat.max_self]
  exact hsimple

theorem andOr_quoted (fuel l : Nat) (a : Octets) (args : List Octets) :
    andOr (fuel + 3) l (quotedTokens l (a :: args)) =
      .ok (.simple l [] ((a :: args).map quotedWordOf) [], []) := by
  have hcommand := command_quoted fuel l a args
  have hplain : ((quotedTokens l (a :: args)).head?.bind Token.plain?) = none := plain?_quoted l a
  have hpipe : pipe (fuel + 2) l (quotedTokens l (a :: args)) =
      .ok (.simple l [] ((a :: args).map quotedWordOf) [], []) := by
    rw [pipe, hplain]
    change (command (fuel + 1) l (quotedTokens l (a :: args))).bind _ = _
    rw [hcommand]
    change (pipeFrom (fuel + 1) l []).bind _ = _
    rw [pipeFrom]
    rfl
  rw [andOr, hpipe]
  change andOrFrom (fuel + 2) l _ [] = _
  rw [andOrFrom]

/-- A line of quoted texts is one simple command. -/
theorem nextCommand_quoteLine (a : Octets) (args : List Octets) :
    nextCommand 1 (tokens (quoteLine (a :: args))) =
      .ok (some (.sequence [.simple 1 [] ((a :: args).map quotedWordOf) []], [])) := by
  have handOr := andOr_quoted (4 * (quotedTokens 1 (a :: args)).length + 5) 1 a args
  rw [tokens_quoteLine]
  rw [quotedTokens] at handOr ⊢
  rw [nextCommand]
  change (lineFrom _ _ [] _).map some = _
  rw [lineFrom]
  change ((andOr _ 1 _).bind _).map some = _
  rw [handOr]
  rfl

end Commands

end StyleAudit.Machine.Shell
