import StyleAudit.Yaml.Token
import StyleAudit.Proofs.YamlScalars

/-!
# Tokens of flow collections

A line of brackets, braces, commas, quoted scalars and keys with their colons is cut into the tokens
of these lexemes, whatever the spaces between them. What is kept from lexeme to lexeme is that no
block collection is open and that nothing that was read is bound to become a key.
-/

namespace StyleAudit.Yaml
set_option autoImplicit false

section Tokens
variable {α : Type} {t : Tokenizer} {rest : List Char} {made : List Token} {depth : Nat}
  {allowed : Bool}

theorem scan_ok {read : Scan α} {a : α} {c : Cursor} (h : read t.cursor = .ok (a, c)) :
    scan read t = .ok (a, { t with cursor := c }) := by
  rw [scan]
  refine (get_bind _ _).trans ?_
  rw [h]
  rfl

theorem inFlow_eq (t : Tokenizer) : inFlow t = .ok (!t.outer.isEmpty, t) := rfl

/-- A tokenizer inside a text of one line that has made some tokens. No block collection is open,
and nothing that was read has to become a key. -/
structure Ready (rest : List Char) (made : List Token) (depth : Nat) (allowed : Bool)
    (t : Tokenizer) : Prop where
  rest : t.cursor.rest = rest
  tokens : t.tokens = made
  depth : t.outer.length = depth
  allowed : t.keyAllowed = allowed
  indents : t.indents = []
  candidate : ∀ k ∈ t.candidate, k.required = false
  outer : ∀ o ∈ t.outer, ∀ k ∈ o, k.required = false

theorem closeBlocks_eq (h : t.indents = []) (column : Option Nat) :
    closeBlocks column t = .ok ((), t) := by
  obtain ⟨cursor, indents, keyAllowed, candidate, outer, tokens⟩ := t
  obtain rfl : indents = [] := h
  rw [closeBlocks, bind_ok (inFlow_eq _)]
  cases outer <;> rfl

theorem dropCandidate_eq (h : ∀ k ∈ t.candidate, k.required = false) :
    dropCandidate t = .ok ((), { t with candidate := none }) := by
  rw [dropCandidate]
  refine (get_bind _ _).trans ?_
  have hfree : (t.candidate.map Candidate.required).getD false = false := by
    cases hk : t.candidate with
    | none => rfl
    | some k => exact h k hk
  rw [hfree]
  rfl

/-- The candidate for what starts at the cursor. -/
def Tokenizer.newCandidate (t : Tokenizer) : Option Candidate :=
  if t.keyAllowed then
    some ⟨t.tokens.length, false, t.cursor.line, t.cursor.index, t.cursor.column⟩
  else t.candidate

theorem addCandidate_eq (h : Ready rest made depth allowed t) :
    addCandidate t = .ok ((), { t with candidate := t.newCandidate }) := by
  rw [addCandidate, Tokenizer.newCandidate]
  refine (get_bind _ _).trans ?_
  cases hallowed : t.keyAllowed with
  | false =>
    simp only [Bool.false_eq_true, if_false]
    rw [← hallowed]
    rfl
  | true =>
    simp only [if_true]
    refine (bind_ok (dropCandidate_eq h.candidate)).trans ?_
    have hfree : (t.outer.isEmpty && t.indents.head? == some t.cursor.column) = false := by
      rw [h.indents]
      exact Bool.and_false _
    rw [hfree, ← hallowed]
    rfl

theorem newCandidate_required (h : Ready rest made depth allowed t) :
    ∀ k ∈ t.newCandidate, k.required = false := by
  rw [Tokenizer.newCandidate]
  split
  · rintro _ ⟨⟩
    rfl
  · exact h.candidate

theorem pass_emit (token : Token) {d : Char} (h : t.cursor.rest = d :: rest) :
    (scan skip >>= fun _ => emit token) t =
      .ok ((), { t with cursor := t.cursor.past 1 rest, tokens := token :: t.tokens }) :=
  bind_ok (scan_ok (skip_cons h))

theorem scan_emit {read : Scan Token} {token : Token} {c : Cursor}
    (h : read t.cursor = .ok (token, c)) : (scan read >>= fun token => emit token) t =
      .ok ((), { t with cursor := c, tokens := token :: t.tokens }) :=
  bind_ok (scan_ok h)

theorem flowStart_ready {d : Char} (h : Ready (d :: rest) made depth allowed t) (token : Token) :
    ∃ t', flowStart token t = .ok ((), t') ∧ Ready rest (token :: made) (depth + 1) true t' := by
  refine ⟨{ t with
    cursor := t.cursor.past 1 rest, candidate := none, outer := t.newCandidate :: t.outer,
    keyAllowed := true, tokens := token :: t.tokens }, ?_, ?_⟩
  · rw [flowStart, bind_ok (addCandidate_eq h), modify_bind, allowKey,
      modify_bind]
    exact pass_emit _ h.rest
  · refine ⟨rfl, congrArg _ h.tokens, congrArg (· + 1) h.depth, rfl, h.indents, nofun, ?_⟩
    intro o ho
    rcases List.mem_cons.mp ho with rfl | ho
    · exact newCandidate_required h
    · exact h.outer o ho

theorem flowEnd_ready {d : Char} (h : Ready (d :: rest) made depth allowed t) (token : Token) :
    ∃ t', flowEnd token t = .ok ((), t') ∧ Ready rest (token :: made) (depth - 1) false t' := by
  refine ⟨{ t with
    cursor := t.cursor.past 1 rest, candidate := t.outer.head?.getD none, outer := t.outer.tail,
    keyAllowed := false, tokens := token :: t.tokens }, ?_, ?_⟩
  · obtain ⟨cursor, indents, keyAllowed, candidate, outer, tokens⟩ := t
    rw [flowEnd, bind_ok (dropCandidate_eq h.candidate), modify_bind, allowKey,
      modify_bind]
    cases outer with
    | nil => exact pass_emit _ h.rest
    | cons o outer => exact pass_emit _ h.rest
  · refine ⟨rfl, congrArg _ h.tokens, ?_, rfl, h.indents, ?_, ?_⟩
    · rw [List.length_tail, h.depth]
    · intro k hk
      cases houter : t.outer with
      | nil =>
        rw [houter] at hk
        cases hk
      | cons o outer =>
        rw [houter] at hk
        exact h.outer o (houter ▸ List.mem_cons_self) k hk
    · exact fun o ho => h.outer o (List.mem_of_mem_tail ho)

theorem flowComma_ready {d : Char} (h : Ready (d :: rest) made depth allowed t) :
    ∃ t', flowComma t = .ok ((), t') ∧ Ready rest (.comma :: made) depth true t' := by
  refine ⟨{ t with
    cursor := t.cursor.past 1 rest, candidate := none, keyAllowed := true,
    tokens := .comma :: t.tokens }, ?_, ?_⟩
  · rw [flowComma, bind_ok (dropCandidate_eq h.candidate), allowKey, modify_bind]
    exact pass_emit _ h.rest
  · exact ⟨rfl, congrArg _ h.tokens, h.depth, rfl, h.indents, nofun, h.outer⟩

/-- What was read last would become a key if a colon came now. -/
def CouldBeKey (made : List Token) (t : Tokenizer) : Prop :=
  ∃ k, t.candidate = some k ∧ k.place = made.length ∧ k.line = t.cursor.line ∧
    t.cursor.index ≤ k.index + 1024

theorem quoted_ready {cs text : List Char} (hbody : Body cs text)
    (h : Ready ('"' :: (cs ++ '"' :: rest)) made depth allowed t) :
    ∃ t', nodeToken (do return .scalar false (← quoted false)) t = .ok ((), t') ∧
      Ready rest (.scalar false (String.ofList text) :: made) depth false t' ∧
      (allowed = true → cs.length + 2 ≤ 1024 → CouldBeKey made t') := by
  refine ⟨{ t with
    cursor := t.cursor.past (cs.length + 2) rest, candidate := t.newCandidate, keyAllowed := false,
    tokens := .scalar false (String.ofList text) :: t.tokens }, ?_, ?_, ?_⟩
  · have hread : (do return .scalar false (← quoted false) : Scan Token) t.cursor =
        .ok (.scalar false (String.ofList text), t.cursor.past (cs.length + 2) rest) :=
      bind_ok (quoted_body hbody rest h.rest)
    rw [nodeToken, bind_ok (addCandidate_eq h), allowKey, modify_bind]
    exact scan_emit hread
  · exact ⟨rfl, congrArg _ h.tokens, h.depth, rfl, h.indents, newCandidate_required h, h.outer⟩
  · intro hallowed hshort
    refine ⟨⟨t.tokens.length, false, t.cursor.line, t.cursor.index, t.cursor.column⟩, ?_, ?_, rfl,
      Nat.add_le_add_left hshort _⟩
    · exact if_pos (h.allowed.trans hallowed)
    · exact congrArg List.length h.tokens

theorem mappingValue_ready {token : Token}
    (h : Ready (':' :: rest) (token :: made) (depth + 1) allowed t) {k : Candidate}
    (hk : t.candidate = some k) (hplace : k.place = made.length) :
    ∃ t', mappingValue t = .ok ((), t') ∧
      Ready rest (.value :: token :: .key :: made) (depth + 1) false t' := by
  have hflow : t.outer.isEmpty = false := by
    cases houter : t.outer with
    | nil =>
      have hdepth := h.depth
      rw [houter] at hdepth
      cases hdepth
    | cons o outer => rfl
  refine ⟨{ t with
    cursor := t.cursor.past 1 rest, candidate := none, keyAllowed := false,
    tokens := .value :: token :: .key :: made }, ?_, ?_⟩
  · have hemit : emitAt k.place .key t = .ok ((), { t with tokens := token :: .key :: made }) := by
      have hlater : (token :: made).length - k.place = 1 := by
        rw [hplace, List.length_cons, Nat.add_sub_cancel_left]
      obtain ⟨cursor, indents, keyAllowed, candidate, outer, tokens⟩ := t
      obtain rfl : tokens = token :: made := h.tokens
      change Except.ok ((), (_ : Tokenizer)) = _
      simp only [hlater]
      rfl
    have hopen : openBlock k.column k.place .blockMapping
        { t with tokens := token :: .key :: made } =
          .ok ((), { t with tokens := token :: .key :: made }) := by
      rw [openBlock, bind_ok (inFlow_eq _)]
      simp only [hflow]
      rfl
    rw [mappingValue]
    refine (get_bind _ _).trans ?_
    rw [hk]
    refine (bind_ok hemit).trans ?_
    refine (bind_ok hopen).trans ?_
    refine (modify_bind _ _ _).trans ?_
    refine (modify_bind _ _ _).trans ?_
    exact pass_emit _ h.rest
  · exact ⟨rfl, rfl, h.depth, rfl, h.indents, nofun, h.outer⟩

/-- The characters that lexemes start with. -/
def starters : List Char := "[]\x7b\x7d,:\"".toList

/-- A lexeme starts here, or the text ends. -/
def Settled (rest : List Char) : Prop := ∀ d ∈ rest.head?, d ∈ starters

theorem starter_other {d : Char} (hd : d ∈ starters) : d ≠ ' ' ∧ d ≠ '\t' ∧ d ≠ '\ufeff' ∧ d ≠ '#' ∧
    d ≠ '%' ∧ d ≠ '-' ∧ d ≠ '.' ∧ isBreak d = false := by
  have hall : starters.all (fun d => d != ' ' && d != '\t' && d != '\ufeff' && d != '#' &&
    d != '%' && d != '-' && d != '.' && !isBreak d) = true := rfl
  have hone := List.all_eq_true.mp hall d hd
  simp only [Bool.and_eq_true, bne_iff_ne, Bool.not_eq_true'] at hone
  obtain ⟨⟨⟨⟨⟨⟨⟨hspace, htab⟩, hmark⟩, hhash⟩, hpercent⟩, hminus⟩, hpoint⟩, hbreak⟩ := hone
  exact ⟨hspace, htab, hmark, hhash, hpercent, hminus, hpoint, hbreak⟩

/-- The tokenizer after spaces, with the candidates that are not too far behind. -/
def Tokenizer.past (t : Tokenizer) (n : Nat) (rest : List Char) : Tokenizer :=
  let c := t.cursor.past n rest
  { t with cursor := c
           candidate := t.candidate.filter fun k => !k.isStale c
           outer := t.outer.map fun o => o.filter fun k => !k.isStale c }

theorem freshen_eq (c : Cursor) {o : Option Candidate} (h : ∀ k ∈ o, k.required = false) :
    freshen c o = .ok (o.filter fun k => !k.isStale c) := by
  cases o with
  | none => rfl
  | some k =>
    rw [freshen, h k rfl, Option.filter]
    cases k.isStale c <;> rfl

theorem mapM_freshen (c : Cursor) {os : List (Option Candidate)}
    (h : ∀ o ∈ os, ∀ k ∈ o, k.required = false) :
    os.mapM (freshen c) = .ok (os.map fun o => o.filter fun k => !k.isStale c) := by
  induction os with
  | nil => rfl
  | cons o more ih =>
    rw [List.mapM_cons, freshen_eq c (h o List.mem_cons_self),
      ih fun o ho => h o (List.mem_cons_of_mem _ ho)]
    rfl

theorem freshenAll_eq (h : Ready rest made depth allowed t) :
    freshenAll t = .ok ((), t.past 0 t.cursor.rest) := by
  rw [freshenAll]
  refine (get_bind _ _).trans ?_
  simp only [freshen_eq t.cursor h.candidate, mapM_freshen t.cursor h.outer]
  rfl

theorem Settled.ne {rest : List Char} (h : Settled rest) {d : Char} (hd : d ∉ starters) :
    (rest.head? == some d) = false := by
  rw [beq_eq_false_iff_ne]
  exact fun e => hd (h d e)

theorem skipComment_settled {c : Cursor} (h : Settled c.rest) : skipComment c = .ok ((), c) := by
  rw [skipComment, bind_ok (isNext_eq '#' c), h.ne (by decide)]
  rfl

theorem isNext_mark {n : Nat} (h : Settled rest) {c : Cursor}
    (hc : c.rest = List.replicate n ' ' ++ rest) : isNext '\ufeff' c = .ok (false, c) := by
  rw [isNext_eq, hc]
  cases n with
  | zero => rw [List.replicate_zero, List.nil_append, h.ne (by decide)]
  | succ n => rfl

theorem takeWhile_spaces (tabs : Bool) {n : Nat} (h : Settled rest) {c : Cursor}
    (hc : c.rest = List.replicate n ' ' ++ rest) :
    takeWhile (fun c => c == ' ' || (tabs && c == '\t')) c =
      .ok (List.replicate n ' ', c.past n rest) := by
  have hrun : ∀ e ∈ List.replicate n ' ', (e == ' ' || (tabs && e == '\t')) = true := by
    intro e he
    rw [List.eq_of_mem_replicate he]
    rfl
  have hstop : Text.Stops (fun c => c == ' ' || (tabs && c == '\t')) rest := by
    intro d hd
    obtain ⟨hspace, htab, -⟩ := starter_other (h d hd)
    change (d == ' ' || (tabs && d == '\t')) = false
    rw [beq_eq_false_iff_ne.mpr hspace, beq_eq_false_iff_ne.mpr htab, Bool.and_false]
    rfl
  have htake := takeWhile_eq _ hrun hstop hc
  rwa [List.length_replicate] at htake

theorem nextIs_settled {c : Cursor} (h : Settled c.rest) : nextIs isBreak c = .ok (false, c) := by
  cases hc : c.rest with
  | nil =>
    change Except.ok ((c.rest[0]?.map isBreak).getD false, c) = _
    rw [hc]
    rfl
  | cons d more =>
    have hd : d ∈ starters := h d (by rw [hc]; rfl)
    rw [nextIs_cons _ hc, (starter_other hd).2.2.2.2.2.2.2]

theorem skipToToken_spaces {n : Nat} (hrest : Settled rest)
    (h : Ready (List.replicate n ' ' ++ rest) made depth allowed t) (fuel : Nat) :
    skipToToken (fuel + 1) t = .ok ((), { t with cursor := t.cursor.past n rest }) := by
  rw [skipToToken]
  refine (get_bind _ _).trans ?_
  have hskip : (do
      if (← get).column == 0 && (← isNext '\ufeff') then skip
      let _ ← takeWhile fun c => c == ' ' || ((!t.outer.isEmpty || !t.keyAllowed) && c == '\t')
      skipComment : Scan Unit) t.cursor = .ok ((), t.cursor.past n rest) := by
    refine (get_bind _ _).trans ?_
    refine (bind_ok (isNext_mark hrest h.rest)).trans ?_
    rw [Bool.and_false]
    refine (bind_ok (takeWhile_spaces _ hrest h.rest)).trans ?_
    exact skipComment_settled hrest
  refine (bind_ok (scan_ok hskip)).trans ?_
  exact bind_ok (scan_ok (nextIs_settled hrest))

theorem Ready.past {n : Nat} (h : Ready (List.replicate n ' ' ++ rest) made depth allowed t) :
    Ready rest made depth allowed (t.past n rest) := by
  refine ⟨rfl, h.tokens, ?_, h.allowed, h.indents, ?_, ?_⟩
  · rw [← h.depth]
    exact List.length_map _
  · exact fun k hk => h.candidate k (Option.mem_filter_iff.mp hk).1
  · intro o ho k hk
    obtain ⟨before, hbefore, rfl⟩ := List.mem_map.mp ho
    exact h.outer before hbefore k (Option.mem_filter_iff.mp hk).1

/-- One round of the tokenizer passes over spaces and comes to the next lexeme. -/
theorem tokenizeRest_lexeme {n : Nat} {d : Char} (hd : d ∈ starters)
    (h : Ready (List.replicate n ' ' ++ d :: rest) made depth allowed t) (fuel : Nat) :
    tokenizeRest (fuel + 1) t =
      (tokenFrom d >>= fun _ => tokenizeRest fuel) (t.past n (d :: rest)) := by
  have hrest : Settled (d :: rest) := by
    rintro _ ⟨⟩
    exact hd
  obtain ⟨-, -, -, -, hpercent, hminus, hpoint, -⟩ := starter_other hd
  rw [tokenizeRest]
  refine (bind_ok (scan_ok rfl)).trans ?_
  refine (bind_ok (skipToToken_spaces hrest h _)).trans ?_
  have hfresh : freshenAll { t with cursor := t.cursor.past n (d :: rest) } =
      .ok ((), t.past n (d :: rest)) :=
    freshenAll_eq ⟨rfl, h.tokens, h.depth, h.allowed, h.indents, h.candidate, h.outer⟩
  refine (bind_ok hfresh).trans ?_
  refine (get_bind _ _).trans ?_
  refine (bind_ok (closeBlocks_eq h.past.indents _)).trans ?_
  refine (bind_ok (scan_ok (peek_cons h.past.rest))).trans ?_
  refine (get_bind _ _).trans ?_
  rw [beq_eq_false_iff_ne.mpr hpercent, Bool.false_and]
  have hmark : ∀ e, d ≠ e → scan (atMark e) (t.past n (d :: rest)) =
      .ok (false, t.past n (d :: rest)) := fun e he =>
    scan_ok (atMark_other (.inr fun hsome => he (Option.some.inj hsome)))
  refine (bind_ok (hmark '-' hminus)).trans ?_
  exact bind_ok (hmark '.' hpoint)

theorem tokenizeRest_step {n : Nat} {d : Char} (hd : d ∈ starters)
    (h : Ready (List.replicate n ' ' ++ d :: rest) made depth allowed t) {next : Tokenizer}
    (hnext : tokenFrom d (t.past n (d :: rest)) = .ok ((), next)) (fuel : Nat) :
    tokenizeRest (fuel + 1) t = tokenizeRest fuel next := by
  rw [tokenizeRest_lexeme hd h, bind_ok hnext]

/-- What the first character of a lexeme starts. -/
theorem tokenFrom_eq {d : Char} {read : Tokenize Unit}
    (h : tokenFrom d = do
      let _ ← inFlow
      let _ ← scan (blankAt 1)
      read) (t : Tokenizer) : tokenFrom d t = read t := by
  rw [h, bind_ok (inFlow_eq t)]
  exact bind_ok (scan_ok (blankAt_eq 1 t.cursor))

theorem tokenFrom_colon {t : Tokenizer} (h : t.outer.isEmpty = false) :
    tokenFrom ':' t = mappingValue t := by
  rw [tokenFrom, bind_ok (inFlow_eq t)]
  refine (bind_ok (scan_ok (blankAt_eq 1 t.cursor))).trans ?_
  refine (bind_ok (scan_ok (blankAt_eq 1 t.cursor))).trans ?_
  simp only [h]
  rfl

/-- A body with the text that it is read as. -/
structure Quoted where
  body : List Char
  text : List Char
  reads : Body body text
  allowed : ∀ c ∈ body, isAllowed c = true

/-- The lexemes of flow collections on one line. A key comes with its colon. -/
inductive Lexeme where
  | start (mapping : Bool)
  | stop (mapping : Bool)
  | comma
  | scalar (q : Quoted)
  | key (q : Quoted)

namespace Lexeme

def chars : Lexeme → List Char
  | .start mapping => if mapping then ['{'] else ['[']
  | .stop mapping => if mapping then ['}'] else [']']
  | .comma => [',']
  | .scalar q => '"' :: (q.body ++ ['"'])
  | .key q => '"' :: (q.body ++ ['"', ':'])

def tokens : Lexeme → List Token
  | .start mapping => if mapping then [.flowMapping] else [.flowSequence]
  | .stop mapping => if mapping then [.flowMappingEnd] else [.flowSequenceEnd]
  | .comma => [.comma]
  | .scalar q => [.scalar false (String.ofList q.text)]
  | .key q => [.key, .scalar false (String.ofList q.text), .value]

/-- The number of open collections after a lexeme. -/
def depthAfter (depth : Nat) : Lexeme → Nat
  | .start _ => depth + 1
  | .stop _ => depth - 1
  | _ => depth

/-- A key may come next. -/
def allowsKey : Lexeme → Bool
  | .start _ => true
  | .comma => true
  | _ => false

/-- A key must stand in a collection, where one may come, and must not be too long. -/
def Fits (depth : Nat) (allowed : Bool) : Lexeme → Prop
  | .key q => 0 < depth ∧ allowed = true ∧ q.body.length + 2 ≤ 1024
  | _ => True

/-- The rounds of the tokenizer that a lexeme takes. -/
def rounds : Lexeme → Nat
  | .key _ => 2
  | _ => 1

end Lexeme

theorem key_step {q : Quoted} {n : Nat} (hdepth : 0 < depth) (hshort : q.body.length + 2 ≤ 1024)
    (h : Ready (List.replicate n ' ' ++ '"' :: (q.body ++ '"' :: ':' :: rest)) made depth true t)
    (fuel : Nat) : ∃ t', tokenizeRest (fuel + 2) t = tokenizeRest fuel t' ∧
      Ready rest (.value :: .scalar false (String.ofList q.text) :: .key :: made) depth false
        t' := by
  obtain ⟨mid, hmid, hready, hkey⟩ := quoted_ready q.reads h.past
  obtain ⟨k, hk, hplace, hline, hindex⟩ := hkey rfl hshort
  obtain ⟨depth, rfl⟩ : ∃ d, depth = d + 1 := Nat.exists_eq_add_one.mpr hdepth
  have hcolon : Ready (List.replicate 0 ' ' ++ ':' :: rest)
      (.scalar false (String.ofList q.text) :: made) (depth + 1) false mid := hready
  have hcandidate : (mid.past 0 (':' :: rest)).candidate = some k := by
    have hfresh : k.isStale (mid.cursor.past 0 (':' :: rest)) = false := by
      rw [Candidate.isStale, Cursor.past, hline]
      simp only [Nat.lt_irrefl, Nat.add_zero, decide_false, Bool.false_or, decide_eq_false_iff_not]
      omega
    change mid.candidate.filter _ = _
    rw [hk]
    simp [hfresh]
  have hflow : (mid.past 0 (':' :: rest)).outer.isEmpty = false := by
    have hlength := hcolon.past.depth
    cases houter : (mid.past 0 (':' :: rest)).outer with
    | nil =>
      rw [houter] at hlength
      cases hlength
    | cons o outer => rfl
  obtain ⟨last, hlast, hdone⟩ := mappingValue_ready hcolon.past hcandidate hplace
  refine ⟨last, ?_, hdone⟩
  rw [tokenizeRest_step (by decide) h ((tokenFrom_eq rfl _).trans hmid),
    tokenizeRest_step (by decide) hcolon ((tokenFrom_colon hflow).trans hlast)]

theorem lexeme_step (l : Lexeme) {n : Nat} (hfits : l.Fits depth allowed)
    (h : Ready (List.replicate n ' ' ++ (l.chars ++ rest)) made depth allowed t) (fuel : Nat) :
    ∃ t', tokenizeRest (fuel + l.rounds) t = tokenizeRest fuel t' ∧
      Ready rest (l.tokens.reverse ++ made) (l.depthAfter depth) l.allowsKey t' := by
  cases l with
  | start mapping =>
    cases mapping with
    | true =>
      obtain ⟨next, hnext, hready⟩ := flowStart_ready h.past .flowMapping
      exact ⟨next, tokenizeRest_step (by decide) h ((tokenFrom_eq rfl _).trans hnext) fuel, hready⟩
    | false =>
      obtain ⟨next, hnext, hready⟩ := flowStart_ready h.past .flowSequence
      exact ⟨next, tokenizeRest_step (by decide) h ((tokenFrom_eq rfl _).trans hnext) fuel, hready⟩
  | stop mapping =>
    cases mapping with
    | true =>
      obtain ⟨next, hnext, hready⟩ := flowEnd_ready h.past .flowMappingEnd
      exact ⟨next, tokenizeRest_step (by decide) h ((tokenFrom_eq rfl _).trans hnext) fuel, hready⟩
    | false =>
      obtain ⟨next, hnext, hready⟩ := flowEnd_ready h.past .flowSequenceEnd
      exact ⟨next, tokenizeRest_step (by decide) h ((tokenFrom_eq rfl _).trans hnext) fuel, hready⟩
  | comma =>
    obtain ⟨next, hnext, hready⟩ := flowComma_ready h.past
    exact ⟨next, tokenizeRest_step (by decide) h ((tokenFrom_eq rfl _).trans hnext) fuel, hready⟩
  | scalar q =>
    have hchars : (Lexeme.scalar q).chars ++ rest = '"' :: (q.body ++ '"' :: rest) := by
      simp [Lexeme.chars]
    rw [hchars] at h
    obtain ⟨next, hnext, hready, -⟩ := quoted_ready q.reads h.past
    exact ⟨next, tokenizeRest_step (by decide) h ((tokenFrom_eq rfl _).trans hnext) fuel, hready⟩
  | key q =>
    obtain ⟨hdepth, rfl, hshort⟩ := hfits
    have hchars : (Lexeme.key q).chars ++ rest = '"' :: (q.body ++ '"' :: ':' :: rest) := by
      simp [Lexeme.chars]
    rw [hchars] at h
    exact key_step hdepth hshort h fuel

theorem tokenizeRest_end {n : Nat} (h : Ready (List.replicate n ' ') made depth allowed t)
    (fuel : Nat) :
    ∃ t', tokenizeRest (fuel + 1) t = .ok ((), t') ∧ t'.tokens = made := by
  rw [← List.append_nil (List.replicate n ' ')] at h
  have hrest : Settled [] := by simp [Settled]
  have hfresh : freshenAll { t with cursor := t.cursor.past n [] } = .ok ((), t.past n []) :=
    freshenAll_eq ⟨rfl, h.tokens, h.depth, h.allowed, h.indents, h.candidate, h.outer⟩
  refine ⟨{ t.past n [] with candidate := none, keyAllowed := false }, ?_, h.tokens⟩
  rw [tokenizeRest]
  refine (bind_ok (scan_ok rfl)).trans ?_
  refine (bind_ok (skipToToken_spaces hrest h _)).trans ?_
  refine (bind_ok hfresh).trans ?_
  refine (get_bind _ _).trans ?_
  refine (bind_ok (closeBlocks_eq h.past.indents _)).trans ?_
  refine (bind_ok (scan_ok (rfl : peek (t.past n []).cursor = .ok (none, _)))).trans ?_
  change leaveDocument (t.past n []) = _
  rw [leaveDocument, bind_ok (closeBlocks_eq h.past.indents _),
    bind_ok (dropCandidate_eq h.past.candidate)]
  rfl

/-- A line of lexemes, each after some spaces, and the spaces at its end. -/
def lineChars (n : Nat) : List (Nat × Lexeme) → List Char
  | [] => List.replicate n ' '
  | l :: ls => List.replicate l.1 ' ' ++ (l.2.chars ++ lineChars n ls)

/-- The keys of a line stand in their places. -/
def Placed (depth : Nat) (allowed : Bool) : List Lexeme → Prop
  | [] => True
  | l :: ls => l.Fits depth allowed ∧ Placed (l.depthAfter depth) l.allowsKey ls

theorem rounds_le_length (l : Lexeme) : l.rounds ≤ l.chars.length := by
  cases l with
  | start mapping => cases mapping <;> exact Nat.le_refl 1
  | stop mapping => cases mapping <;> exact Nat.le_refl 1
  | comma => exact Nat.le_refl 1
  | scalar q => exact Nat.succ_le_succ (Nat.zero_le _)
  | key q =>
    rw [Lexeme.chars, List.length_cons, List.length_append]
    exact Nat.succ_le_succ (Nat.le_add_left_of_le (by decide))

theorem tokenizeRest_line {n : Nat} (ls : List (Nat × Lexeme))
    (hplaced : Placed depth allowed (ls.map Prod.snd))
    (h : Ready (lineChars n ls) made depth allowed t) {fuel : Nat}
    (hfuel : (lineChars n ls).length < fuel) :
    ∃ t', tokenizeRest fuel t = .ok ((), t') ∧
      t'.tokens = ((ls.map Prod.snd).flatMap Lexeme.tokens).reverse ++ made := by
  induction ls generalizing depth allowed made t fuel with
  | nil =>
    obtain ⟨fuel, rfl⟩ : ∃ n, fuel = n + 1 := Nat.exists_eq_add_one.mpr (Nat.zero_lt_of_lt hfuel)
    exact tokenizeRest_end h fuel
  | cons l ls ih =>
    have hrounds := rounds_le_length l.2
    rw [lineChars, List.length_append, List.length_append] at hfuel
    obtain ⟨fuel, rfl⟩ : ∃ m, fuel = m + l.2.rounds := Nat.exists_eq_add_of_le' (by omega)
    obtain ⟨mid, hmid, hready⟩ := lexeme_step l.2 hplaced.1 h fuel
    have hleft : (lineChars n ls).length < fuel := by omega
    obtain ⟨last, hlast, htokens⟩ := ih hplaced.2 hready hleft
    refine ⟨last, hmid.trans hlast, htokens.trans ?_⟩
    rw [List.map_cons, List.flatMap_cons, List.reverse_append, List.append_assoc]

theorem mem_chars {l : Lexeme} {c : Char} (h : c ∈ l.chars) :
    c ∈ starters ∨ ∃ q : Quoted, c ∈ q.body := by
  cases l with
  | start mapping => cases mapping <;> exact .inl (List.mem_singleton.mp h ▸ by decide)
  | stop mapping => cases mapping <;> exact .inl (List.mem_singleton.mp h ▸ by decide)
  | comma => exact .inl (List.mem_singleton.mp h ▸ by decide)
  | scalar q =>
    rcases List.mem_cons.mp h with rfl | h
    · exact .inl (by decide)
    · rcases List.mem_append.mp h with h | h
      · exact .inr ⟨q, h⟩
      · exact .inl (List.mem_singleton.mp h ▸ by decide)
  | key q =>
    rcases List.mem_cons.mp h with rfl | h
    · exact .inl (by decide)
    · rcases List.mem_append.mp h with h | h
      · exact .inr ⟨q, h⟩
      · have hall : ['"', ':'].all starters.contains = true := rfl
        exact .inl (List.contains_iff_mem.mp (List.all_eq_true.mp hall c h))

theorem exists_starter (l : Lexeme) : ∃ d more, l.chars = d :: more ∧ d ∈ starters := by
  cases l with
  | start mapping => cases mapping <;> exact ⟨_, _, rfl, by decide⟩
  | stop mapping => cases mapping <;> exact ⟨_, _, rfl, by decide⟩
  | comma => exact ⟨_, _, rfl, by decide⟩
  | scalar q => exact ⟨_, _, rfl, by decide⟩
  | key q => exact ⟨_, _, rfl, by decide⟩

theorem lineChars_allowed (n : Nat) (ls : List (Nat × Lexeme)) :
    ∀ c ∈ lineChars n ls, isAllowed c = true := by
  have hspaces : ∀ m, ∀ c ∈ List.replicate m ' ', isAllowed c = true := by
    intro m c hc
    rw [List.eq_of_mem_replicate hc]
    rfl
  have hstarters : starters.all isAllowed = true := rfl
  induction ls with
  | nil => exact hspaces n
  | cons l ls ih =>
    intro c hc
    rcases List.mem_append.mp hc with hc | hc
    · exact hspaces _ c hc
    · rcases List.mem_append.mp hc with hc | hc
      · rcases mem_chars hc with hc | ⟨q, hc⟩
        · exact List.all_eq_true.mp hstarters c hc
        · exact q.allowed c hc
      · exact ih c hc

theorem lineChars_head (n : Nat) (ls : List (Nat × Lexeme)) :
    (lineChars n ls).head? ≠ some '\ufeff' := by
  have hspaces : ∀ m rest, (rest.head? ≠ some '\ufeff') →
      (List.replicate m ' ' ++ rest).head? ≠ some '\ufeff' := by
    intro m rest hrest
    cases m with
    | zero => exact hrest
    | succ m =>
      rintro ⟨⟩
  cases ls with
  | nil =>
    have hnil := hspaces n [] nofun
    rwa [List.append_nil] at hnil
  | cons l ls =>
    obtain ⟨d, more, hchars, hd⟩ := exists_starter l.2
    refine hspaces l.1 _ ?_
    rw [hchars]
    intro hsome
    exact (starter_other hd).2.2.1 (Option.some.inj hsome)

/-- A line of lexemes is cut into their tokens. -/
theorem tokens_line {n : Nat} {ls : List (Nat × Lexeme)} (h : Placed 0 true (ls.map Prod.snd)) :
    Yaml.tokens (String.ofList (lineChars n ls)) =
      .ok ((ls.map Prod.snd).flatMap Lexeme.tokens) := by
  have hready : Ready (lineChars n ls) [] 0 true { cursor := { rest := lineChars n ls } } :=
    ⟨rfl, rfl, rfl, rfl, rfl, nofun, nofun⟩
  obtain ⟨last, hlast, htokens⟩ := tokenizeRest_line ls h hready (Nat.lt_succ_self _)
  rw [Yaml.tokens, String.toList_ofList]
  simp only [List.all_eq_true.mpr (lineChars_allowed n ls), 
    beq_eq_false_iff_ne.mpr (lineChars_head n ls)]
  change (tokenizeRest (lineChars n ls).length.succ { cursor := { rest := lineChars n ls } } >>=
    fun x => pure x.2.tokens.reverse : Except String (List Token)) = _
  rw [hlast]
  change Except.ok last.tokens.reverse = _
  rw [htokens, List.append_nil, List.reverse_reverse]

end Tokens

end StyleAudit.Yaml
