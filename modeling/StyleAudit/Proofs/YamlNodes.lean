import StyleAudit.Yaml.Node
import StyleAudit.Proofs.YamlTokens

/-!
# Documents of flow collections

Tokens that are read as nodes can be put together to the tokens of a sequence or mapping of these
nodes. So a line that writes nested data down is a document with the data as its root.
-/

namespace StyleAudit.Yaml
set_option autoImplicit false

section Nodes
variable {rest : List Token} {r : Reader}

/-- The tokens that the nodes of flow collections start with. -/
def startsNode : Token → Bool
  | .scalar _ _ => true
  | .flowSequence => true
  | .flowMapping => true
  | _ => false

/-- Some tokens are read as a node, wherever it stands. -/
structure Reads (ts : List Token) (n : Node) : Prop where
  starts : ∃ token more, ts = token :: more ∧ startsNode token = true
  run : ∀ {fuel : Nat} {setting : Setting} {r : Reader} {rest : List Token},
    2 * ts.length ≤ fuel → r.tokens = ts ++ rest →
      node setting fuel r = .ok (n, { r with tokens := rest })

theorem node_content {token : Token} (htoken : startsNode token = true)
    (h : r.tokens = token :: rest) (setting : Setting) (fuel : Nat) :
    node setting (fuel + 1) r = content setting false none fuel r := by
  obtain ⟨tokens, handles, names, numbers, finished⟩ := r
  obtain rfl : tokens = token :: rest := h
  have hfinish : ∀ m : StateT Reader (Except String) Node,
      (m >>= fun n => finishAnchor none n) = m := fun m => bind_pure m
  rw [node]
  refine (get_bind _ _).trans ?_
  cases token with
  | scalar _ _ => exact congrFun (hfinish _) _
  | flowSequence => exact congrFun (hfinish _) _
  | flowMapping => exact congrFun (hfinish _) _
  | _ => cases htoken

theorem reads_scalar (text : String) :
    Reads [.scalar false text] (.scalar none false text) := by
  refine ⟨⟨_, _, rfl, rfl⟩, fun {fuel setting r rest} hfuel h => ?_⟩
  obtain ⟨fuel, rfl⟩ : ∃ n, fuel = n + 2 := Nat.exists_eq_add_of_le' hfuel
  rw [node_content rfl h, content]
  refine (get_bind _ _).trans ?_
  rw [h]
  rfl

theorem isToken_cons {token : Token} (h : r.tokens = token :: rest) (other : Token) :
    isToken other r = .ok (token == other, r) := by
  rw [isToken]
  refine (get_bind _ _).trans ?_
  rw [h]
  rfl

theorem accept_next {token : Token} (h : r.tokens = token :: rest) :
    accept token r = .ok (true, { r with tokens := rest }) := by
  have htail : r.tokens.tail = rest := by rw [h, List.tail_cons]
  rw [accept, bind_ok (isToken_cons h token), beq_self_eq_true, if_pos rfl, ← htail]
  rfl

theorem accept_other {token other : Token} (h : r.tokens = token :: rest) (hne : token ≠ other) :
    accept other r = .ok (false, r) := by
  rw [accept, bind_ok (isToken_cons h other), beq_eq_false_iff_ne.mpr hne]
  rfl

theorem expect_next {token : Token} (h : r.tokens = token :: rest) :
    expect token r = .ok ((), { r with tokens := rest }) := by
  rw [expect, bind_ok (accept_next h)]
  rfl

/-- Parts with a separator between them. -/
def separated {α : Type} (separator : α) : List (List α) → List α
  | [] => []
  | part :: parts => part ++ parts.flatMap (separator :: ·)

theorem startsNode_other {token : Token} (h : startsNode token = true) :
    token ≠ .flowSequenceEnd ∧ token ≠ .flowMappingEnd ∧ token ≠ .comma ∧ token ≠ .key ∧
      token ≠ .value := by
  refine ⟨?_, ?_, ?_, ?_, ?_⟩ <;> rintro rfl <;> cases h

/-- One item of a sequence, after what separates it from the one before. -/
theorem flowItems_item {ts : List Token} {n : Node} (h : Reads ts n) {fuel : Nat}
    (hfuel : 2 * ts.length ≤ fuel) (first : Bool) {r : Reader}
    (hr : r.tokens = (if first then [] else [.comma]) ++ (ts ++ rest)) :
    flowItems first (fuel + 1) r =
      (flowItems false fuel { r with tokens := rest }).map fun x => (n :: x.1, x.2) := by
  obtain ⟨token, more, hts, hstarts⟩ := h.starts
  obtain ⟨hend, -, -, hkey, -⟩ := startsNode_other hstarts
  have hfront : ts ++ rest = token :: (more ++ rest) := by rw [hts, List.cons_append]
  have hitem : (do
      if ← accept .flowSequenceEnd then return []
      let item ← if ← accept .key then flowPair fuel else node .flow fuel
      return item :: (← flowItems false fuel)) { r with tokens := ts ++ rest } =
      (flowItems false fuel { r with tokens := rest }).map fun x => (n :: x.1, x.2) := by
    refine (bind_ok (accept_other hfront hend)).trans ?_
    refine (bind_ok (accept_other hfront hkey)).trans ?_
    refine (bind_ok (h.run hfuel rfl)).trans ?_
    change (flowItems false fuel >>= fun x => pure (n :: x)) { r with tokens := rest } = _
    cases hrest : flowItems false fuel { r with tokens := rest } with
    | error e => exact bind_error hrest
    | ok x => exact bind_ok hrest
  rw [flowItems]
  cases first with
  | true =>
    have hr : r.tokens = ts ++ rest := hr
    rw [← hr] at hitem
    exact (bind_ok (accept_other (hr.trans hfront) hend)).trans hitem
  | false =>
    have hr : r.tokens = .comma :: (ts ++ rest) := hr
    refine (bind_ok (accept_other hr (by decide))).trans ?_
    exact (bind_ok (expect_next hr)).trans hitem

theorem flowItems_end {first : Bool} (h : r.tokens = .flowSequenceEnd :: rest) (fuel : Nat) :
    flowItems first (fuel + 1) r = .ok ([], { r with tokens := rest }) := by
  rw [flowItems, bind_ok (accept_next h)]
  rfl

theorem flowItems_rest {parts : List (List Token × Node)} (h : ∀ p ∈ parts, Reads p.1 p.2)
    {fuel : Nat} (hfuel : 2 * ((parts.map Prod.fst).flatMap (.comma :: ·)).length < fuel)
    {r : Reader}
    (hr : r.tokens = (parts.map Prod.fst).flatMap (.comma :: ·) ++ .flowSequenceEnd :: rest) :
    flowItems false fuel r = .ok (parts.map Prod.snd, { r with tokens := rest }) := by
  obtain ⟨fuel, rfl⟩ : ∃ n, fuel = n + 1 := Nat.exists_eq_add_one.mpr (Nat.zero_lt_of_lt hfuel)
  induction parts generalizing fuel r with
  | nil => exact flowItems_end hr fuel
  | cons p more ih =>
    rw [List.map_cons, List.flatMap_cons, List.length_append, List.length_cons] at hfuel
    obtain ⟨fuel, rfl⟩ : ∃ n, fuel = n + 1 := Nat.exists_eq_add_one.mpr (by omega)
    rw [List.map_cons, List.flatMap_cons, List.append_assoc] at hr
    rw [flowItems_item (h p List.mem_cons_self) (by omega) false hr,
      ih (fun q hq => h q (List.mem_cons_of_mem _ hq)) rfl fuel (by omega)]
    rfl

/-- Nodes with commas between them are read as the items of a sequence. -/
theorem reads_sequence {parts : List (List Token × Node)} (h : ∀ p ∈ parts, Reads p.1 p.2) :
    Reads (.flowSequence :: (separated .comma (parts.map Prod.fst) ++ [.flowSequenceEnd]))
      (.sequence (parts.map Prod.snd)) := by
  refine ⟨⟨_, _, rfl, rfl⟩, fun {fuel setting r rest} hfuel hr => ?_⟩
  rw [List.length_cons, List.length_append, List.length_singleton] at hfuel
  obtain ⟨fuel, rfl⟩ : ∃ n, fuel = n + 3 := Nat.exists_eq_add_of_le' (by omega)
  have hr : r.tokens = .flowSequence ::
      (separated .comma (parts.map Prod.fst) ++ .flowSequenceEnd :: rest) := by
    rw [hr, List.cons_append, List.append_assoc]
    rfl
  have hitems : flowItems true (fuel + 1) { r with
      tokens := separated .comma (parts.map Prod.fst) ++ .flowSequenceEnd :: rest } =
        .ok (parts.map Prod.snd, { r with tokens := rest }) := by
    cases parts with
    | nil => exact flowItems_end rfl fuel
    | cons p more =>
      rw [List.map_cons, separated, List.length_append] at hfuel
      rw [List.map_cons, separated, List.append_assoc]
      rw [flowItems_item (h p List.mem_cons_self) (by omega) true rfl,
        flowItems_rest (fun q hq => h q (List.mem_cons_of_mem _ hq)) (by omega) rfl]
      rfl
  rw [node_content rfl hr, content]
  refine (get_bind _ _).trans ?_
  rw [hr]
  dsimp only
  refine (modify_bind _ _ _).trans ?_
  exact bind_ok hitems

theorem nodeUnless_reads {ts : List Token} {n : Node} (h : Reads ts n) {ends : List Token}
    (hends : ∀ token ∈ ends, startsNode token = false) {fuel : Nat} (hfuel : 2 * ts.length ≤ fuel)
    {r : Reader} (hr : r.tokens = ts ++ rest) (setting : Setting) :
    nodeUnless setting ends (fuel + 1) r = .ok (n, { r with tokens := rest }) := by
  obtain ⟨token, more, hts, hstarts⟩ := h.starts
  have hother : isTokenIn ends r = .ok (false, r) := by
    have hnot : ends.contains token = false := by
      rw [List.contains_eq_mem, decide_eq_false_iff_not]
      intro hmem
      rw [hends token hmem] at hstarts
      cases hstarts
    rw [isTokenIn]
    refine (get_bind _ _).trans ?_
    rw [hr, hts, List.cons_append, List.head?_cons, Option.map_some, Option.getD_some, hnot]
    rfl
  rw [nodeUnless, bind_ok hother]
  exact h.run hfuel hr

/-- The tokens of an entry of a mapping. -/
def entryTokens (name : String) (ts : List Token) : List Token :=
  .key :: .scalar false name :: .value :: ts

/-- One entry of a mapping, after what separates it from the one before. -/
theorem flowEntries_entry {name : String} {ts : List Token} {n : Node} (h : Reads ts n)
    {fuel : Nat} (hfuel : 2 * (entryTokens name ts).length ≤ fuel) (first : Bool) {r : Reader}
    (hr : r.tokens = (if first then [] else [.comma]) ++ (entryTokens name ts ++ rest)) :
    flowEntries first (fuel + 1) r = (flowEntries false fuel { r with tokens := rest }).map
      fun x => ((.scalar none false name, n) :: x.1, x.2) := by
  have hlength : (entryTokens name ts).length = ts.length + 3 := rfl
  obtain ⟨fuel, rfl⟩ : ∃ n, fuel = n + 1 := Nat.exists_eq_add_one.mpr (by omega)
  have hentry : (do
      if ← accept .flowMappingEnd then return []
      let ends : List Token := [.comma, .flowMappingEnd]
      if ← accept .key then
        let key ← nodeUnless .flow (.value :: ends) (fuel + 1)
        let value ← if ← accept .value then nodeUnless .flow ends (fuel + 1) else pure .empty
        return (key, value) :: (← flowEntries false (fuel + 1))
      else
        let key ← node .flow (fuel + 1)
        return (key, .empty) :: (← flowEntries false (fuel + 1)))
        { r with tokens := entryTokens name ts ++ rest } =
      (flowEntries false (fuel + 1) { r with tokens := rest }).map
        fun x => ((.scalar none false name, n) :: x.1, x.2) := by
    refine (bind_ok (accept_other (rfl : _ = Token.key :: _) (by decide))).trans ?_
    refine (bind_ok (accept_next rfl)).trans ?_
    refine (bind_ok (nodeUnless_reads (reads_scalar name) (by decide) (by
      rw [List.length_singleton]
      omega) rfl _)).trans ?_
    refine (bind_ok (accept_next rfl)).trans ?_
    refine (bind_ok (nodeUnless_reads h (by decide) (by omega) rfl _)).trans ?_
    cases hrest : flowEntries false (fuel + 1) { r with tokens := rest } with
    | error e => exact bind_error hrest
    | ok x => exact bind_ok hrest
  rw [flowEntries]
  cases first with
  | true =>
    have hr : r.tokens = entryTokens name ts ++ rest := hr
    rw [← hr] at hentry
    exact (bind_ok (accept_other hr (by decide))).trans hentry
  | false =>
    have hr : r.tokens = .comma :: (entryTokens name ts ++ rest) := hr
    refine (bind_ok (accept_other hr (by decide))).trans ?_
    exact (bind_ok (expect_next hr)).trans hentry

theorem flowEntries_end {first : Bool} (h : r.tokens = .flowMappingEnd :: rest) (fuel : Nat) :
    flowEntries first (fuel + 1) r = .ok ([], { r with tokens := rest }) := by
  rw [flowEntries, bind_ok (accept_next h)]
  rfl

/-- An entry of a mapping in its three forms. -/
structure Part where
  name : String
  tokens : List Token
  node : Node

def Part.allTokens (p : Part) : List Token := entryTokens p.name p.tokens

def Part.entry (p : Part) : Node × Node := (.scalar none false p.name, p.node)

theorem flowEntries_rest {parts : List Part} (h : ∀ p ∈ parts, Reads p.tokens p.node)
    {fuel : Nat} (hfuel : 2 * ((parts.map Part.allTokens).flatMap (.comma :: ·)).length < fuel)
    {r : Reader}
    (hr : r.tokens = (parts.map Part.allTokens).flatMap (.comma :: ·) ++ .flowMappingEnd :: rest) :
    flowEntries false fuel r = .ok (parts.map Part.entry, { r with tokens := rest }) := by
  obtain ⟨fuel, rfl⟩ : ∃ n, fuel = n + 1 := Nat.exists_eq_add_one.mpr (Nat.zero_lt_of_lt hfuel)
  induction parts generalizing fuel r with
  | nil => exact flowEntries_end hr fuel
  | cons p more ih =>
    rw [List.map_cons, List.flatMap_cons, List.length_append, List.length_cons] at hfuel
    have hfirst : 2 * (entryTokens p.name p.tokens).length ≤ fuel := by
      rw [Part.allTokens] at hfuel
      omega
    obtain ⟨fuel, rfl⟩ : ∃ n, fuel = n + 1 := Nat.exists_eq_add_one.mpr (by omega)
    rw [List.map_cons, List.flatMap_cons, List.append_assoc] at hr
    rw [flowEntries_entry (h p List.mem_cons_self) hfirst false hr,
      ih (fun q hq => h q (List.mem_cons_of_mem _ hq)) rfl fuel (by omega)]
    rfl

/-- Entries with commas between them are read as the entries of a mapping. -/
theorem reads_mapping {parts : List Part} (h : ∀ p ∈ parts, Reads p.tokens p.node) :
    Reads (.flowMapping :: (separated .comma (parts.map Part.allTokens) ++ [.flowMappingEnd]))
      (.mapping (parts.map Part.entry)) := by
  refine ⟨⟨_, _, rfl, rfl⟩, fun {fuel setting r rest} hfuel hr => ?_⟩
  rw [List.length_cons, List.length_append, List.length_singleton] at hfuel
  obtain ⟨fuel, rfl⟩ : ∃ n, fuel = n + 3 := Nat.exists_eq_add_of_le' (by omega)
  have hr : r.tokens = .flowMapping ::
      (separated .comma (parts.map Part.allTokens) ++ .flowMappingEnd :: rest) := by
    rw [hr, List.cons_append, List.append_assoc]
    rfl
  have hentries : flowEntries true (fuel + 1) { r with
      tokens := separated .comma (parts.map Part.allTokens) ++ .flowMappingEnd :: rest } =
        .ok (parts.map Part.entry, { r with tokens := rest }) := by
    cases parts with
    | nil => exact flowEntries_end rfl fuel
    | cons p more =>
      rw [List.map_cons, separated, List.length_append] at hfuel
      have hfirst : 2 * (entryTokens p.name p.tokens).length ≤ fuel := by
        rw [Part.allTokens] at hfuel
        omega
      rw [List.map_cons, separated, List.append_assoc]
      rw [flowEntries_entry (h p List.mem_cons_self) hfirst true rfl,
        flowEntries_rest (fun q hq => h q (List.mem_cons_of_mem _ hq)) (by omega) rfl]
      rfl
  rw [node_content rfl hr, content]
  refine (get_bind _ _).trans ?_
  rw [hr]
  dsimp only
  refine (modify_bind _ _ _).trans ?_
  exact bind_ok hentries

/-- A text whose tokens are read as a node is a document with this root. -/
theorem document_reads {text : String} {ts : List Token} {n : Node}
    (htokens : Yaml.tokens text = .ok ts) (h : Reads ts n) :
    ∃ d, document text = .ok (some d) ∧ d.root = n := by
  obtain ⟨token, more, hts, hstarts⟩ := h.starts
  have hempty : ts.isEmpty = false := by rw [hts, List.isEmpty_cons]
  have hdirectives : directives false [] ts = .ok ([], ts) := by
    rw [hts]
    cases token with
    | scalar _ _ => rfl
    | flowSequence => rfl
    | flowMapping => rfl
    | _ => cases hstarts
  let start : Reader := { tokens := ts, handles := [] ++ defaultHandles }
  have hstart : token ≠ .documentStart := by
    rintro rfl
    cases hstarts
  have hnode : documentContent (decide (ts.length < ts.length)) (4 * ts.length + 8) start =
      .ok (n, { start with tokens := [] }) := by
    rw [documentContent, bind_ok (accept_other (hts : start.tokens = _) hstart)]
    simp only [Nat.lt_irrefl, decide_false]
    exact h.run (by omega) (List.append_nil ts).symm
  refine ⟨{ root := n, target := Reader.target { start with tokens := [] } }, ?_, rfl⟩
  rw [document, htokens]
  change (if ts.isEmpty = true then _ else _ : Except String (Option Document)) = _
  rw [hempty, if_neg Bool.false_ne_true, hdirectives]
  change (documentContent (decide (ts.length < ts.length)) (4 * ts.length + 8) start >>= _) = _
  rw [hnode]
  rfl

end Nodes

section Flows

/-- Data in flow collections. -/
inductive Flow where
  | scalar (q : Quoted)
  | sequence (items : List Flow)
  | mapping (entries : List (Quoted × Flow))

/-- The text that a body is read as. -/
def Quoted.string (q : Quoted) : String := String.ofList q.text

namespace Flow

theorem sizeOf_item {items : List Flow} {f : Flow} (h : f ∈ items) :
    sizeOf f < sizeOf (Flow.sequence items) := by
  have hlt := List.sizeOf_lt_of_mem h
  rw [sequence.sizeOf_spec]
  omega

theorem sizeOf_entry {entries : List (Quoted × Flow)} {e : Quoted × Flow} (h : e ∈ entries) :
    sizeOf e.2 < sizeOf (Flow.mapping entries) := by
  have hlt := List.sizeOf_lt_of_mem h
  obtain ⟨q, f⟩ := e
  change sizeOf f < _
  rw [Prod.mk.sizeOf_spec] at hlt
  rw [mapping.sizeOf_spec]
  omega

/-- What holds of collections whose parts it holds of holds of all data. -/
theorem parts {P : Flow → Prop} (hscalar : ∀ q, P (.scalar q))
    (hsequence : ∀ items, (∀ i ∈ items, P i) → P (.sequence items))
    (hmapping : ∀ entries, (∀ e ∈ entries, P e.2) → P (.mapping entries)) : ∀ f, P f
  | .scalar q => hscalar q
  | .sequence items => hsequence items fun i _ => parts hscalar hsequence hmapping i
  | .mapping entries => hmapping entries fun e _ => parts hscalar hsequence hmapping e.2
termination_by f => sizeOf f
decreasing_by
  · exact sizeOf_item ‹_›
  · exact sizeOf_entry ‹_›

def node : Flow → Node
  | .scalar q => .scalar none false q.string
  | .sequence items => .sequence (items.map fun i => i.node)
  | .mapping entries => .mapping (entries.map fun e => (.scalar none false e.1.string, e.2.node))
termination_by f => sizeOf f
decreasing_by
  · exact sizeOf_item ‹_›
  · exact sizeOf_entry ‹_›

def lexemes : Flow → List Lexeme
  | .scalar q => [.scalar q]
  | .sequence items =>
    .start false :: (separated .comma (items.map fun i => i.lexemes) ++ [.stop false])
  | .mapping entries => .start true ::
      (separated .comma (entries.map fun e => .key e.1 :: e.2.lexemes) ++ [.stop true])
termination_by f => sizeOf f
decreasing_by
  · exact sizeOf_item ‹_›
  · exact sizeOf_entry ‹_›

end Flow

theorem flatMap_separated {α β : Type} (f : α → List β) {a : α} {b : β} (h : f a = [b])
    (parts : List (List α)) :
    (separated a parts).flatMap f = separated b (parts.map fun p => p.flatMap f) := by
  cases parts with
  | nil => rfl
  | cons p more =>
    rw [separated, List.flatMap_append, List.map_cons, separated]
    congr 1
    induction more with
    | nil => rfl
    | cons q more ih => simp [h, ih]

theorem tokens_separated (parts : List (List Lexeme)) :
    (separated .comma parts).flatMap Lexeme.tokens =
      separated .comma (parts.map fun p => p.flatMap Lexeme.tokens) :=
  flatMap_separated Lexeme.tokens rfl parts

theorem reads_flow (f : Flow) : Reads (f.lexemes.flatMap Lexeme.tokens) f.node := by
  induction f using Flow.parts with
  | hscalar q =>
    rw [Flow.lexemes, Flow.node]
    exact reads_scalar q.string
  | hsequence items ih =>
    let parts := items.map fun i => (i.lexemes.flatMap Lexeme.tokens, i.node)
    have hparts : ∀ p ∈ parts, Reads p.1 p.2 := by
      intro p hp
      obtain ⟨i, hi, rfl⟩ := List.mem_map.mp hp
      exact ih i hi
    have hread := reads_sequence hparts
    rw [List.map_map, List.map_map] at hread
    rw [Flow.lexemes, Flow.node, List.flatMap_cons, List.flatMap_append, tokens_separated,
      List.map_map, List.flatMap_singleton]
    exact hread
  | hmapping entries ih =>
    let parts := entries.map fun e =>
      (⟨e.1.string, e.2.lexemes.flatMap Lexeme.tokens, e.2.node⟩ : Part)
    have hparts : ∀ p ∈ parts, Reads p.tokens p.node := by
      intro p hp
      obtain ⟨e, he, rfl⟩ := List.mem_map.mp hp
      exact ih e he
    have hread := reads_mapping hparts
    rw [List.map_map, List.map_map] at hread
    rw [Flow.lexemes, Flow.node, List.flatMap_cons, List.flatMap_append, tokens_separated,
      List.map_map, List.flatMap_singleton]
    exact hread

theorem mem_separated {α : Type} {a x : α} {p : List α} {parts : List (List α)} (hp : p ∈ parts)
    (hx : x ∈ p) : x ∈ separated a parts := by
  cases parts with
  | nil => cases hp
  | cons q more =>
    rw [separated, List.mem_append]
    rcases List.mem_cons.mp hp with rfl | hp
    · exact .inl hx
    · exact .inr (List.mem_flatMap.mpr ⟨p, hp, List.mem_cons_of_mem _ hx⟩)

/-- A key is not too long to be one. -/
def Lexeme.Short : Lexeme → Prop
  | .key q => q.body.length + 2 ≤ 1024
  | _ => True

/-- Lexemes that may stand where a value is due, whatever comes after them. -/
def Whole (depth : Nat) (allowed : Bool) (ls : List Lexeme) : Prop :=
  ∀ more, Placed depth false more → Placed depth allowed (ls ++ more)

theorem placed_separated {depth : Nat} {parts : List (List Lexeme)}
    (h : ∀ p ∈ parts, Whole (depth + 1) true p) {mapping : Bool} {more : List Lexeme}
    (hmore : Placed depth false more) (allowed : Bool) :
    Placed depth allowed (.start mapping ::
      (separated .comma parts ++ [.stop mapping]) ++ more) := by
  have hstop : ∀ allowed, Placed (depth + 1) allowed (.stop mapping :: more) := fun _ =>
    ⟨trivial, hmore⟩
  have hrest : ∀ ps ⊆ parts,
      Placed (depth + 1) false (ps.flatMap (.comma :: ·) ++ .stop mapping :: more) := by
    intro ps hps
    induction ps with
    | nil => exact hstop false
    | cons p ps ih =>
      rw [List.flatMap_cons, List.append_assoc]
      exact ⟨trivial, h p (hps List.mem_cons_self) _
        (ih fun q hq => hps (List.mem_cons_of_mem _ hq))⟩
  rw [List.cons_append, List.append_assoc]
  refine ⟨trivial, ?_⟩
  cases parts with
  | nil => exact hstop true
  | cons p ps =>
    rw [separated, List.append_assoc]
    exact h p List.mem_cons_self _ (hrest ps fun q hq => List.mem_cons_of_mem _ hq)

theorem whole_flow (f : Flow) (hshort : ∀ l ∈ f.lexemes, l.Short) (depth : Nat) (allowed : Bool) :
    Whole depth allowed f.lexemes := by
  induction f using Flow.parts generalizing depth allowed with
  | hscalar q =>
    rw [Flow.lexemes]
    exact fun more hmore => ⟨trivial, hmore⟩
  | hsequence items ih =>
    intro more hmore
    rw [Flow.lexemes] at hshort ⊢
    refine placed_separated ?_ hmore allowed
    intro p hp
    have hpart : ∀ l ∈ p, l.Short := fun l hl =>
      hshort l (List.mem_cons_of_mem _ (List.mem_append_left _ (mem_separated hp hl)))
    obtain ⟨i, hi, rfl⟩ := List.mem_map.mp hp
    exact ih i hi hpart _ _
  | hmapping entries ih =>
    intro more hmore
    rw [Flow.lexemes] at hshort ⊢
    refine placed_separated ?_ hmore allowed
    intro p hp
    have hpart : ∀ l ∈ p, l.Short := fun l hl =>
      hshort l (List.mem_cons_of_mem _ (List.mem_append_left _ (mem_separated hp hl)))
    obtain ⟨e, he, rfl⟩ := List.mem_map.mp hp
    intro more hmore
    exact ⟨⟨Nat.succ_pos _, rfl, hpart _ List.mem_cons_self⟩,
      ih e he (fun l hl => hpart l (List.mem_cons_of_mem _ hl)) _ _ more hmore⟩

/-- A line that writes data down, with any spaces between the lexemes, is a document with the data
as its root. -/
theorem document_line {f : Flow} (hshort : ∀ l ∈ f.lexemes, l.Short) {ls : List (Nat × Lexeme)}
    (hline : ls.map Prod.snd = f.lexemes) (n : Nat) :
    ∃ d, document (String.ofList (lineChars n ls)) = .ok (some d) ∧ d.root = f.node := by
  have hplaced := whole_flow f hshort 0 true [] trivial
  rw [List.append_nil, ← hline] at hplaced
  have htokens := tokens_line (n := n) hplaced
  rw [hline] at htokens
  exact document_reads htokens (reads_flow f)

end Flows

end StyleAudit.Yaml
