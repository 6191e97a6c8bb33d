import StyleAudit.Proofs.LineEndings

/-!
# Writing statistics down again

Diagnostics that a text can state have codes of capital letters and digits, and messages on one line
without outer blanks. Their entries can be written as statistics lines, in any order, with blanks
between the parts and other lines in between. Whatever the layout, parsing reads the same entries
back: the digits of a count end at a blank, a code ends where its digits do, and the blanks around a
message are the only ones that are lost.
-/

namespace StyleAudit
set_option autoImplicit false

open Text

namespace Statistics

/-- Capital letters and then digits, at least one of each. -/
def IsCode (code : String) : Prop :=
  ∃ letters number, code.toList = letters ++ number ∧
    letters ≠ [] ∧ (∀ c ∈ letters, isAsciiUpper c = true) ∧
    number ≠ [] ∧ ∀ c ∈ number, isAsciiDigit c = true

/-- A text on one line that begins and ends with no blank. -/
def IsMessage (message : String) : Prop :=
  '\n' ∉ message.toList ∧ (∀ c ∈ message.toList.head?, isBlank c = false) ∧
    ∀ c ∈ message.toList.getLast?, isBlank c = false

def Padding (cs : List Char) : Prop := ∀ c ∈ cs, isBlank c = true ∧ c ≠ '\n'

/-- The blanks around the parts of a statistics line. -/
structure Layout where
  indent : List Char
  gap : List Char
  space : List Char
  trail : List Char
  indent_padding : Padding indent
  gap_padding : Padding gap
  gap_ne_nil : gap ≠ []
  space_padding : Padding space
  space_ne_nil : space ≠ []
  trail_padding : Padding trail

def Layout.line (l : Layout) (r : Record) : String :=
  String.ofList (l.indent ++ Nat.toDigits 10 r.count.toNat ++ l.gap ++ r.code.toList ++
    l.space ++ r.message.toList ++ l.trail)

def Record.entry (r : Record) : String × Tally := (r.code, ⟨r.count, r.message⟩)

def IsEnding (ending : String) : Prop := ending = "\n" ∨ ending = "\r\n"

/-- A text states records in their order, each on a line in a layout of its own, among any lines
that are no statistics. -/
inductive Writes : List Record → String → Prop
  | nil : Writes [] ""
  | entry {r : Record} {rs : List Record} {ending text : String} (layout : Layout) :
      IsEnding ending → Writes rs text → Writes (r :: rs) (layout.line r ++ ending ++ text)
  | other {rs : List Record} {line ending text : String} : '\n' ∉ line.toList →
      (∀ r, ¬States line.toList r) → IsEnding ending → Writes rs text →
      Writes rs (line ++ ending ++ text)

theorem IsCode.newline_notMem {code : String} (h : IsCode code) : '\n' ∉ code.toList := by
  obtain ⟨letters, number, hparts, -, hupper, -, hdigit⟩ := h
  have hletters : '\n' ∉ letters := fun hin => absurd (hupper _ hin) (by decide)
  have hnumber : '\n' ∉ number := fun hin => absurd (hdigit _ hin) (by decide)
  rw [hparts, List.mem_append, not_or]
  exact ⟨hletters, hnumber⟩

theorem Padding.isBlank {cs : List Char} (h : Padding cs) : ∀ c ∈ cs, Text.isBlank c = true :=
  fun c hc => (h c hc).1

theorem Padding.newline_notMem {cs : List Char} (h : Padding cs) : '\n' ∉ cs :=
  fun hin => (h _ hin).2 rfl

section Lines
variable (layout : Layout) {r : Record} (hcode : IsCode r.code) (hmessage : IsMessage r.message)
include hcode hmessage

theorem states_line : States (layout.line r).toList r := by
  obtain ⟨letters, number, hparts, hletters, hupper, hnumber, hdigit⟩ := hcode
  obtain ⟨-, hhead, hlast⟩ := hmessage
  obtain ⟨hascii, hvalue⟩ := (count?_eq_some_iff _ _).mp (count?_toDigits r.count)
  have hdecimal : ∀ c ∈ Nat.toDigits 10 r.count.toNat, isDecimal c = true :=
    fun c hc => isDecimal_of_isAsciiDigit (hascii c hc)
  have hspace := layout.space_padding.isBlank
  have hdivided : Division.Of (layout.line r).toList
      ⟨layout.indent, Nat.toDigits 10 r.count.toNat, layout.gap, letters, number,
        layout.space ++ r.message.toList ++ layout.trail⟩ := by
    refine ⟨?_, layout.indent_padding.isBlank, Nat.toDigits_ne_nil, hdecimal, layout.gap_ne_nil,
      layout.gap_padding.isBlank, hletters, hupper, hnumber, hdigit, ?_⟩
    · rw [Layout.line, String.toList_ofList, hparts]
      simp only [List.append_assoc]
    · -- The rest begins with a blank, since the code and the message are apart.
      rw [List.append_assoc]
      apply stops_append layout.space_ne_nil
      exact fun c hc => not_isAsciiDigit_of_isBlank (hspace c hc)
  exact ⟨_, hdivided, hascii, hvalue, hparts, layout.space, layout.trail, rfl, hspace,
    layout.trail_padding.isBlank, hhead, hlast⟩

theorem newline_notMem_line : '\n' ∉ (layout.line r).toList := by
  have hnumeral : '\n' ∉ Nat.toDigits 10 r.count.toNat :=
    fun h => absurd (isAsciiDigit_of_mem_toDigits h) (by decide)
  rw [Layout.line, String.toList_ofList]
  simp only [List.mem_append, not_or]
  exact ⟨⟨⟨⟨⟨⟨layout.indent_padding.newline_notMem, hnumeral⟩,
    layout.gap_padding.newline_notMem⟩, hcode.newline_notMem⟩,
    layout.space_padding.newline_notMem⟩, hmessage.1⟩, layout.trail_padding.newline_notMem⟩

end Lines

theorem records_line {line ending text : String} (hline : '\n' ∉ line.toList)
    (hending : IsEnding ending) :
    records (line ++ ending ++ text) = (Record.read? line.toList).toList ++ records text := by
  have hread := readParts_line Record.read? hline
  obtain rfl | rfl := hending
  · rw [records_append_newline, records_eq_readParts line, hread]
  · have hsplit : line ++ "\r\n" ++ text = (line ++ "\r") ++ "\n" ++ text := by
      have hreturn : "\r\n" = "\r" ++ "\n" := rfl
      rw [hreturn]
      simp only [String.append_assoc]
    have htext : (line ++ "\r").toList = line.toList ++ ['\r'] := String.toList_append
    have hreturned : '\n' ∉ (line ++ "\r").toList := by
      rw [htext, List.mem_append, not_or]
      exact ⟨hline, by decide⟩
    rw [hsplit, records_append_newline, records_eq_readParts (line ++ "\r"),
      readParts_line Record.read? hreturned, htext, read?_concat line.toList (by decide)]

theorem records_of_writes {rs : List Record} {text : String} (h : Writes rs text)
    (hparts : ∀ r ∈ rs, IsCode r.code ∧ IsMessage r.message) : records text = rs := by
  induction h with
  | nil => rfl
  | @entry r rs ending text layout hending _ ih =>
    obtain ⟨hcode, hmessage⟩ := hparts r List.mem_cons_self
    have hstates := states_line layout hcode hmessage
    rw [records_line (newline_notMem_line layout hcode hmessage) hending,
      read?_of_states hstates, ih fun other hother => hparts other (List.mem_cons_of_mem r hother)]
    rfl
  | @other rs line ending text hline hnone hending _ ih =>
    have hread : Record.read? line.toList = none := by
      rw [Option.eq_none_iff_forall_ne_some]
      exact fun r hr => hnone r (states_of_read? hr)
    rw [records_line hline hending, hread, ih hparts]
    rfl

theorem parts_of_mem_records {text : String} {r : Record} (h : r ∈ records text) :
    IsCode r.code ∧ IsMessage r.message := by
  have hline := newline_notMem_message h
  obtain ⟨line, -, hread⟩ := List.mem_filterMap.mp h
  obtain ⟨d, hd, -, -, hcode, before, after, -, -, -, hhead, hlast⟩ := states_of_read? hread
  exact ⟨⟨d.letters, d.number, hcode, hd.letters_ne_nil, hd.letters_upper, hd.number_ne_nil,
    hd.number_digit⟩, hline, hhead, hlast⟩

end Statistics

open Statistics (Record recordAll records parse IsCode IsMessage Layout Writes)

namespace Diagnostics

/-- Every code and every message is of the form that statistics lines state. -/
def Writable (d : Diagnostics) : Prop :=
  ∀ code message, d.message? code = some message → IsCode code ∧ IsMessage message

/-- The entries as records, in the order in which the codes were entered. -/
def listing (d : Diagnostics) : List Record :=
  d.tallies.entries.map fun e => ⟨e.1, e.2.count, e.2.message⟩

/-- Every look-up gives the same. -/
def Same (d d' : Diagnostics) : Prop := ∀ code, d.tallies.get? code = d'.tallies.get? code

theorem eq_of_entries {d d' : Diagnostics} (h : d.tallies.entries = d'.tallies.entries) :
    d = d' := by
  obtain ⟨⟨entries⟩⟩ := d
  obtain ⟨⟨entries'⟩⟩ := d'
  obtain rfl : entries = entries' := h
  rfl

theorem map_entry_listing (d : Diagnostics) : d.listing.map Record.entry = d.tallies.entries := by
  rw [listing, List.map_map]
  exact List.map_id _

theorem map_code_listing (d : Diagnostics) : d.listing.map Record.code = d.tallies.keys := by
  rw [listing, List.map_map]
  rfl

/-- Records of different codes that have no entry yet are entered one after the other. -/
theorem entries_recordAll {d : Diagnostics} {rs : List Record}
    (h : (d.tallies.keys ++ rs.map Record.code).Nodup) :
    (recordAll d rs).tallies.entries = d.tallies.entries ++ rs.map Record.entry := by
  induction rs generalizing d with
  | nil => exact (List.append_nil _).symm
  | cons r rest ih =>
    have hnew : r.code ∉ d.tallies.keys := by
      intro hin
      exact (List.nodup_append.mp h).2.2 r.code hin r.code List.mem_cons_self rfl
    have hentries : (d.record r.code r.count r.message).tallies.entries =
        d.tallies.entries ++ [r.entry] :=
      Table.entries_alter_of_notMem d.tallies hnew _
    have hkeys : (d.record r.code r.count r.message).tallies.keys = d.tallies.keys ++ [r.code] :=
      Table.keys_alter_of_notMem d.tallies hnew _
    have hrest : ((d.record r.code r.count r.message).tallies.keys ++
        rest.map Record.code).Nodup := by
      rw [hkeys, List.append_assoc]
      exact h
    change (recordAll (d.record r.code r.count r.message) rest).tallies.entries = _
    rw [ih hrest, hentries, List.append_assoc]
    rfl

theorem Writable.parts {d : Diagnostics} (h : d.Writable) (hkeys : d.tallies.keys.Nodup)
    {r : Record} (hr : r ∈ d.listing) : IsCode r.code ∧ IsMessage r.message := by
  obtain ⟨⟨code, tally⟩, hin, rfl⟩ := List.mem_map.mp hr
  apply h
  rw [message?, (Table.get?_eq_some_iff hkeys code tally).mpr hin]
  rfl

theorem writable_parse (text : String) : (parse text).Writable := by
  intro code message h
  obtain ⟨r, hr, rfl⟩ := Option.map_eq_some_iff.mp ((message?_records _ _).symm.trans h)
  have hcode : r.code = code := by simpa using List.find?_some hr
  rw [← hcode]
  exact Statistics.parts_of_mem_records (List.mem_of_find?_eq_some hr)

section Written
variable {d : Diagnostics} (hkeys : d.tallies.keys.Nodup) (hwritable : d.Writable)
variable {listed : List Record} {text : String} (hperm : listed.Perm d.listing)
variable (hwrites : Writes listed text)
include hkeys hwritable hperm hwrites

theorem entries_parse_of_writes : (parse text).tallies.entries = listed.map Record.entry := by
  have hrecords : records text = listed := by
    apply Statistics.records_of_writes hwrites
    intro r hr
    exact hwritable.parts hkeys (hperm.mem_iff.mp hr)
  have hcodes : (listed.map Record.code).Nodup := by
    rw [(hperm.map Record.code).nodup_iff, map_code_listing]
    exact hkeys
  rw [parse, hrecords]
  exact entries_recordAll hcodes

theorem listing_parse_of_writes : (parse text).listing = listed := by
  rw [listing, entries_parse_of_writes hkeys hwritable hperm hwrites, List.map_map]
  exact List.map_id _

theorem same_of_writes : (parse text).Same d := by
  have hentries : (parse text).tallies.entries.Perm d.tallies.entries := by
    rw [entries_parse_of_writes hkeys hwritable hperm hwrites, ← map_entry_listing]
    exact hperm.map Record.entry
  exact fun code => Table.get?_eq_of_perm hentries (nodup_keys_records (records text)) code

end Written

end Diagnostics

namespace Statistics

theorem padding_nil : Padding [] := fun _ hc => absurd hc List.not_mem_nil

theorem padding_space : Padding [' '] := by
  intro c hc
  rw [List.mem_singleton.mp hc]
  decide

/-- One blank between the parts of a line and none around them. -/
def Layout.plain : Layout where
  indent := []
  gap := [' ']
  space := [' ']
  trail := []
  indent_padding := padding_nil
  gap_padding := padding_space
  gap_ne_nil := List.cons_ne_nil _ _
  space_padding := padding_space
  space_ne_nil := List.cons_ne_nil _ _
  trail_padding := padding_nil

theorem writes_plain (rs : List Record) : Writes rs (ended (rs.map Layout.plain.line)) := by
  induction rs with
  | nil => exact .nil
  | cons r rest ih =>
    have hended : ended ((r :: rest).map Layout.plain.line) =
        Layout.plain.line r ++ "\n" ++ ended (rest.map Layout.plain.line) := by
      rw [List.map_cons, ended, List.map_cons, String.join_cons]
      rfl
    rw [hended]
    exact .entry .plain (.inl rfl) ih

end Statistics

/-- The entries in plain layout, one on each line. -/
def Diagnostics.print (d : Diagnostics) : String := ended (d.listing.map Layout.plain.line)

/-- Parsing gives diagnostics that can be written, and reads back all that is written: whatever the
layout, the entries come in the order in which they were written, and every look-up is as it was.
Writing what was parsed and parsing it again changes nothing. -/
theorem Diagnostics.parsing_undoes_writing :
    (∀ text, (parse text).Writable) ∧
    (∀ rs : List Record, (recordAll .empty rs).Writable → ∀ listed text,
      listed.Perm (recordAll .empty rs).listing → Writes listed text →
        (parse text).listing = listed ∧ (parse text).Same (recordAll .empty rs)) ∧
    (∀ text listed other, listed.Perm (parse text).listing → Writes listed other →
      (parse other).Same (parse text)) ∧
    ∀ text, Writes (parse text).listing (parse text).print ∧
      parse (parse text).print = parse text := by
  refine ⟨writable_parse, ?_, ?_, ?_⟩
  · intro rs hwritable listed text hperm hwrites
    have hkeys := nodup_keys_records rs
    exact ⟨listing_parse_of_writes hkeys hwritable hperm hwrites,
      same_of_writes hkeys hwritable hperm hwrites⟩
  · intro text listed other hperm hwrites
    exact same_of_writes (nodup_keys_records (records text)) (writable_parse text) hperm hwrites
  · intro text
    have hwrites := Statistics.writes_plain (parse text).listing
    have hentries := entries_parse_of_writes (nodup_keys_records (records text))
      (writable_parse text) (List.Perm.refl _) hwrites
    rw [map_entry_listing] at hentries
    rw [print]
    exact ⟨hwrites, eq_of_entries hentries⟩

example : (parse "banner\r\n\t0\x0bW605 \r\n  2 E501\u20037 E302 late \n").listing =
    [⟨"W605", 0, ""⟩, ⟨"E501", 2, "7 E302 late"⟩] := by decide

end StyleAudit
