import StyleAudit.Proofs.Growth
import StyleAudit.Proofs.SummaryReading
import StyleAudit.Proofs.Tables

/-!
# What diagnostics know of their records

The count of a code adds up over its records, and its message is that of the first one, even if that
one had the count zero. A count and a message could as well be kept in two tables, each with its own
rule for a code that is there already: after any records both tables have the same keys, so a code
that occurs always has a message to show.
-/

namespace StyleAudit
set_option autoImplicit false

namespace Count

theorem zero_plus (n : Count) : plus 0 n = n := by
  have hfits := n.toNat_lt
  have hzero : (0 : Count).toNat = 0 := rfl
  apply UInt64.toNat_inj.mp
  rw [toNat_plus, hzero]
  omega

end Count

open Statistics (Record recordAll stated)

/-- Counts and messages in two tables. -/
structure Ledger where
  counters : Counters := .empty
  messages : Table String := .empty

/-- A count is added to the one before, and a message stays as it was. -/
def Ledger.record (l : Ledger) (r : Record) : Ledger where
  counters := l.counters.alter r.code fun before => (before.getD 0).plus r.count
  messages := l.messages.alter r.code fun before => before.getD r.message

def Ledger.ofRecords (rs : List Record) : Ledger := rs.foldl Ledger.record {}

namespace Diagnostics

def ledger (d : Diagnostics) : Ledger := ⟨d.counters, d.tallies.mapValues Tally.message⟩

theorem ledger_record (d : Diagnostics) (r : Record) :
    (d.record r.code r.count r.message).ledger = d.ledger.record r := by
  have hcounters : (d.record r.code r.count r.message).counters =
      d.counters.alter r.code fun before => (before.getD 0).plus r.count := by
    apply Table.mapValues_alter
    intro before
    cases before with
    | none => exact (Count.zero_plus r.count).symm
    | some t => rfl
  have hmessages : (d.record r.code r.count r.message).tallies.mapValues Tally.message =
      (d.tallies.mapValues Tally.message).alter r.code fun before => before.getD r.message := by
    apply Table.mapValues_alter
    intro before
    cases before <;> rfl
  rw [ledger, hcounters, hmessages]
  rfl

theorem ledger_recordAll (d : Diagnostics) (rs : List Record) :
    (recordAll d rs).ledger = rs.foldl Ledger.record d.ledger := by
  induction rs generalizing d with
  | nil => rfl
  | cons r rest ih =>
    rw [List.foldl_cons, ← ledger_record]
    exact ih _

theorem nodup_keys_recordAll {d : Diagnostics} (h : d.tallies.keys.Nodup) (rs : List Record) :
    (recordAll d rs).tallies.keys.Nodup := by
  induction rs generalizing d with
  | nil => exact h
  | cons r rest ih => exact ih (Table.nodup_keys_alter h _ _)

theorem nodup_keys_records (rs : List Record) : (recordAll .empty rs).tallies.keys.Nodup := by
  have hstart : (empty : Diagnostics).tallies.keys.Nodup := List.nodup_nil
  exact nodup_keys_recordAll hstart rs

theorem message?_eq_none_iff (d : Diagnostics) (code : String) :
    d.message? code = none ↔ code ∉ d.tallies.keys := by
  rw [message?, Option.map_eq_none_iff, Table.get?_eq_none_iff]

section Records
variable (rs : List Record) (code : String)

theorem message?_records :
    (recordAll .empty rs).message? code =
      (rs.find? fun r => r.code = code).map Record.message := by
  rw [message?_recordAll]
  rfl

theorem message?_records_eq_none_iff :
    (recordAll .empty rs).message? code = none ↔ ∀ r ∈ rs, r.code ≠ code := by
  rw [message?_records, Option.map_eq_none_iff, List.find?_eq_none]
  simp only [decide_eq_true_eq, ne_eq]

theorem toNat_count_records :
    ((recordAll .empty rs).count code).toNat = Count.capped (stated code rs) := by
  rw [Statistics.toNat_count_recordAll, count_empty]
  exact congrArg Count.capped (Nat.zero_add _)

theorem count_records_eq_zero_iff : (recordAll .empty rs).count code = 0 ↔ stated code rs = 0 := by
  have hzero : (0 : Count).toNat = 0 := rfl
  rw [← UInt64.toNat_inj, toNat_count_records, hzero, Count.capped]
  omega

theorem get?_counters_records : (recordAll .empty rs).counters.get? code =
    if ∃ r ∈ rs, r.code = code then some ((recordAll .empty rs).count code) else none := by
  have hnone := message?_records_eq_none_iff rs code
  rw [message?, Option.map_eq_none_iff] at hnone
  rw [get?_counters, count]
  cases htally : (recordAll .empty rs).tallies.get? code with
  | none =>
    have hno : ¬∃ r ∈ rs, r.code = code := by
      rintro ⟨r, hr, hcode⟩
      exact hnone.mp htally r hr hcode
    rw [if_neg hno]
    rfl
  | some t =>
    have hsome : ∃ r ∈ rs, r.code = code := by
      by_contra hno
      push Not at hno
      rw [hnone.mpr hno] at htally
      cases htally
    rw [if_pos hsome]
    rfl

end Records

/-- Listed by code, the counts of some records do not depend on the order of the records. -/
theorem sorted_counters_perm {rs rs' : List Record} (h : rs.Perm rs') :
    (recordAll .empty rs).counters.sorted = (recordAll .empty rs').counters.sorted := by
  have hkeys : ∀ rs, (recordAll .empty rs).counters.keys.Nodup := fun rs => by
    rw [counters, Table.keys_mapValues]
    exact nodup_keys_records rs
  refine Table.sorted_eq_of_get?_eq (hkeys rs) (hkeys rs') fun code => ?_
  have hcount : (recordAll .empty rs).count code = (recordAll .empty rs').count code := by
    apply UInt64.toNat_inj.mp
    rw [toNat_count_records, toNat_count_records, stated, stated, (h.map _).sum_eq]
  rw [get?_counters_records, get?_counters_records, hcount]
  simp only [h.mem_iff]

/-- The code that makes a file uncheckable, by the sums of what was recorded. -/
def FatalIn (rs : List Record) (code : String) : Prop :=
  (code = "E901" ∧ 0 < stated "E901" rs) ∨
    (code = "E902" ∧ stated "E901" rs = 0 ∧ 0 < stated "E902" rs)

theorem fatal_records_iff (rs : List Record) (code : String) :
    (recordAll .empty rs).Fatal code ↔ FatalIn rs code := by
  have hpos : ∀ other, 0 < (recordAll .empty rs).count other ↔ 0 < stated other rs := by
    intro other
    rw [UInt64.pos_iff_ne_zero, Nat.pos_iff_ne_zero, Ne, count_records_eq_zero_iff]
  rw [Fatal, FatalIn, hpos, hpos, count_records_eq_zero_iff]

theorem Fatal.unique {d : Diagnostics} {code other : String} (h : d.Fatal code)
    (h' : d.Fatal other) : code = other := by
  obtain ⟨rfl, hpos⟩ | ⟨rfl, hzero, -⟩ := h
  · obtain ⟨rfl, -⟩ | ⟨-, hzero, -⟩ := h'
    · rfl
    · exact absurd hzero (UInt64.pos_iff_ne_zero.mp hpos)
  · obtain ⟨-, hpos⟩ | ⟨rfl, -, -⟩ := h'
    · exact absurd hzero (UInt64.pos_iff_ne_zero.mp hpos)
    · rfl

theorem fatal?_eq_some_iff (d : Diagnostics) (code message : String) :
    d.fatal? = some (code, message) ↔ d.Fatal code ∧ d.message? code = some message := by
  obtain ⟨first, text, hfatal, hfirst, htext, -⟩ | ⟨hnone, hno⟩ := d.fatal?_cases
  · rw [hfatal]
    constructor
    · intro h
      obtain ⟨rfl, rfl⟩ := Prod.mk.inj (Option.some.inj h)
      exact ⟨hfirst, htext⟩
    · rintro ⟨hcode, hmessage⟩
      obtain rfl := hfirst.unique hcode
      rw [htext] at hmessage
      rw [Option.some.inj hmessage]
  · rw [hnone]
    exact iff_of_false (by simp) fun h => hno code h.1

/-- What diagnostics know of the records they were made from. -/
structure Keeps (d : Diagnostics) (rs : List Record) : Prop where
  count : ∀ code, (d.count code).toNat = min (2 ^ 64 - 1) (stated code rs)
  message : ∀ code, d.message? code = (rs.find? fun r => r.code = code).map Record.message
  unrecorded : ∀ code, d.message? code = none ↔ ∀ r ∈ rs, r.code ≠ code
  apart : d.ledger = .ofRecords rs
  same_keys : (Ledger.ofRecords rs).counters.keys = (Ledger.ofRecords rs).messages.keys
  keys_nodup : (Ledger.ofRecords rs).counters.keys.Nodup
  mem_keys : ∀ code, code ∈ (Ledger.ofRecords rs).counters.keys ↔ ∃ r ∈ rs, r.code = code
  sound : d.fatal? = none ↔ stated "E901" rs = 0 ∧ stated "E902" rs = 0
  fatal : ∀ code message, d.fatal? = some (code, message) ↔
    FatalIn rs code ∧ (rs.find? fun r => r.code = code).map Record.message = some message
  shown : ∀ code, 0 < d.count code → ∃ message, d.message? code = some message ∧
    ∀ coloured, d.detailLine coloured code =
      Record.detail coloured ⟨code, d.count code, message⟩ ++ "\n"

/-- Recording keeps the books: after any records each code has its sum and its first message, two
tables that are kept apart agree with that and with each other on their keys, and a code that occurs
has a message wherever one is shown. -/
theorem records_are_kept (rs : List Record) : (recordAll .empty rs).Keeps rs := by
  have hledger : (recordAll .empty rs).ledger = .ofRecords rs := ledger_recordAll .empty rs
  have hkeys : (Ledger.ofRecords rs).counters.keys = (recordAll .empty rs).tallies.keys := by
    rw [← hledger]
    exact Table.keys_mapValues _ _
  have hmessages : (Ledger.ofRecords rs).messages.keys = (recordAll .empty rs).tallies.keys := by
    rw [← hledger]
    exact Table.keys_mapValues _ _
  constructor
  case count => exact toNat_count_records rs
  case message => exact message?_records rs
  case unrecorded => exact message?_records_eq_none_iff rs
  case apart => exact hledger
  case same_keys => rw [hkeys, hmessages]
  case keys_nodup =>
    rw [hkeys]
    exact nodup_keys_records rs
  case mem_keys =>
    intro code
    rw [hkeys, ← not_iff_not, ← message?_eq_none_iff, message?_records_eq_none_iff]
    push Not
    rfl
  case sound =>
    rw [fatal?_eq_none_iff]
    simp only [CodeSet.fatalCodes, List.forall_mem_cons, count_records_eq_zero_iff,
      List.not_mem_nil, false_implies, implies_true, and_true]
  case fatal =>
    intro code message
    rw [fatal?_eq_some_iff, fatal_records_iff, message?_records]
  case shown =>
    intro code hpos
    obtain ⟨message, hmessage⟩ := message?_of_count_pos hpos
    refine ⟨message, hmessage, fun coloured => ?_⟩
    rw [detailLine, finding, hmessage]
    rfl

example : (recordAll .empty
    [⟨"E902", 0, "first"⟩, ⟨"E402", 1, "late"⟩, ⟨"E902", 2, "second"⟩]).fatal? =
      some ("E902", "first") := by decide

end Diagnostics
end StyleAudit
