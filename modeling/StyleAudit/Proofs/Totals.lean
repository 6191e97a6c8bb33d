import Mathlib.Algebra.BigOperators.Group.List.Basic
import Mathlib.Algebra.Ring.Nat
import StyleAudit.Proofs.Pipeline

/-!
# Where the error total comes from

Counts are added in three places: over the lines of a code, over the codes of a verdict and over the
verdicts of a report. Every addition stops at the largest count. Stopping on the way is the same as
stopping once at the end, and no code stands in two code sets, so the total of a report is the sum
over the lines that were read.
-/

namespace StyleAudit
set_option autoImplicit false

namespace Count

/-- A number, or the largest count when the number is larger. -/
def capped (n : Nat) : Nat := min (2 ^ 64 - 1) n

theorem capped_toNat (c : Count) : capped c.toNat = c.toNat := by
  have h := c.toNat_lt
  unfold capped
  omega

theorem capped_add_capped (a b : Nat) : capped (a + capped b) = capped (a + b) := by
  unfold capped
  omega

theorem capped_capped_add (a b : Nat) : capped (capped a + b) = capped (a + b) := by
  unfold capped
  omega

theorem toNat_plus_eq_capped (a b : Count) : (plus a b).toNat = capped (a.toNat + b.toNat) :=
  toNat_plus a b

theorem toNat_foldl_plus (counts : List Count) (start : Count) :
    (counts.foldl plus start).toNat = capped (start.toNat + (counts.map UInt64.toNat).sum) := by
  induction counts generalizing start with
  | nil => simpa using (capped_toNat start).symm
  | cons n rest ih =>
    rw [List.foldl_cons, ih, toNat_plus_eq_capped, capped_capped_add, List.map_cons,
      List.sum_cons, Nat.add_assoc]

theorem toNat_sum (counts : List Count) :
    (sum counts).toNat = capped (counts.map UInt64.toNat).sum := by
  simpa [sum] using toNat_foldl_plus counts 0

/-- Sums that were cut off each for itself may be added up as if none had been. -/
theorem capped_sum_map_capped {α : Type} (f : α → Nat) (xs : List α) (a : Nat) :
    capped (a + (xs.map fun x => capped (f x)).sum) = capped (a + (xs.map f).sum) := by
  induction xs generalizing a with
  | nil => rfl
  | cons x rest ih =>
    simp only [List.map_cons, List.sum_cons]
    -- `x` joins the start of the sum, where its own cut-off may be left out.
    rw [← Nat.add_assoc, ih, Nat.add_right_comm, capped_add_capped, Nat.add_right_comm,
      Nat.add_assoc]

end Count

open StyleAudit.Count

namespace Table

theorem get?_mapValues {α β : Type} (t : Table α) (f : α → β) (key : String) :
    (t.mapValues f).get? key = (t.get? key).map f := by
  obtain ⟨entries⟩ := t
  change find key (entries.map fun e => (e.1, f e.2)) = (find key entries).map f
  induction entries with
  | nil => rfl
  | cons e rest ih =>
    obtain ⟨k, v⟩ := e
    by_cases h : k = key
    · simp [find, h]
    · simpa [find, h] using ih

end Table

namespace Diagnostics

theorem get?_counters (d : Diagnostics) (code : String) :
    d.counters.get? code = (d.tallies.get? code).map Tally.count :=
  Table.get?_mapValues _ _ _

theorem getD_counters (d : Diagnostics) (code : String) :
    (d.counters.get? code).getD 0 = d.count code := by
  rw [get?_counters, count]
  cases d.tallies.get? code <;> rfl

@[simp] theorem count_empty (code : String) : empty.count code = 0 := rfl

theorem toNat_count_record (d : Diagnostics) (code other : String) (n : Count) (message : String) :
    ((d.record code n message).count other).toNat =
      capped ((d.count other).toNat + if code = other then n.toNat else 0) := by
  by_cases h : code = other
  · subst h
    simp only [record, count, Table.get?_alter, if_true]
    cases d.tallies.get? code with
    | none => simpa using (capped_toNat n).symm
    | some t => exact toNat_plus_eq_capped t.count n
  · have h' : ¬other = code := fun e => h e.symm
    simp [record, count, h, h', capped_toNat]

end Diagnostics

namespace Statistics

def stated (code : String) (rs : List Record) : Nat :=
  (rs.map fun r => if r.code = code then r.count.toNat else 0).sum

theorem toNat_count_recordAll (d : Diagnostics) (rs : List Record) (code : String) :
    ((recordAll d rs).count code).toNat = capped ((d.count code).toNat + stated code rs) := by
  induction rs generalizing d with
  | nil => simpa [stated, recordAll] using (capped_toNat (d.count code)).symm
  | cons r rest ih =>
    change ((recordAll (d.record r.code r.count r.message) rest).count code).toNat = _
    rw [ih, Diagnostics.toNat_count_record, capped_capped_add, stated, stated, List.map_cons,
      List.sum_cons, Nat.add_assoc]

theorem toNat_count_parse (text : String) (code : String) :
    ((parse text).count code).toNat = capped (stated code (records text)) := by
  simpa [parse] using toNat_count_recordAll .empty (records text) code

end Statistics

namespace Verdict

theorem ofCodes_eq (codes : List String) (counters : Counters) :
    ofCodes codes counters =
      if (found codes counters).isEmpty then (compliant, 0)
      else (⟨some false, some false, some ⟨found codes counters⟩⟩,
        Count.sum ((found codes counters).map Prod.snd)) := rfl

/-- The codes that occur, in list order, each with its count. A count of zero is no occurrence. -/
theorem found_eq_map (codes : List String) (counters : Counters) :
    found codes counters =
      (codes.filter fun code => decide ((counters.get? code).getD 0 ≠ 0)).map fun code =>
        (code, (counters.get? code).getD 0) := by
  induction codes with
  | nil => rfl
  | cons code rest ih =>
    simp only [found, List.filterMap_cons, List.filter_cons] at ih ⊢
    rcases hget : counters.get? code with _ | n
    · simpa using ih
    · by_cases h : n = 0
      · subst h
        simpa using ih
      · have hpos : 0 < n := UInt64.pos_iff_ne_zero.mpr h
        simp only [hpos, if_true, Option.getD_some, h, ne_eq, not_false_eq_true, decide_true,
          List.map_cons, hget, ih]

theorem sum_found (codes : List String) (counters : Counters) :
    (((found codes counters).map Prod.snd).map UInt64.toNat).sum =
      (codes.map fun code => ((counters.get? code).getD 0).toNat).sum := by
  induction codes with
  | nil => rfl
  | cons code rest ih =>
    simp only [found, List.filterMap_cons, List.map_cons, List.sum_cons] at ih ⊢
    rcases counters.get? code with _ | n
    · simpa using ih
    · by_cases h : 0 < n
      · simpa [h] using ih
      · have hn : n.toNat = 0 := by
          rw [UInt64.lt_iff_toNat_lt] at h
          simpa using h
        simpa [h, hn] using ih

/-- The number of errors of a verdict counts a code as often as it is listed. -/
theorem toNat_ofCodes (codes : List String) (counters : Counters) :
    (ofCodes codes counters).2.toNat =
      capped (codes.map fun code => ((counters.get? code).getD 0).toNat).sum := by
  rw [ofCodes_eq, ← sum_found]
  split
  · rename_i h
    rw [List.isEmpty_iff.mp h]
    rfl
  · exact toNat_sum _

end Verdict

namespace CodeSet

def judged : List String := all.flatMap codes

/-- No code is listed twice, neither in one code set nor in two. -/
theorem judged_nodup : judged.Nodup := by
  simp [judged, all, indentation, tabsVsSpaces, lineLength, blankLines, imports]

theorem mem_judged (code : String) : code ∈ judged ↔ ∃ set ∈ all, code ∈ set.codes :=
  List.mem_flatMap

end CodeSet

theorem Report.toNat_total (counters : Counters) (naming : Verdict × Count) :
    (Report.ofCounters counters naming).total.toNat =
      capped (naming.2.toNat +
        (CodeSet.judged.map fun code => ((counters.get? code).getD 0).toNat).sum) := by
  change ((CodeSet.all.map fun set =>
    (Verdict.ofCodes set.codes counters).2).foldl Count.plus naming.2).toNat = _
  simp only [toNat_foldl_plus, List.map_map, Function.comp_def, Verdict.toNat_ofCodes,
    capped_sum_map_capped]
  simp only [CodeSet.judged, List.flatMap, List.map_flatten, List.sum_flatten, List.map_map,
    Function.comp_def]

namespace Statistics

theorem sum_single {codes : List String} (h : codes.Nodup) (code : String) (n : Nat) :
    (codes.map fun listed => if code = listed then n else 0).sum =
      if code ∈ codes then n else 0 := by
  induction codes with
  | nil => rfl
  | cons listed rest ih =>
    obtain ⟨hnot, hrest⟩ := List.nodup_cons.mp h
    rw [List.map_cons, List.sum_cons, ih hrest]
    by_cases hc : code = listed
    · subst hc
      simp [hnot]
    · simp [hc]

/-- Adding up code by code or line by line is the same when no code is listed twice. -/
theorem sum_stated {codes : List String} (h : codes.Nodup) (rs : List Record) :
    (codes.map fun code => stated code rs).sum =
      (rs.map fun r => if r.code ∈ codes then r.count.toNat else 0).sum := by
  induction rs with
  | nil => simp [stated]
  | cons r rest ih =>
    simp only [stated, List.map_cons, List.sum_cons, List.sum_map_add, sum_single h] at ih ⊢
    rw [ih]

/-- What a line of a checker's output adds to the error total: its count when it is a statistics
line and its code is in one of the code sets, and otherwise nothing. -/
def lineShare (line : List Char) : Nat :=
  match Record.read? line with
  | some r => if ∃ set ∈ CodeSet.all, r.code ∈ set.codes then r.count.toNat else 0
  | none => 0

theorem sum_lineShare (text : String) :
    ((Text.lines text.toList).map lineShare).sum =
      ((records text).map fun r => if r.code ∈ CodeSet.judged then r.count.toNat else 0).sum := by
  unfold records
  induction Text.lines text.toList with
  | nil => rfl
  | cons line rest ih =>
    rw [List.map_cons, List.sum_cons, ih, lineShare, List.filterMap_cons]
    cases Record.read? line with
    | none => simp
    | some r => simp [CodeSet.mem_judged]

end Statistics

/-- The total of a report is the number of naming errors and the counts of all lines of the
checker's output that state a judged code, each line once, cut off at the largest count. -/
theorem Audit.total_counts_each_line_once {τ : Type} (isFile : τ → String → Bool)
    (engine : Engine τ) (naming : NamingChecker τ) (text name : String) (s t s' : τ)
    (verdict : Verdict) (n : Count) (audit : Audit)
    (hscan : engine.scan name s = (.ok (Statistics.parse text), t))
    (hnaming : (naming.results name t).1 = .ok (verdict, n))
    (hrun : Audit.run isFile engine naming name s = (.ok audit, s')) :
    audit.report.total.toNat =
      min (2 ^ 64 - 1)
        (n.toNat + ((Text.lines text.toList).map Statistics.lineShare).sum) := by
  obtain ⟨d, u, answer, hd, -, ha, rfl⟩ := run_eq_ok hrun
  obtain ⟨rfl, rfl⟩ : Statistics.parse text = d ∧ t = u := by
    rw [hscan] at hd
    cases hd
    exact ⟨rfl, rfl⟩
  obtain rfl : (verdict, n) = answer := Except.ok.inj (hnaming.symm.trans ha)
  change (Report.ofCounters _ _).total.toNat = capped _
  rw [Report.toNat_total, Statistics.sum_lineShare, ← Statistics.sum_stated CodeSet.judged_nodup]
  simp only [Diagnostics.getD_counters, Statistics.toNat_count_parse, capped_sum_map_capped]

/-- Two lines of one code that pass the limit together, another code set, noise, and a code that is
not judged. -/
theorem Audit.total_stops_at_largest_count :
    ∃ audit : Audit,
      Audit.run (fun _ _ => true)
        ⟨fun _ => pure (Statistics.parse
          "18446744073709551615 E501 a\n4 E302 b\r\nnoise\n2 E501 c\n5 N802 d")⟩
        ⟨fun _ => pure (.compliant, 1), pure ()⟩ "a b.py" () = (.ok audit, ()) ∧
      audit.report.total.toNat = 2 ^ 64 - 1 := by
  refine ⟨_, rfl, ?_⟩
  refine (Audit.total_counts_each_line_once (fun _ _ => true) ⟨fun _ => pure _⟩
    ⟨fun _ => pure (.compliant, 1), pure ()⟩
    "18446744073709551615 E501 a\n4 E302 b\r\nnoise\n2 E501 c\n5 N802 d" "a b.py" () () ()
    .compliant 1 _ rfl rfl rfl).trans ?_
  decide

end StyleAudit
