import Mathlib.Data.List.Nodup
import Mathlib.Data.List.Pairwise
import StyleAudit.Proofs.SoundReport

/-!
# What a counter can change

A report reads the counters through the codes of its code sets only, and a missing counter reads as
zero. Since no code stands in two sets, a counter has one category, and the verdicts on the others
do not see it. Main statement: setting the counter of a code changes at most the entry of that code
in the breakdown of its own category, and the total.
-/

namespace StyleAudit
set_option autoImplicit false

/-- The entries of a slot's breakdown; a slot without a breakdown has none. -/
def Slot.findings (s : Slot) : List (String × Count) :=
  match s.breakdown? with
  | some b => b.entries
  | none => []

namespace Table
variable {α : Type}

theorem get?_insert (t : Table α) (key other : String) (value : α) :
    (t.insert key value).get? other = if other = key then some value else t.get? other :=
  get?_alter t key other fun _ => value

theorem get?_erase (t : Table α) (key other : String) :
    (t.erase key).get? other = if other = key then none else t.get? other := by
  obtain ⟨entries⟩ := t
  change find other (entries.filter fun e => !decide (e.1 = key)) =
    if other = key then none else find other entries
  induction entries with
  | nil => simp [find]
  | cons e rest ih =>
    obtain ⟨k, v⟩ := e
    by_cases hk : k = key
    · subst hk
      by_cases ho : other = k
      · subst ho
        simpa using ih
      · simpa [find, ho, Ne.symm ho] using ih
    · by_cases ho : k = other
      · subst ho
        simp [find, hk]
      · simpa [find, hk, ho] using ih

end Table

namespace Verdict

theorem mem_found {codes : List String} {counters : Counters} {code : String} {n : Count} :
    (code, n) ∈ found codes counters ↔
      code ∈ codes ∧ n = (counters.get? code).getD 0 ∧ n ≠ 0 := by
  rw [found_eq_map, List.mem_map]
  constructor
  · rintro ⟨listed, hlisted, heq⟩
    obtain ⟨rfl, rfl⟩ := Prod.mk.inj heq
    obtain ⟨hin, hne⟩ := List.mem_filter.mp hlisted
    exact ⟨hin, rfl, by simpa using hne⟩
  · rintro ⟨hin, rfl, hne⟩
    exact ⟨code, List.mem_filter.mpr ⟨hin, by simpa using hne⟩, rfl⟩

theorem found_congr {codes : List String} {m m' : Counters}
    (h : ∀ code ∈ codes, (m.get? code).getD 0 = (m'.get? code).getD 0) :
    found codes m = found codes m' := by
  have hfilter : (codes.filter fun code => decide ((m.get? code).getD 0 ≠ 0)) =
      codes.filter fun code => decide ((m'.get? code).getD 0 ≠ 0) := by
    refine List.filter_congr fun code hcode => ?_
    rw [h code hcode]
  rw [found_eq_map, found_eq_map, hfilter]
  refine List.map_congr_left fun code hcode => ?_
  rw [h code (List.mem_filter.mp hcode).1]

theorem ofCodes_congr {codes : List String} {m m' : Counters}
    (h : ∀ code ∈ codes, (m.get? code).getD 0 = (m'.get? code).getD 0) :
    ofCodes codes m = ofCodes codes m' := by
  rw [ofCodes_eq, ofCodes_eq, found_congr h]

theorem filter_found (p : String → Bool) (codes : List String) (counters : Counters) :
    (found codes counters).filter (fun e => p e.1) = found (codes.filter p) counters := by
  rw [found_eq_map, found_eq_map, List.filter_map, List.filter_filter, List.filter_filter]
  congr 1
  refine List.filter_congr fun code _ => ?_
  exact Bool.and_comm _ _

theorem findings_ofCodes (codes : List String) (counters : Counters) :
    (Slot.checked (ofCodes codes counters).1).findings = found codes counters := by
  rw [ofCodes_eq]
  split
  · rename_i hempty
    exact (List.isEmpty_iff.mp hempty).symm
  · rfl

end Verdict

namespace CodeSet

/-- A code is in one code set at most. -/
theorem eq_of_mem_codes {set other : CodeSet} {code : String} (hset : set ∈ all)
    (hother : other ∈ all) (h : code ∈ set.codes) (h' : code ∈ other.codes) : set = other := by
  by_contra hne
  have hdisjoint := (List.nodup_flatMap.mp judged_nodup).2
  have hsymm : Std.Symm (Function.onFun List.Disjoint codes) := ⟨fun _ _ h _ hb ha => h ha hb⟩
  exact hdisjoint.forall hset hother hne h h'

theorem category_cases (category : Category) : category = .naming ∨ category = .fileEncoding ∨
    ∃ set ∈ all, set.category = category := by
  cases category with
  | naming => exact .inl rfl
  | fileEncoding => exact .inr (.inl rfl)
  | indentation => exact .inr (.inr ⟨indentation, by simp [all], rfl⟩)
  | tabsVsSpaces => exact .inr (.inr ⟨tabsVsSpaces, by simp [all], rfl⟩)
  | lineLength => exact .inr (.inr ⟨lineLength, by simp [all], rfl⟩)
  | blankLines => exact .inr (.inr ⟨blankLines, by simp [all], rfl⟩)
  | imports => exact .inr (.inr ⟨imports, by simp [all], rfl⟩)

theorem notMem_codes_of_unjudged {code : String} (h : code ∈ namingCodes ++ fatalCodes) :
    ∀ set ∈ all, code ∉ set.codes := by
  have hapart : ∀ c ∈ namingCodes ++ fatalCodes, ∀ set ∈ all, c ∉ set.codes := by decide
  exact hapart code h

end CodeSet

namespace Report

theorem slot_ofCounters (counters : Counters) (naming : Verdict × Count) {set : CodeSet}
    (h : set ∈ CodeSet.all) :
    (ofCounters counters naming).slot set.category =
      .checked (Verdict.ofCodes set.codes counters).1 := by
  simp only [CodeSet.all, List.mem_cons, List.not_mem_nil, or_false] at h
  rcases h with rfl | rfl | rfl | rfl | rfl <;> rfl

theorem ofCounters_congr {m m' : Counters} (naming : Verdict × Count)
    (h : ∀ code ∈ CodeSet.judged, (m.get? code).getD 0 = (m'.get? code).getD 0) :
    ofCounters m naming = ofCounters m' naming := by
  have hjudged : CodeSet.all.map (fun set => Verdict.ofCodes set.codes m) =
      CodeSet.all.map fun set => Verdict.ofCodes set.codes m' := by
    refine List.map_congr_left fun set hset => Verdict.ofCodes_congr ?_
    intro code hcode
    exact h code ((CodeSet.mem_judged code).mpr ⟨set, hset, hcode⟩)
  simp only [ofCounters, hjudged]

theorem ofCounters_eq_of_counts {d d' : Diagnostics} (naming : Verdict × Count)
    (h : ∀ code ∈ CodeSet.judged, d.count code = d'.count code) :
    ofCounters d.counters naming = ofCounters d'.counters naming := by
  apply ofCounters_congr
  intro code hcode
  rw [Diagnostics.getD_counters, Diagnostics.getD_counters, h code hcode]

/-- Two reports that differ at most in what one category finds about one code, and in the total. -/
structure SameBut (category : Category) (code : String) (r r' : Report) : Prop where
  others : ∀ other, other ≠ category → r'.slot other = r.slot other
  entries : ((r'.slot category).findings.filter fun e => e.1 ≠ code) =
    (r.slot category).findings.filter fun e => e.1 ≠ code

theorem sameBut_insert (counters : Counters) (naming : Verdict × Count) (n : Count) {set : CodeSet}
    {code : String} (hset : set ∈ CodeSet.all) (hcode : code ∈ set.codes) :
    SameBut set.category code (ofCounters counters naming)
      (ofCounters (counters.insert code n) naming) := by
  have hread : ∀ other, other ≠ code →
      ((counters.insert code n).get? other).getD 0 = (counters.get? other).getD 0 := by
    intro other hne
    rw [Table.get?_insert, if_neg hne]
  constructor
  · intro other hother
    rcases CodeSet.category_cases other with rfl | rfl | ⟨second, hsecond, rfl⟩
    · rfl
    · rfl
    · rw [slot_ofCounters _ _ hsecond, slot_ofCounters _ _ hsecond]
      refine congrArg (fun v => Slot.checked v.1) (Verdict.ofCodes_congr fun listed hlisted => ?_)
      apply hread
      rintro rfl
      exact hother (congrArg CodeSet.category
        (CodeSet.eq_of_mem_codes hsecond hset hlisted hcode))
  · simp only [slot_ofCounters _ _ hset, Verdict.findings_ofCodes]
    rw [Verdict.filter_found (fun c => decide (c ≠ code)),
      Verdict.filter_found (fun c => decide (c ≠ code))]
    refine Verdict.found_congr fun listed hlisted => hread listed ?_
    simpa using (List.mem_filter.mp hlisted).2

theorem mem_findings_insert (counters : Counters) (naming : Verdict × Count) (n k : Count)
    {set : CodeSet} {code : String} (hset : set ∈ CodeSet.all) (hcode : code ∈ set.codes) :
    (code, k) ∈ ((ofCounters (counters.insert code n) naming).slot set.category).findings ↔
      k = n ∧ n ≠ 0 := by
  rw [slot_ofCounters _ _ hset, Verdict.findings_ofCodes, Verdict.mem_found, Table.get?_insert,
    if_pos rfl, Option.getD_some]
  constructor
  · rintro ⟨-, rfl, hne⟩
    exact ⟨rfl, hne⟩
  · rintro ⟨rfl, hne⟩
    exact ⟨hcode, rfl, hne⟩

theorem ofCounters_insert_of_notMem (counters : Counters) (naming : Verdict × Count) (n : Count)
    {code : String} (h : ∀ set ∈ CodeSet.all, code ∉ set.codes) :
    ofCounters (counters.insert code n) naming = ofCounters counters naming := by
  apply ofCounters_congr
  intro judged hjudged
  obtain ⟨set, hset, hin⟩ := (CodeSet.mem_judged judged).mp hjudged
  have hne : judged ≠ code := by
    rintro rfl
    exact h set hset hin
  rw [Table.get?_insert, if_neg hne]

theorem ofCounters_insert_zero (counters : Counters) (naming : Verdict × Count) (code : String) :
    ofCounters (counters.insert code 0) naming = ofCounters (counters.erase code) naming := by
  apply ofCounters_congr
  intro judged _
  rw [Table.get?_insert, Table.get?_erase]
  split <;> rfl

/-- Reports of one file from two counter tables that differ in one code. A code of no code set, such
as a naming code or a fatal one, changes nothing. A code of a code set changes the entry of that
code in the breakdown of its category, which then holds the new count unless it is zero; every other
entry and every other slot stays. A count of zero is no count, and each slot of a code set is the
judgement of its own codes. -/
theorem each_code_has_its_category {τ : Type} (naming : NamingChecker τ) (path : String) (s : τ)
    (answer : Verdict × Count) (hnaming : (naming.results path s).1 = .ok answer)
    (counters : Counters) (code : String) (n : Count) :
    ∃ before after removed : Report,
      (Audit.buildReport naming counters path s).1 = .ok before ∧
      (Audit.buildReport naming (counters.insert code n) path s).1 = .ok after ∧
      (Audit.buildReport naming (counters.erase code) path s).1 = .ok removed ∧
      ((∀ set ∈ CodeSet.all, code ∉ set.codes) → after = before) ∧
      (code ∈ CodeSet.namingCodes ++ CodeSet.fatalCodes → ∀ set ∈ CodeSet.all, code ∉ set.codes) ∧
      (∀ set ∈ CodeSet.all, code ∈ set.codes → before.SameBut set.category code after ∧
        ∀ k, (code, k) ∈ (after.slot set.category).findings ↔ k = n ∧ n ≠ 0) ∧
      (n = 0 → after = removed) ∧
      ∀ set ∈ CodeSet.all,
        before.slot set.category = .checked (Verdict.ofCodes set.codes counters).1 ∧
        after.slot set.category = .checked (Verdict.ofCodes set.codes (counters.insert code n)).1 := by
  have hbuilt : ∀ m, (Audit.buildReport naming m path s).1 = .ok (ofCounters m answer) := by
    intro m
    rw [Audit.buildReport_apply, hnaming]
    rfl
  refine ⟨_, _, _, hbuilt _, hbuilt _, hbuilt _, ?_, CodeSet.notMem_codes_of_unjudged, ?_, ?_, ?_⟩
  · exact ofCounters_insert_of_notMem counters answer n
  · intro set hset hcode
    exact ⟨sameBut_insert counters answer n hset hcode,
      fun k => mem_findings_insert counters answer n k hset hcode⟩
  · rintro rfl
    exact ofCounters_insert_zero counters answer code
  · intro set hset
    exact ⟨slot_ofCounters _ _ hset, slot_ofCounters _ _ hset⟩

/-- A second import code beside a finding of line length. -/
theorem category_of_late_import :
    let naming : NamingChecker Unit := ⟨fun _ => pure (.compliant, 0), pure ()⟩
    let counters : Counters := .ofList [("E501", 3), ("E401", 1)]
    ∃ before after,
      (Audit.buildReport naming counters "a.py" ()).1 = .ok before ∧
      (Audit.buildReport naming (counters.insert "E402" 2) "a.py" ()).1 = .ok after ∧
      before.SameBut .imports "E402" after ∧
      (before.slot .imports).findings = [("E401", 1)] ∧
      (after.slot .imports).findings = [("E401", 1), ("E402", 2)] := by
  intro naming counters
  obtain ⟨before, after, removed, hbefore, hafter, -, -, -, hown, -, hjudged⟩ :=
    each_code_has_its_category naming "a.py" () (.compliant, 0) rfl counters "E402" 2
  have himports : CodeSet.imports ∈ CodeSet.all := by simp [CodeSet.all]
  obtain ⟨hsame, -⟩ := hown .imports himports (by decide)
  obtain ⟨hold, hnew⟩ := hjudged .imports himports
  refine ⟨before, after, hbefore, hafter, hsame, ?_, ?_⟩
  · change (before.slot CodeSet.imports.category).findings = _
    rw [hold]
    decide
  · change (after.slot CodeSet.imports.category).findings = _
    rw [hnew]
    decide

end Report
end StyleAudit
