import StyleAudit.Presentation
import StyleAudit.Proofs.Shelf
import StyleAudit.Proofs.Totals

/-!
# Reports in good order

A report keeps its total apart from its breakdowns, and its flags apart from both. With the naming
checker that runs a program they fit together in every report: no flag contradicts a breakdown, the
total is the sum of the breakdowns, and the footer names nobody exactly when the total is zero.
-/

namespace StyleAudit
set_option autoImplicit false

open StyleAudit.Count

/-- The codes of a category, in the order of its definition. -/
def Category.codes (category : Category) : List String :=
  if category = .naming then CodeSet.namingCodes
  else ((CodeSet.all.find? fun set => set.category = category).map CodeSet.codes).getD []

/-- A verdict on a list of codes whose flags and breakdown fit together. -/
structure Verdict.Sound (codes : List String) (v : Verdict) : Prop where
  guides_agree : v.pep = v.google
  clean_iff : v.errors = none ↔ v.pep = some true ∧ v.google = some true
  both_fail : v.errors ≠ none → v.pep = some false ∧ v.google = some false
  nonempty : ∀ b ∈ v.errors, b.entries ≠ []
  positive : ∀ b ∈ v.errors, ∀ e ∈ b.entries, 0 < e.2
  nodup : ∀ b ∈ v.errors, b.codes.Nodup
  ordered : ∀ b ∈ v.errors, b.codes.Sublist codes

def Slot.breakdown? (s : Slot) : Option Breakdown := s.verdict?.bind Verdict.errors

/-- A report whose slots, total, list of failing categories and footer fit together. -/
structure Report.Sound (r : Report) : Prop where
  encoding : r.fileEncoding = .notSupported
  checked : ∀ category, category ≠ .fileEncoding →
    ∃ v, r.slot category = .checked v ∧ v.Sound category.codes
  total : r.total.toNat = min (2 ^ 64 - 1) (r.slots.map fun s => s.2.errorTotal.toNat).sum
  failing : r.failing = Category.all.filter fun category => (r.slot category).breakdown?.isSome
  footer : " failing=none".toList <:+ r.footer.toList ↔ r.total = 0

namespace Verdict

theorem codes_found_sublist (codes : List String) (counters : Counters) :
    ((found codes counters).map Prod.fst).Sublist codes := by
  rw [found_eq_map, List.map_map]
  simp [Function.comp_def]

theorem found_pos {codes : List String} {counters : Counters} {e : String × Count}
    (h : e ∈ found codes counters) : 0 < e.2 := by
  rw [found_eq_map] at h
  obtain ⟨code, hcode, rfl⟩ := List.mem_map.mp h
  exact UInt64.pos_iff_ne_zero.mpr (by simpa using (List.mem_filter.mp hcode).2)

theorem ofCodes_sound {codes : List String} (h : codes.Nodup) (counters : Counters) :
    (ofCodes codes counters).1.Sound codes := by
  rw [ofCodes_eq]
  by_cases hempty : (found codes counters).isEmpty = true
  · rw [if_pos hempty]
    refine ⟨rfl, by simp [compliant], by simp [compliant], ?_, ?_, ?_, ?_⟩ <;>
      · intro b hb
        cases hb
  · rw [if_neg hempty]
    have hne : found codes counters ≠ [] := by simpa using hempty
    have hsub := codes_found_sublist codes counters
    refine ⟨rfl, by simp, by simp, ?_, ?_, ?_, ?_⟩ <;> (intro b hb; cases hb)
    · exact hne
    · exact fun e he => found_pos he
    · exact h.sublist hsub
    · exact hsub

theorem errorTotal_ofCodes (codes : List String) (counters : Counters) :
    (ofCodes codes counters).1.errorTotal = (ofCodes codes counters).2 := by
  rw [ofCodes_eq]
  split <;> rfl

namespace Sound
variable {codes : List String} {v : Verdict}

theorem isCompliant_eq (h : v.Sound codes) : v.isCompliant = v.errors.isNone := by
  rw [Bool.eq_iff_iff, Option.isNone_iff_eq_none, h.clean_iff]
  simp [isCompliant]

theorem errorTotal_eq_zero_iff (h : v.Sound codes) :
    v.errorTotal.toNat = 0 ↔ v.errors = none := by
  cases hb : v.errors with
  | none => simp [errorTotal, hb]
  | some b =>
    obtain ⟨e, rest, hentries⟩ := List.exists_cons_of_ne_nil (h.nonempty b hb)
    have hpos : 0 < e.2 := h.positive b hb e (by rw [hentries]; exact List.mem_cons_self)
    have hposNat : 0 < e.2.toNat := UInt64.lt_iff_toNat_lt.mp hpos
    have htotal : v.errorTotal.toNat = capped ((b.entries.map Prod.snd).map UInt64.toNat).sum := by
      rw [errorTotal, hb]
      exact toNat_sum _
    rw [htotal, hentries]
    -- Cutting off at the largest count leaves a positive sum positive.
    simp only [List.map_cons, List.sum_cons, capped, reduceCtorEq, iff_false]
    omega

end Sound
end Verdict

namespace Report

theorem footer_eq (r : Report) :
    r.footer = "— Summary — total_errors=" ++ toString r.total.toNat ++ " failing=" ++
      if (r.failing.map Category.name).isEmpty then "none"
      else ",".intercalate (r.failing.map Category.name) := rfl

theorem suffix_intercalate (sep last : String) (others : List String) :
    last.toList <:+ (sep.intercalate (others ++ [last])).toList := by
  by_cases h : others = []
  · simp only [h, List.nil_append, String.intercalate_singleton, List.suffix_rfl]
  · rw [String.intercalate_append_of_ne_nil h (List.cons_ne_nil last []),
      String.intercalate_singleton, String.toList_append]
    exact List.suffix_append _ _

theorem footer_none_iff (r : Report) :
    " failing=none".toList <:+ r.footer.toList ↔ r.failing = [] := by
  rw [footer_eq]
  rcases List.eq_nil_or_concat' r.failing with hnil | ⟨others, last, hlast⟩
  · refine iff_of_true ?_ hnil
    rw [hnil, List.map_nil, List.isEmpty_nil, if_pos rfl, String.append_assoc,
      String.toList_append]
    exact List.suffix_append _ _
  · refine iff_of_false ?_ (by simp [hlast])
    have hnonempty : (r.failing.map Category.name).isEmpty = false := by simp [hlast]
    rw [hnonempty, if_neg Bool.false_ne_true, String.toList_append, hlast, List.map_append]
    intro hnone
    -- Otherwise the name of the last failing category would end in `none`, and no name does.
    have hends : "none".toList <:+ last.name.toList := by
      have hlong : "none".toList.length ≤ last.name.toList.length := by cases last <;> decide
      have htail : "none".toList <:+ " failing=none".toList := by decide
      refine List.suffix_of_suffix_length_le (htail.trans hnone) ?_ hlong
      exact (suffix_intercalate "," last.name (others.map Category.name)).trans
        (List.suffix_append _ _)
    revert hends
    cases last <;> decide

theorem toNat_total_eq_sum (counters : Counters) {naming : Verdict × Count}
    (h : naming.1.errorTotal = naming.2) :
    (ofCounters counters naming).total.toNat =
      capped ((ofCounters counters naming).slots.map fun s => s.2.errorTotal.toNat).sum := by
  have hslots : (ofCounters counters naming).slots.map (fun s => s.2.errorTotal.toNat) =
      naming.1.errorTotal.toNat :: (CodeSet.all.map fun set =>
        (Verdict.ofCodes set.codes counters).1.errorTotal.toNat) ++ [0] := rfl
  change ((CodeSet.all.map fun set =>
    (Verdict.ofCodes set.codes counters).2).foldl Count.plus naming.2).toNat = _
  rw [hslots, toNat_foldl_plus, h]
  simp only [Verdict.errorTotal_ofCodes, List.map_map, Function.comp_def, List.cons_append,
    List.sum_cons, List.sum_append, List.sum_nil, Nat.add_zero]

section Slots
variable {r : Report} (hencoding : r.fileEncoding = .notSupported)
variable (hchecked : ∀ category, category ≠ .fileEncoding →
  ∃ v, r.slot category = .checked v ∧ v.Sound category.codes)
include hencoding hchecked

theorem slot_cases (category : Category) : r.slot category = .notSupported ∨
    ∃ v, r.slot category = .checked v ∧ v.Sound category.codes := by
  by_cases h : category = .fileEncoding
  · subst h
    exact .inl hencoding
  · exact .inr (hchecked category h)

theorem isFailing_eq (category : Category) :
    (r.slot category).isFailing = (r.slot category).breakdown?.isSome := by
  rcases slot_cases hencoding hchecked category with h | ⟨v, h, hv⟩
  · rw [h]
    rfl
  · rw [h]
    change (!v.isCompliant) = v.errors.isSome
    rw [hv.isCompliant_eq]
    cases v.errors <;> rfl

theorem errorTotal_eq_zero_iff (category : Category) :
    (r.slot category).errorTotal.toNat = 0 ↔ (r.slot category).isFailing = false := by
  rw [isFailing_eq hencoding hchecked]
  rcases slot_cases hencoding hchecked category with h | ⟨v, h, hv⟩
  · rw [h]
    exact iff_of_true rfl rfl
  · rw [h]
    change v.errorTotal.toNat = 0 ↔ v.errors.isSome = false
    rw [hv.errorTotal_eq_zero_iff]
    simp

theorem total_eq_zero_iff
    (htotal : r.total.toNat = capped (r.slots.map fun s => s.2.errorTotal.toNat).sum) :
    r.total = 0 ↔ r.failing = [] := by
  have hsum : r.total = 0 ↔ (r.slots.map fun s => s.2.errorTotal.toNat).sum = 0 := by
    rw [← UInt64.toNat_inj, htotal, capped]
    change min _ _ = 0 ↔ _
    omega
  rw [hsum, List.sum_eq_zero_iff_forall_eq_nat, failing, List.filter_eq_nil_iff]
  simp [slots, errorTotal_eq_zero_iff hencoding hchecked]

end Slots

theorem sound_ofCounters (counters found : Counters) :
    (ofCounters counters (Verdict.ofCodes CodeSet.namingCodes found)).Sound := by
  have hencoding : (ofCounters counters
      (Verdict.ofCodes CodeSet.namingCodes found)).fileEncoding = .notSupported := rfl
  have hchecked : ∀ category, category ≠ .fileEncoding → ∃ v,
      (ofCounters counters (Verdict.ofCodes CodeSet.namingCodes found)).slot category =
        .checked v ∧ v.Sound category.codes := by
    intro category hcategory
    have hnodup : category.codes.Nodup := by
      cases category <;> decide
    cases category with
    | fileEncoding => exact absurd rfl hcategory
    | naming => exact ⟨_, rfl, Verdict.ofCodes_sound hnodup found⟩
    | _ => exact ⟨_, rfl, Verdict.ofCodes_sound hnodup counters⟩
  have htotal := toNat_total_eq_sum counters (Verdict.errorTotal_ofCodes CodeSet.namingCodes found)
  refine ⟨hencoding, hchecked, htotal, ?_, ?_⟩
  · exact List.filter_congr fun category _ => isFailing_eq hencoding hchecked category
  · rw [footer_none_iff, total_eq_zero_iff hencoding hchecked htotal]

end Report

/-- A naming verdict of the program's checker is a judgement of the naming codes by some counters,
those of the output file or those of standard output. -/
theorem Checker.namingResults_eq_ok {σ : Type} {c : Checker} {host : Host σ} {path : String}
    {s t : NamingState σ} {answer : Verdict × Count}
    (h : c.namingResults host path s = (.ok answer, t)) :
    ∃ counters, answer = Verdict.ofCodes CodeSet.namingCodes counters := by
  unfold namingResults at h
  obtain ⟨⟨⟩, s₁, -, h⟩ := Step.bind_eq_ok h
  obtain ⟨dir, s₂, -, h⟩ := Step.bind_eq_ok h
  obtain ⟨⟨⟩, s₃, -, h⟩ := Step.bind_eq_ok h
  obtain ⟨outcome, s₄, -, h⟩ := Step.bind_eq_ok h
  obtain ⟨text, s₅, -, h⟩ := Step.bind_eq_ok h
  exact ⟨_, (Except.ok.inj (congrArg Prod.fst h)).symm⟩

/-- Every report made with the naming checker that runs a program is in good order, whatever the
counters are and however the program and the system behave. -/
theorem Checker.reports_are_sound {σ : Type} (c : Checker) (host : Host σ) (counters : Counters)
    (path : String) (s t : NamingState σ) (report : Report)
    (hbuilt : Audit.buildReport (c.namingChecker host) counters path s = (.ok report, t)) :
    report.Sound := by
  rw [Audit.buildReport_apply] at hbuilt
  rcases hcall : (c.namingChecker host).results path s with ⟨f | answer, u⟩
  · rw [hcall] at hbuilt
    cases hbuilt
  · rw [hcall] at hbuilt
    cases hbuilt
    obtain ⟨found, rfl⟩ := Checker.namingResults_eq_ok hcall
    exact Report.sound_ofCounters counters found

/-- Two naming errors from the output file and three of line length; a code that occurs zero times
makes no category fail. -/
theorem Checker.sound_on_the_shelf :
    let c : Checker := ⟨"lint", [], none⟩
    ∃ report t, Audit.buildReport (c.namingChecker Shelf.host)
        (.ofList [("E501", 3), ("E401", 0)]) "bad.py" { world := {} } = (.ok report, t) ∧
      report.failing = [.naming, .lineLength] ∧ report.total = 5 ∧ report.Sound := by
  intro c
  refine ⟨_, _, rfl, by decide, by decide, ?_⟩
  exact Checker.reports_are_sound c Shelf.host (.ofList [("E501", 3), ("E401", 0)]) "bad.py"
    { world := {} } _ _ rfl

end StyleAudit
