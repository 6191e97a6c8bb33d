import Mathlib.Data.List.Basic
import StyleAudit.Presentation
import StyleAudit.Proofs.JsonReading
import StyleAudit.Proofs.Text

/-!
# Reading a report back

A report is read from a JSON value by the names of its members. Main statement: the one-line text
of a report is read back as the report itself, so the text tells any two reports apart. The numbers
of a report are counts, so writing its text never fails.
-/

namespace StyleAudit
set_option autoImplicit false

open Text

def Text.Json.member? : Json → String → Option Json
  | .object members, key => members.lookup key
  | _, _ => none

def Count.ofJson? : Json → Option Count
  | .number n => Count.ofNat? n
  | _ => none

namespace Breakdown

def ofJson? : Json → Option Breakdown
  | .object members =>
    (members.mapM fun m => (Count.ofJson? m.2).map (m.1, ·)).map Breakdown.mk
  | _ => none

end Breakdown

namespace Verdict

def flag? : Json → Option (Option Bool)
  | .null => some none
  | .bool b => some (some b)
  | _ => none

def errors? : Json → Option (Option Breakdown)
  | .null => some none
  | j => (Breakdown.ofJson? j).map some

def ofJson? (j : Json) : Option Verdict := do
  let pep ← (j.member? "pep").bind flag?
  let google ← (j.member? "google").bind flag?
  let errors ← (j.member? "errors").bind errors?
  return ⟨pep, google, errors⟩

end Verdict

namespace Slot

def ofJson? : Json → Option Slot
  | .null => some .notSupported
  | j => (Verdict.ofJson? j).map .checked

end Slot

namespace Report

def ofJson? (j : Json) : Option Report := do
  let naming ← (j.member? "naming_analysis").bind Slot.ofJson?
  let indentation ← (j.member? "indentation_analysis").bind Slot.ofJson?
  let tabsVsSpaces ← (j.member? "tabs_vs_spaces_analysis").bind Slot.ofJson?
  let lineLength ← (j.member? "line_length_analysis").bind Slot.ofJson?
  let blankLines ← (j.member? "blank_lines_analysis").bind Slot.ofJson?
  let imports ← (j.member? "import_analysis").bind Slot.ofJson?
  let fileEncoding ← (j.member? "file_encoding_analysis").bind Slot.ofJson?
  let total ← (j.member? "total_error_count").bind Count.ofJson?
  return ⟨naming, indentation, tabsVsSpaces, lineLength, blankLines, imports, fileEncoding, total⟩

end Report

theorem Text.Json.membersFit_eq_all (members : List (String × Json)) :
    Json.membersFit members = members.all fun m => m.2.fits := by
  induction members with
  | nil => rfl
  | cons m rest ih => rw [Json.membersFit, ih, List.all_cons]

theorem Count.fits_number (n : Count) : (Json.number n.toNat).fits = true :=
  decide_eq_true n.toNat_lt

namespace Breakdown

theorem fits_toJson (b : Breakdown) : b.toJson.fits = true := by
  rw [toJson, Json.fits, Json.membersFit_eq_all, List.all_map, List.all_eq_true]
  exact fun e _ => Count.fits_number e.2

theorem mapM_entries (entries : List (String × Count)) :
    (entries.map fun e => (e.1, Json.number e.2.toNat)).mapM
      (fun m => (Count.ofJson? m.2).map (m.1, ·)) = some entries := by
  induction entries with
  | nil => rfl
  | cons e rest ih =>
    have hcount : Count.ofJson? (.number e.2.toNat) = some e.2 := (ofNat?_eq_some_iff _ _).mpr rfl
    rw [List.map_cons, List.mapM_cons, ih, hcount]
    rfl

theorem ofJson?_toJson (b : Breakdown) : ofJson? b.toJson = some b := by
  rw [toJson, ofJson?, mapM_entries]
  rfl

end Breakdown

namespace Verdict

theorem fits_flagJson (flag : Option Bool) : (flagJson flag).fits = true := by
  cases flag <;> rfl

theorem fits_toJson (v : Verdict) : v.toJson.fits = true := by
  obtain ⟨pep, google, errors⟩ := v
  cases errors with
  | none => simp [toJson, Json.fits, Json.membersFit_eq_all, fits_flagJson]
  | some b => simp [toJson, Json.fits, Json.membersFit_eq_all, fits_flagJson, b.fits_toJson]

theorem flag?_flagJson (flag : Option Bool) : flag? (flagJson flag) = some flag := by
  cases flag <;> rfl

theorem errors?_toJson (b : Breakdown) : errors? b.toJson = some (some b) := by
  have hb := Breakdown.ofJson?_toJson b
  rw [Breakdown.toJson] at hb ⊢
  rw [errors?, hb]
  · rfl
  · exact Json.noConfusion

theorem ofJson?_toJson (v : Verdict) : ofJson? v.toJson = some v := by
  obtain ⟨pep, google, errors⟩ := v
  have hpep : ((Verdict.mk pep google errors).toJson.member? "pep").bind flag? = some pep :=
    flag?_flagJson pep
  have hgoogle : ((Verdict.mk pep google errors).toJson.member? "google").bind flag? =
      some google := flag?_flagJson google
  have herrors : ((Verdict.mk pep google errors).toJson.member? "errors").bind errors? =
      some errors := by
    cases errors with
    | none => rfl
    | some b => exact errors?_toJson b
  rw [ofJson?, hpep, hgoogle, herrors]
  rfl

end Verdict

namespace Slot

theorem fits_toJson (s : Slot) : s.toJson.fits = true := by
  cases s with
  | notSupported => rfl
  | checked v => exact v.fits_toJson

theorem ofJson?_toJson (s : Slot) : ofJson? s.toJson = some s := by
  cases s with
  | notSupported => rfl
  | checked v =>
    have hv := Verdict.ofJson?_toJson v
    rw [toJson, Verdict.toJson] at *
    rw [ofJson?, hv]
    · rfl
    · simp

end Slot

namespace Report

theorem fits_toJson (r : Report) : r.toJson.fits = true := by
  have hslots : (r.slots.map fun s => (s.1.name ++ "_analysis", s.2.toJson)).all
      (fun m => m.2.fits) = true := by
    simp [Slot.fits_toJson]
  have htotal : (Json.number r.total.toNat).fits = true := Count.fits_number r.total
  rw [toJson, Json.fits, Json.membersFit_eq_all, List.all_append, hslots, List.all_cons, htotal]
  rfl

/-- Every report can be written as JSON. -/
theorem compose_eq (r : Report) : r.compose = .ok r.toJson.render := by
  rw [compose, Json.write, if_pos r.fits_toJson]
  rfl

/-- Printing a report never fails, in any output mode. -/
theorem print_eq (r : Report) (d : Diagnostics) (mode : String) (coloured : Bool) :
    r.print d mode coloured = .ok (r.display d mode coloured) := by
  rw [print]
  split
  · rfl
  · next hmode =>
    rw [compose_eq, display, if_neg hmode]
    rfl

/-- The member of a report's value that holds a category. -/
def category? (j : Json) (c : Category) : Option Json := j.member? (c.name ++ "_analysis")

theorem category?_toJson (r : Report) (c : Category) :
    category? r.toJson c = some (r.slot c).toJson := by
  cases c <;> rfl

theorem slot_toJson (r : Report) (c : Category) {key : String} (hkey : c.name ++ "_analysis" = key) :
    (r.toJson.member? key).bind Slot.ofJson? = some (r.slot c) := by
  have hmember := category?_toJson r c
  rw [category?, hkey] at hmember
  rw [hmember, Option.bind_some, Slot.ofJson?_toJson]

theorem ofJson?_toJson (r : Report) : ofJson? r.toJson = some r := by
  have htotal : (r.toJson.member? "total_error_count").bind Count.ofJson? = some r.total :=
    (ofNat?_eq_some_iff _ _).mpr rfl
  rw [ofJson?, r.slot_toJson .naming (rfl : _ = "naming_analysis"),
    r.slot_toJson .indentation (rfl : _ = "indentation_analysis"),
    r.slot_toJson .tabsVsSpaces (rfl : _ = "tabs_vs_spaces_analysis"),
    r.slot_toJson .lineLength (rfl : _ = "line_length_analysis"),
    r.slot_toJson .blankLines (rfl : _ = "blank_lines_analysis"),
    r.slot_toJson .imports (rfl : _ = "import_analysis"),
    r.slot_toJson .fileEncoding (rfl : _ = "file_encoding_analysis"), htotal]
  rfl

end Report
end StyleAudit
