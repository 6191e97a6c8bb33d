import StyleAudit.Proofs.Influence

/-!
# Judging a list of codes

A list of codes can be judged in one pass that carries a breakdown and a total along, and adds to
both when a listed code occurs. The total stops at the largest count on the way; it is the total of
the breakdown after every code, so it does not matter that the breakdown is summed up a second time.
Nothing depends on the list being free of repetitions: a code that is listed twice is found twice.
-/

namespace StyleAudit
set_option autoImplicit false

/-- The code has a counter above zero. -/
def Counters.Occurs (counters : Counters) (code : String) : Prop :=
  ∃ n, counters.get? code = some n ∧ 0 < n

theorem Counters.occurs_iff (counters : Counters) (code : String) :
    counters.Occurs code ↔ (counters.get? code).getD 0 ≠ 0 := by
  constructor
  · rintro ⟨n, hget, hpos⟩
    rw [hget]
    exact UInt64.pos_iff_ne_zero.mp hpos
  · intro hne
    cases hget : counters.get? code with
    | none => simp [hget] at hne
    | some n => exact ⟨n, hget, UInt64.pos_iff_ne_zero.mpr (by simpa [hget] using hne)⟩

namespace Breakdown

/-- Where all entries of a code have one count, it does not matter that the first one is read. -/
theorem get?_eq_some_iff {entries : List (String × Count)} (count : String → Count)
    (h : ∀ e ∈ entries, e.2 = count e.1) (code : String) (n : Count) :
    (Breakdown.mk entries).get? code = some n ↔ (code, n) ∈ entries := by
  rw [get?, Option.map_eq_some_iff]
  constructor
  · rintro ⟨e, he, rfl⟩
    have hcode : e.1 = code := by simpa using List.find?_some he
    rw [← hcode]
    exact List.mem_of_find?_eq_some he
  · intro hin
    cases hfind : entries.find? fun e => e.1 == code with
    | none =>
      have hnone := List.find?_eq_none.mp hfind (code, n) hin
      simp at hnone
    | some e =>
      have hcode : e.1 = code := by simpa using List.find?_some hfind
      have hfirst := h e (List.mem_of_find?_eq_some hfind)
      have hlisted := h (code, n) hin
      rw [hcode] at hfirst
      exact ⟨e, rfl, hfirst.trans hlisted.symm⟩

end Breakdown

namespace Verdict

theorem found_append (codes others : List String) (counters : Counters) :
    found (codes ++ others) counters = found codes counters ++ found others counters :=
  List.filterMap_append

/-- What one pass over a list of codes carries along. -/
structure Pass where
  breakdown : Breakdown := {}
  total : Count := 0

namespace Pass

def take (counters : Counters) (p : Pass) (code : String) : Pass :=
  match counters.get? code with
  | some n => if 0 < n then ⟨p.breakdown.push code n, p.total.plus n⟩ else p
  | none => p

def verdict (p : Pass) : Verdict × Count :=
  if p.breakdown.isEmpty then (compliant, 0)
  else (⟨some false, some false, some p.breakdown⟩, p.total)

def InStep (p : Pass) : Prop := p.total = p.breakdown.total

variable (counters : Counters)

theorem entries_take (p : Pass) (code : String) :
    (p.take counters code).breakdown.entries =
      p.breakdown.entries ++ found [code] counters := by
  unfold take found
  rw [List.filterMap_cons, List.filterMap_nil]
  cases counters.get? code with
  | none => exact (List.append_nil _).symm
  | some n =>
    by_cases hpos : 0 < n
    · simp only [if_pos hpos]
      rfl
    · simp only [if_neg hpos]
      exact (List.append_nil _).symm

theorem InStep.take {p : Pass} (h : p.InStep) (code : String) : (p.take counters code).InStep := by
  unfold Pass.take
  cases counters.get? code with
  | none => exact h
  | some n =>
    by_cases hpos : 0 < n
    · simp only [if_pos hpos]
      change p.total.plus n = Count.sum ((p.breakdown.entries ++ [(code, n)]).map Prod.snd)
      rw [h, List.map_append, Count.sum, List.foldl_append]
      rfl
    · simp only [if_neg hpos]
      exact h

theorem entries_run (codes : List String) (p : Pass) :
    (codes.foldl (take counters) p).breakdown.entries =
      p.breakdown.entries ++ found codes counters := by
  induction codes generalizing p with
  | nil => exact (List.append_nil _).symm
  | cons code rest ih =>
    have hcons := found_append [code] rest counters
    rw [List.singleton_append] at hcons
    rw [List.foldl_cons, ih, entries_take, hcons, List.append_assoc]

theorem InStep.run {p : Pass} (h : p.InStep) (codes : List String) :
    (codes.foldl (Pass.take counters) p).InStep := by
  induction codes generalizing p with
  | nil => exact h
  | cons code rest ih => exact ih (h.take counters code)

theorem ofCodes_eq_verdict (codes : List String) :
    ofCodes codes counters = (codes.foldl (take counters) {}).verdict := by
  have hentries : (codes.foldl (take counters) {}).breakdown = ⟨found codes counters⟩ :=
    congrArg Breakdown.mk (entries_run counters codes {})
  have hstart : InStep {} := rfl
  have htotal := hstart.run counters codes
  rw [ofCodes_eq, verdict, htotal, hentries]
  rfl

end Pass

section Findings
variable (codes : List String) (counters : Counters)

theorem found_eq_nil_iff : found codes counters = [] ↔ ∀ code ∈ codes, ¬counters.Occurs code := by
  rw [found_eq_map, List.map_eq_nil_iff, List.filter_eq_nil_iff]
  simp only [Counters.occurs_iff, decide_eq_true_eq]

/-- What can be read from a breakdown can be read from the findings, even if there are none. -/
theorem elim_errors_ofCodes {α : Type} (read : Breakdown → α) :
    (ofCodes codes counters).1.errors.elim (read {}) read = read ⟨found codes counters⟩ := by
  rw [ofCodes_eq]
  by_cases hempty : (found codes counters).isEmpty = true
  · rw [if_pos hempty, List.isEmpty_iff.mp hempty]
    rfl
  · rw [if_neg hempty]
    rfl

theorem entries_ofCodes :
    (ofCodes codes counters).1.errors.elim [] Breakdown.entries = found codes counters :=
  elim_errors_ofCodes codes counters Breakdown.entries

theorem get?_ofCodes (code : String) (n : Count) :
    ((ofCodes codes counters).1.errors.elim none fun b => b.get? code) = some n ↔
      code ∈ codes ∧ counters.get? code = some n ∧ 0 < n := by
  have hcounts : ∀ e ∈ found codes counters, e.2 = (counters.get? e.1).getD 0 :=
    fun e he => (mem_found.mp he).2.1
  have hread : ((ofCodes codes counters).1.errors.elim none fun b => b.get? code) =
      (Breakdown.mk (found codes counters)).get? code :=
    elim_errors_ofCodes codes counters fun b => b.get? code
  rw [hread, Breakdown.get?_eq_some_iff (fun code => (counters.get? code).getD 0) hcounts,
    mem_found]
  refine and_congr_right fun _ => ?_
  constructor
  · rintro ⟨hcount, hne⟩
    rw [hcount] at hne
    obtain ⟨k, hget, hpos⟩ := (counters.occurs_iff code).mpr hne
    obtain rfl : n = k := by rw [hcount, hget]; rfl
    exact ⟨hget, hpos⟩
  · rintro ⟨hget, hpos⟩
    rw [hget]
    exact ⟨rfl, UInt64.pos_iff_ne_zero.mp hpos⟩

theorem ofCodes_cases :
    ((∀ code ∈ codes, ¬counters.Occurs code) ∧ ofCodes codes counters = (compliant, 0)) ∨
    ((∃ code ∈ codes, counters.Occurs code) ∧ ofCodes codes counters =
      (⟨some false, some false, some ⟨found codes counters⟩⟩,
        Count.sum ((found codes counters).map Prod.snd))) := by
  rw [ofCodes_eq]
  by_cases hfound : found codes counters = []
  · refine .inl ⟨(found_eq_nil_iff codes counters).mp hfound, ?_⟩
    rw [if_pos (List.isEmpty_iff.mpr hfound)]
  · refine .inr ⟨?_, ?_⟩
    · by_contra hnone
      apply hfound
      rw [found_eq_nil_iff]
      exact fun code hcode hoccurs => hnone ⟨code, hcode, hoccurs⟩
    · rw [if_neg (by simpa using hfound)]

end Findings

/-- A verdict and a total that tell all that the counters say about a list of codes. -/
structure Exact (codes : List String) (counters : Counters) (v : Verdict) (total : Count) :
    Prop where
  guides_agree : v.pep = v.google
  passes_iff : v.pep = some true ∧ v.google = some true ∧ v.errors = none ↔
    ∀ code ∈ codes, ¬counters.Occurs code
  fails_iff : v.pep = some false ∧ v.google = some false ∧ v.errors ≠ none ↔
    ∃ code ∈ codes, counters.Occurs code
  entries : v.errors.elim [] Breakdown.entries =
    (codes.filter fun code => decide (0 < (counters.get? code).getD 0)).map fun code =>
      (code, (counters.get? code).getD 0)
  total_eq : total = v.errorTotal
  total_exact : total.toNat =
    min (2 ^ 64 - 1) ((v.errors.elim [] Breakdown.entries).map fun e => e.2.toNat).sum
  get?_iff : ∀ code n, (v.errors.elim none fun b => b.get? code) = some n ↔
    code ∈ codes ∧ counters.get? code = some n ∧ 0 < n

/-- Judging the codes of any list is one pass over them that carries a breakdown and a total, and
what it ends with is exact. A code that is listed twice is found twice. -/
theorem one_pass_judges_exactly (codes : List String) (counters : Counters) :
    ofCodes codes counters = (codes.foldl (Pass.take counters) {}).verdict ∧
      (ofCodes codes counters).1.Exact codes counters (ofCodes codes counters).2 := by
  refine ⟨Pass.ofCodes_eq_verdict counters codes, ?_⟩
  constructor
  case guides_agree =>
    obtain ⟨-, heq⟩ | ⟨-, heq⟩ := ofCodes_cases codes counters
    · rw [heq]
      rfl
    · rw [heq]
  case passes_iff =>
    obtain ⟨hnone, heq⟩ | ⟨⟨code, hcode, hoccurs⟩, heq⟩ := ofCodes_cases codes counters
    · rw [heq]
      exact iff_of_true ⟨rfl, rfl, rfl⟩ hnone
    · rw [heq]
      exact iff_of_false (by simp) fun hnone => hnone code hcode hoccurs
  case fails_iff =>
    obtain ⟨hnone, heq⟩ | ⟨hsome, heq⟩ := ofCodes_cases codes counters
    · rw [heq]
      exact iff_of_false (by simp [compliant]) fun ⟨code, hcode, h⟩ => hnone code hcode h
    · rw [heq]
      exact iff_of_true ⟨rfl, rfl, by simp⟩ hsome
  case entries =>
    rw [entries_ofCodes, found_eq_map]
    simp only [UInt64.pos_iff_ne_zero]
  case total_eq => exact (errorTotal_ofCodes codes counters).symm
  case total_exact =>
    rw [entries_ofCodes, toNat_ofCodes, ← sum_found, List.map_map]
    rfl
  case get?_iff => exact get?_ofCodes codes counters

example : ofCodes ["E301", "E302", "E301"] (.ofList [("E302", 0), ("E301", 2)]) =
    (⟨some false, some false, some ⟨[("E301", 2), ("E301", 2)]⟩⟩, 4) := by decide

end Verdict
end StyleAudit
