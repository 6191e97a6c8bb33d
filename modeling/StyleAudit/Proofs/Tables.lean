import Mathlib.Data.List.Nodup
import StyleAudit.Table

/-!
# The keys of a table

An update enters a key once: it changes the entry that is there or puts a new one at the end. So a
table that was filled by updates has no key twice, its look-ups do not depend on the order of the
entries, and a view of its values follows every update that the view can follow. Sorted by key, two
tables without a key twice list the same entries whenever their look-ups agree.
-/

namespace StyleAudit.Table
set_option autoImplicit false

variable {α β : Type}

theorem get?_eq_none_iff (t : Table α) (key : String) : t.get? key = none ↔ key ∉ t.keys := by
  obtain ⟨entries⟩ := t
  change find key entries = none ↔ key ∉ entries.map Prod.fst
  induction entries with
  | nil => simp [find]
  | cons e rest ih =>
    obtain ⟨k, v⟩ := e
    by_cases hk : k = key
    · simp [find, hk]
    · simp [find, hk, Ne.symm hk, ih]

theorem entries_alter_of_notMem (t : Table α) {key : String} (h : key ∉ t.keys)
    (f : Option α → α) : (t.alter key f).entries = t.entries ++ [(key, f none)] := by
  obtain ⟨entries⟩ := t
  change key ∉ entries.map Prod.fst at h
  change alterEntries key f entries = entries ++ [(key, f none)]
  induction entries with
  | nil => rfl
  | cons e rest ih =>
    rw [List.map_cons, List.mem_cons, not_or] at h
    rw [alterEntries, if_neg (Ne.symm h.1), ih h.2]
    rfl

theorem keys_alter_of_notMem (t : Table α) {key : String} (h : key ∉ t.keys)
    (f : Option α → α) : (t.alter key f).keys = t.keys ++ [key] := by
  rw [keys, entries_alter_of_notMem t h, List.map_append]
  rfl

theorem keys_alter_of_mem (t : Table α) {key : String} (h : key ∈ t.keys) (f : Option α → α) :
    (t.alter key f).keys = t.keys := by
  obtain ⟨entries⟩ := t
  change key ∈ entries.map Prod.fst at h
  change (alterEntries key f entries).map Prod.fst = entries.map Prod.fst
  induction entries with
  | nil => exact absurd h List.not_mem_nil
  | cons e rest ih =>
    obtain ⟨k, v⟩ := e
    by_cases hk : k = key
    · rw [alterEntries, if_pos hk]
      rfl
    · rw [List.map_cons, List.mem_cons] at h
      have hrest := h.resolve_left (Ne.symm hk)
      rw [alterEntries, if_neg hk, List.map_cons, List.map_cons, ih hrest]

theorem nodup_keys_alter {t : Table α} (h : t.keys.Nodup) (key : String) (f : Option α → α) :
    (t.alter key f).keys.Nodup := by
  by_cases hin : key ∈ t.keys
  · rw [keys_alter_of_mem t hin]
    exact h
  · rw [keys_alter_of_notMem t hin, ← List.concat_eq_append]
    exact h.concat hin

theorem keys_mapValues (t : Table α) (f : α → β) : (t.mapValues f).keys = t.keys := by
  rw [keys, mapValues, List.map_map]
  rfl

/-- An update passes through a view of the values if the view turns it into an update. -/
theorem mapValues_alter {view : α → β} {f : Option α → α} {g : Option β → β}
    (h : ∀ v, view (f v) = g (v.map view)) (t : Table α) (key : String) :
    (t.alter key f).mapValues view = (t.mapValues view).alter key g := by
  obtain ⟨entries⟩ := t
  refine congrArg Table.mk ?_
  change (alterEntries key f entries).map (fun e => (e.1, view e.2)) =
    alterEntries key g (entries.map fun e => (e.1, view e.2))
  induction entries with
  | nil => simp [alterEntries, h]
  | cons e rest ih =>
    obtain ⟨k, v⟩ := e
    by_cases hk : k = key
    · simp [alterEntries, hk, h]
    · simpa [alterEntries, hk] using ih

theorem get?_eq_some_iff {t : Table α} (h : t.keys.Nodup) (key : String) (value : α) :
    t.get? key = some value ↔ (key, value) ∈ t.entries := by
  obtain ⟨entries⟩ := t
  change (entries.map Prod.fst).Nodup at h
  change find key entries = some value ↔ (key, value) ∈ entries
  induction entries with
  | nil => simp [find]
  | cons e rest ih =>
    obtain ⟨k, v⟩ := e
    rw [List.map_cons, List.nodup_cons] at h
    by_cases hk : k = key
    · subst hk
      have hother : (k, value) ∉ rest := by
        intro hin
        apply h.1
        exact List.mem_map.mpr ⟨(k, value), hin, rfl⟩
      simp [find, hother, eq_comm]
    · simpa [find, hk, Ne.symm hk] using ih h.2

theorem get?_eq_of_perm {t t' : Table α} (hperm : t.entries.Perm t'.entries) (h : t.keys.Nodup)
    (key : String) : t.get? key = t'.get? key := by
  have h' : t'.keys.Nodup := (hperm.map Prod.fst).nodup_iff.mp h
  refine Option.ext fun value => ?_
  rw [get?_eq_some_iff h, get?_eq_some_iff h']
  exact hperm.mem_iff

theorem nodup_entries {t : Table α} (h : t.keys.Nodup) : t.entries.Nodup := h.of_map Prod.fst

theorem pairwise_sorted (t : Table α) :
    t.sorted.Pairwise fun a b => decide (a.1 ≤ b.1) = true := by
  refine List.pairwise_mergeSort ?_ ?_ t.entries
  · intro a b c hab hbc
    rw [decide_eq_true_eq] at *
    exact String.le_trans hab hbc
  · intro a b
    rw [Bool.or_eq_true, decide_eq_true_eq, decide_eq_true_eq]
    exact String.le_total a.1 b.1

theorem perm_sorted (t : Table α) : t.sorted.Perm t.entries := List.mergeSort_perm _ _

theorem sorted_eq_of_get?_eq {t t' : Table α} (h : t.keys.Nodup) (h' : t'.keys.Nodup)
    (hget : ∀ key, t.get? key = t'.get? key) : t.sorted = t'.sorted := by
  have hmem : ∀ e, e ∈ t.entries ↔ e ∈ t'.entries := fun ⟨key, value⟩ => by
    rw [← get?_eq_some_iff h, ← get?_eq_some_iff h', hget]
  have hentries : t.entries.Perm t'.entries :=
    (List.perm_ext_iff_of_nodup (nodup_entries h) (nodup_entries h')).mpr hmem
  refine List.Perm.eq_of_pairwise ?_ t.pairwise_sorted t'.pairwise_sorted
    (t.perm_sorted.trans (hentries.trans t'.perm_sorted.symm))
  intro a b ha hb hab hba
  have hkey : a.1 = b.1 := String.le_antisymm (of_decide_eq_true hab) (of_decide_eq_true hba)
  have ha := (get?_eq_some_iff h a.1 a.2).mpr (t.perm_sorted.mem_iff.mp ha)
  have hb := (get?_eq_some_iff h' b.1 b.2).mpr (t'.perm_sorted.mem_iff.mp hb)
  rw [hget, hkey, hb] at ha
  exact Prod.ext hkey (Option.some.inj ha).symm

end StyleAudit.Table
