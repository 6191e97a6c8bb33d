import Mathlib.Data.List.Induction
import StyleAudit.Path

/-!
# Paths and the chain of their parents

A path without idle components is nothing but the spelling of its components. Its parent leaves the
last of them out, so the directories above it are the spellings of its first components.
-/

namespace StyleAudit.Path
set_option autoImplicit false

section Splitting

theorem split_ne_nil (cs : List Char) : split cs ≠ [] := by
  cases cs with
  | nil => simp [split]
  | cons c rest =>
    rw [split]
    split
    · simp
    · split <;> simp

theorem split_append_slash (cs rest : List Char) :
    split (cs ++ '/' :: rest) = split cs ++ split rest := by
  induction cs with
  | nil => simp [split]
  | cons c cs ih =>
    obtain ⟨s, more, hsplit⟩ := List.exists_cons_of_ne_nil (split_ne_nil cs)
    rw [hsplit] at ih
    by_cases hc : c = '/'
    · simp [split, hc, ih, hsplit]
    · simp [split, hc, ih, hsplit]

theorem split_of_slash_notMem {cs : List Char} (h : '/' ∉ cs) : split cs = [cs] := by
  induction cs with
  | nil => rfl
  | cons c rest ih =>
    simp only [List.mem_cons, not_or] at h
    rw [split, if_neg (Ne.symm h.1), ih h.2]

theorem slash_notMem_of_mem_split {cs : List Char} {s : Segment} (h : s ∈ split cs) : '/' ∉ s := by
  induction cs generalizing s with
  | nil =>
    rw [split, List.mem_singleton] at h
    simp [h]
  | cons c rest ih =>
    obtain ⟨t, more, hsplit⟩ := List.exists_cons_of_ne_nil (split_ne_nil rest)
    rw [hsplit] at ih
    by_cases hc : c = '/'
    · rw [split, if_pos hc, hsplit] at h
      rcases List.mem_cons.mp h with rfl | h
      · simp
      · exact ih h
    · rw [split, if_neg hc, hsplit] at h
      rcases List.mem_cons.mp h with rfl | h
      · have ht := ih List.mem_cons_self
        simp only [List.mem_cons, not_or]
        exact ⟨Ne.symm hc, ht⟩
      · exact ih (List.mem_cons_of_mem t h)

theorem unsplit_cons (s : Segment) {segments : List Segment} (h : segments ≠ []) :
    unsplit (s :: segments) = s ++ '/' :: unsplit segments := by
  cases segments with
  | nil => exact absurd rfl h
  | cons t more => rfl

theorem split_unsplit {segments : List Segment} (hne : segments ≠ [])
    (h : ∀ s ∈ segments, '/' ∉ s) : split (unsplit segments) = segments := by
  induction segments with
  | nil => exact absurd rfl hne
  | cons s more ih =>
    have hs : '/' ∉ s := h s List.mem_cons_self
    by_cases hmore : more = []
    · subst hmore
      exact split_of_slash_notMem hs
    · have hrest := ih hmore fun t ht => h t (List.mem_cons_of_mem s ht)
      rw [unsplit_cons s hmore, split_append_slash, split_of_slash_notMem hs, hrest]
      rfl

theorem unsplit_front (front rest : List Segment) : unsplit front <+: unsplit (front ++ rest) := by
  induction front with
  | nil => exact List.nil_prefix
  | cons s more ih =>
    by_cases hmore : more = []
    · subst hmore
      by_cases hrest : rest = []
      · simp [hrest]
      · rw [List.singleton_append, unsplit_cons s hrest]
        exact List.prefix_append s _
    · have happend : more ++ rest ≠ [] := by simp [hmore]
      rw [List.cons_append, unsplit_cons s hmore, unsplit_cons s happend,
        List.prefix_append_right_inj, List.cons_prefix_cons]
      exact ⟨rfl, ih⟩

end Splitting

section Components

/-- A component that is written out in a path without idle ones. -/
def Proper (s : Segment) : Prop := isIdle s = false ∧ '/' ∉ s

theorem Proper.ne_nil {s : Segment} (h : Proper s) : s ≠ [] := by
  rintro rfl
  exact absurd h.1 (by decide)

theorem Proper.ne_dot {s : Segment} (h : Proper s) : s ≠ ['.'] := by
  rintro rfl
  exact absurd h.1 (by decide)

/-- What a path starts with says nothing as a component. -/
theorem components_eq (path : String) :
    components path = (split path.toList).filter fun s => !isIdle s := by
  have hnil : isIdle [] = true := rfl
  have hdot : isIdle ['.'] = true := rfl
  change (parts path.toList).2.filter _ = _
  unfold parts
  split
  · rename_i heq
    simp [split, hnil, heq]
  · rename_i heq
    simp [split, hdot, heq]
  · rename_i rest heq
    obtain ⟨s, more, hsplit⟩ := List.exists_cons_of_ne_nil (split_ne_nil rest)
    simp [split, hnil, hdot, hsplit, heq]
  · rfl

theorem proper_of_mem_components {path : String} {s : Segment} (h : s ∈ components path) :
    Proper s := by
  rw [components_eq, List.mem_filter] at h
  exact ⟨by simpa using h.2, slash_notMem_of_mem_split h.1⟩

theorem components_join (dir path : String) :
    components (join dir path) =
      if isAbsolute path then components path else components dir ++ components path := by
  unfold join
  by_cases habs : isAbsolute path = true
  · simp [habs]
  · simp only [habs, Bool.false_eq_true, if_false, components_eq]
    split
    · rename_i hend
      rcases Bool.or_eq_true_iff.mp hend with hempty | hslash
      · have hdir : dir.toList = [] := by simpa using hempty
        rw [String.toList_append, hdir]
        simp [split, isIdle]
      · obtain ⟨front, hfront⟩ := List.getLast?_eq_some_iff.mp (beq_iff_eq.mp hslash)
        rw [String.toList_append, hfront, List.append_assoc, List.singleton_append,
          split_append_slash, split_append_slash]
        simp [split, isIdle]
    · rw [String.toList_append, String.toList_append, List.append_assoc]
      change List.filter _ (split (dir.toList ++ '/' :: path.toList)) = _
      rw [split_append_slash, List.filter_append]

theorem isAbsolute_join (dir path : String) :
    isAbsolute (join dir path) = (isAbsolute path || isAbsolute dir) := by
  unfold join
  cases hpath : isAbsolute path with
  | true => simp [hpath]
  | false =>
    rw [if_neg Bool.false_ne_true, Bool.false_or]
    cases hdir : dir.toList with
    | nil =>
      have hempty : dir.isEmpty = true := by simpa using hdir
      rw [hempty, Bool.true_or, if_pos rfl]
      simpa [isAbsolute, hdir] using hpath
    | cons c rest => split <;> simp [isAbsolute, hdir]

end Components

section Spelling

/-- The path that leads through components, from the root or from the current directory. -/
def spell (absolute : Bool) (components : List Segment) : String :=
  String.ofList ((if absolute then ['/'] else []) ++ unsplit components)

theorem normalize_eq_spell (path : String) :
    normalize path = spell (isAbsolute path) (components path) := rfl

def spelledStart (absolute : Bool) : Start := if absolute then .root else .relative

theorem parts_spell (absolute : Bool) {cs : List Segment} (h : ∀ s ∈ cs, Proper s) :
    parts (spell absolute cs).toList = (spelledStart absolute, split (unsplit cs)) := by
  rw [spell, String.toList_ofList]
  cases absolute with
  | true => rfl
  | false =>
    -- The first component is neither empty nor a dot, so the path does not start with one of them.
    cases cs with
    | nil => rfl
    | cons s more =>
      have hs := h s List.mem_cons_self
      obtain ⟨c, cs, rfl⟩ := List.exists_cons_of_ne_nil hs.ne_nil
      have hslash := hs.2
      have hdot := hs.ne_dot
      simp only [List.mem_cons, not_or] at hslash
      have hshape : ∃ tail, unsplit ((c :: cs) :: more) = c :: tail ∧
          (c = '.' → tail ≠ [] ∧ tail.head? ≠ some '/') := by
        cases cs with
        | nil =>
          have hc : c ≠ '.' := by simpa using hdot
          cases more with
          | nil => exact ⟨[], rfl, fun e => absurd e hc⟩
          | cons t more => exact ⟨_, rfl, fun e => absurd e hc⟩
        | cons d cs =>
          have hd : d ≠ '/' := by
            rintro rfl
            simp at hslash
          cases more with
          | nil => exact ⟨_, rfl, fun _ => by simpa using hd⟩
          | cons t more => exact ⟨_, rfl, fun _ => by simpa [unsplit] using hd⟩
      obtain ⟨tail, htail, hstart⟩ := hshape
      simp only [Bool.false_eq_true, if_false, List.nil_append, htail, spelledStart]
      unfold parts
      split
      · rename_i heq
        cases heq
        exact absurd rfl hslash.1
      · rename_i heq
        cases heq
        exact absurd rfl (hstart rfl).1
      · rename_i heq
        cases heq
        exact absurd rfl (hstart rfl).2
      · rfl

theorem components_spell (absolute : Bool) {cs : List Segment} (h : ∀ s ∈ cs, Proper s) :
    components (spell absolute cs) = cs := by
  unfold components
  rw [parts_spell absolute h]
  cases cs with
  | nil => rfl
  | cons s more =>
    rw [split_unsplit (List.cons_ne_nil s more) fun t ht => (h t ht).2]
    simp only [List.filter_eq_self, Bool.not_eq_true']
    exact fun t ht => (h t ht).1

end Spelling

section Parents

/-- The path without its last component, if it has one. What is idle before that component goes with
it. -/
def parent? (path : String) : Option String :=
  let (start, segments) := parts path.toList
  match segments.reverse.dropWhile isIdle with
  | [] => if start = .here then some "" else none
  | _ :: before =>
    some (String.ofList (start.chars ++ unsplit (before.dropWhile isIdle).reverse))

/-- A path and what one meets by going from parent to parent. -/
inductive Chain : String → List String → Prop
  | top {path : String} : parent? path = none → Chain path [path]
  | up {path above : String} {rest : List String} : parent? path = some above →
      Chain above rest → Chain path (path :: rest)

theorem dropWhile_isIdle {cs : List Segment} (h : ∀ s ∈ cs, Proper s) :
    cs.dropWhile isIdle = cs := by
  cases cs with
  | nil => rfl
  | cons s more => rw [List.dropWhile_cons, (h s List.mem_cons_self).1, if_neg Bool.false_ne_true]

theorem spell_eq_chars (absolute : Bool) (cs : List Segment) :
    spell absolute cs = String.ofList ((spelledStart absolute).chars ++ unsplit cs) := by
  cases absolute <;> rfl

theorem parent?_spell_nil (absolute : Bool) : parent? (spell absolute []) = none := by
  cases absolute <;> rfl

theorem parent?_spell_concat (absolute : Bool) {cs : List Segment} {c : Segment}
    (h : ∀ s ∈ cs ++ [c], Proper s) :
    parent? (spell absolute (cs ++ [c])) = some (spell absolute cs) := by
  have hcs : ∀ s ∈ cs.reverse, Proper s := by
    intro s hs
    exact h s (List.mem_append_left _ (List.mem_reverse.mp hs))
  have hc : isIdle c = false := (h c (by simp)).1
  unfold parent?
  rw [parts_spell absolute h, split_unsplit (by simp) fun s hs => (h s hs).2]
  simp only [List.reverse_append, List.reverse_singleton, List.singleton_append,
    List.dropWhile_cons, hc, Bool.false_eq_true, if_false, dropWhile_isIdle hcs,
    List.reverse_reverse]
  rw [spell_eq_chars]

theorem above_reverse_concat (start : Start) {cs : List Segment} {c : Segment}
    (h : ∀ s ∈ cs ++ [c], Proper s) :
    above start (cs ++ [c]).reverse = (start.chars ++ unsplit cs) :: above start cs.reverse := by
  have hcs : ∀ s ∈ cs.reverse, Proper s := by
    intro s hs
    exact h s (List.mem_append_left _ (List.mem_reverse.mp hs))
  have hc : isIdle c = false := (h c (by simp)).1
  rw [List.reverse_append, List.reverse_singleton, List.singleton_append, above, if_neg (by simp [hc]),
    dropWhile_isIdle hcs, List.reverse_reverse]

theorem ancestors_spell (absolute : Bool) {cs : List Segment} (h : ∀ s ∈ cs, Proper s) :
    ancestors (spell absolute cs) =
      spell absolute cs :: (above (spelledStart absolute) cs.reverse).map String.ofList := by
  unfold ancestors
  rw [parts_spell absolute h]
  cases cs with
  | nil => cases absolute <;> rfl
  | cons s more => rw [split_unsplit (List.cons_ne_nil s more) fun t ht => (h t ht).2]

theorem ancestors_spell_nil (absolute : Bool) :
    ancestors (spell absolute []) = [spell absolute []] := by
  cases absolute <;> rfl

theorem ancestors_spell_concat (absolute : Bool) {cs : List Segment} {c : Segment}
    (h : ∀ s ∈ cs ++ [c], Proper s) :
    ancestors (spell absolute (cs ++ [c])) =
      spell absolute (cs ++ [c]) :: ancestors (spell absolute cs) := by
  have hcs : ∀ s ∈ cs, Proper s := fun s hs => h s (List.mem_append_left _ hs)
  rw [ancestors_spell absolute h, ancestors_spell absolute hcs, above_reverse_concat _ h,
    List.map_cons, ← spell_eq_chars]

theorem chain_ancestors_spell (absolute : Bool) (cs : List Segment) (h : ∀ s ∈ cs, Proper s) :
    Chain (spell absolute cs) (ancestors (spell absolute cs)) := by
  induction cs using List.reverseRecOn with
  | nil =>
    rw [ancestors_spell_nil]
    exact .top (parent?_spell_nil absolute)
  | append_singleton cs c ih =>
    rw [ancestors_spell_concat absolute h]
    refine .up (parent?_spell_concat absolute h) (ih ?_)
    exact fun s hs => h s (List.mem_append_left _ hs)

theorem eq_spell_of_mem_ancestors (absolute : Bool) {cs : List Segment} {dir : String}
    (h : ∀ s ∈ cs, Proper s) (hdir : dir ∈ ancestors (spell absolute cs)) :
    ∃ front rest, cs = front ++ rest ∧ dir = spell absolute front := by
  induction cs using List.reverseRecOn with
  | nil =>
    rw [ancestors_spell_nil, List.mem_singleton] at hdir
    exact ⟨[], [], rfl, hdir⟩
  | append_singleton cs c ih =>
    rw [ancestors_spell_concat absolute h, List.mem_cons] at hdir
    rcases hdir with rfl | hdir
    · exact ⟨cs ++ [c], [], (List.append_nil _).symm, rfl⟩
    · obtain ⟨front, rest, rfl, hfront⟩ := ih (fun s hs => h s (List.mem_append_left _ hs)) hdir
      exact ⟨front, rest ++ [c], List.append_assoc front rest [c], hfront⟩

end Parents
end StyleAudit.Path
