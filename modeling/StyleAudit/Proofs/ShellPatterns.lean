import Mathlib.Data.List.Basic
import StyleAudit.Machine.Shell.Pattern

/-!
# What patterns of the shell match

A pattern matches a text if the text can be cut into parts, one for each of its elements: any part
for a star, and a single character for every other element. Quoted characters match themselves
alone. Removing the shortest or longest start or end that matches is described by these cuts.
-/

namespace StyleAudit.Machine.Shell
set_option autoImplicit false

/-- A text matches a pattern. -/
inductive Matches : List Glob → Octets → Prop
  | nil : Matches [] []
  | star {gs : List Glob} {cs : Octets} (part : Octets) :
      Matches gs cs → Matches (.star :: gs) (part ++ cs)
  | one {g : Glob} {gs : List Glob} {c : Char} {cs : Octets} : g ≠ .star → g.takes c = true →
      Matches gs cs → Matches (g :: gs) (c :: cs)

theorem matches_star_iff {gs : List Glob} {cs : Octets} : Matches (.star :: gs) cs ↔
    ∃ part rest, cs = part ++ rest ∧ Matches gs rest := by
  constructor
  · intro h
    cases h with
    | star part hrest => exact ⟨part, _, rfl, hrest⟩
    | one hstar _ _ => exact absurd rfl hstar
  · rintro ⟨part, rest, rfl, h⟩
    exact .star part h

theorem matches_one_iff {g : Glob} (hg : g ≠ .star) {gs : List Glob} {cs : Octets} :
    Matches (g :: gs) cs ↔ ∃ c rest, cs = c :: rest ∧ g.takes c = true ∧ Matches gs rest := by
  constructor
  · intro h
    cases h with
    | star _ _ => exact absurd rfl hg
    | one _ htakes hrest => exact ⟨_, _, rfl, htakes, hrest⟩
  · rintro ⟨c, rest, rfl, htakes, h⟩
    exact .one hg htakes h

theorem matches_star_cons {gs : List Glob} {c : Char} {cs : Octets} :
    Matches (.star :: gs) (c :: cs) ↔ Matches gs (c :: cs) ∨ Matches (.star :: gs) cs := by
  rw [matches_star_iff, matches_star_iff]
  constructor
  · rintro ⟨part, rest, htext, h⟩
    cases part with
    | nil => exact .inl (htext ▸ h)
    | cons d part => exact .inr ⟨part, rest, (List.cons.inj htext).2, h⟩
  · rintro (h | ⟨part, rest, rfl, h⟩)
    · exact ⟨[], _, rfl, h⟩
    · exact ⟨c :: part, rest, rfl, h⟩

/-- The matcher finds a way to cut the text exactly if there is one. -/
theorem fits_iff (gs : List Glob) (cs : Octets) : fits gs cs = true ↔ Matches gs cs := by
  fun_induction fits gs cs with
  | case1 => exact ⟨fun _ => .nil, fun _ => rfl⟩
  | case2 => exact ⟨nofun, nofun⟩
  | case3 gs ih =>
    rw [ih, matches_star_iff]
    constructor
    · exact fun h => ⟨[], [], rfl, h⟩
    · rintro ⟨part, rest, htext, h⟩
      rwa [(List.nil_eq_append_iff.mp htext).2] at h
  | case4 gs c cs ih ih' => rw [Bool.or_eq_true, ih, ih', matches_star_cons]
  | case5 g gs hg => simp [matches_one_iff hg]
  | case6 g gs c cs hg ih => simp [matches_one_iff hg, ih]

section Quoted

/-- A character of a pattern that stands for itself. -/
def IsLiteral (c : PatternChar) : Prop := c.2 = true ∨ c.1 ≠ '*' ∧ c.1 ≠ '?' ∧ c.1 ≠ '['

theorem globsOf_literal {cs : List PatternChar} (h : ∀ c ∈ cs, IsLiteral c) {fuel : Nat}
    (hfuel : cs.length < fuel) : globsOf fuel cs = cs.map fun c => .one c.1 := by
  induction cs generalizing fuel with
  | nil => cases fuel <;> rfl
  | cons c rest ih =>
    obtain ⟨fuel, rfl⟩ : ∃ n, fuel = n + 1 := Nat.exists_eq_add_one.mpr (Nat.zero_lt_of_lt hfuel)
    have hrest := ih (fun d hd => h d (List.mem_cons_of_mem c hd)) (Nat.lt_of_succ_lt_succ hfuel)
    obtain ⟨c, quoted⟩ := c
    rw [globsOf]
    rcases h _ List.mem_cons_self with hquoted | ⟨hstar, hany, hset⟩
    · have hquoted : quoted = true := hquoted
      rw [if_pos hquoted, hrest, List.map_cons]
    · simp_all

theorem matches_literal (cs text : Octets) : Matches (cs.map .one) text ↔ text = cs := by
  induction cs generalizing text with
  | nil =>
    constructor
    · rintro ⟨⟩
      rfl
    · rintro rfl
      exact .nil
  | cons c rest ih =>
    rw [List.map_cons, matches_one_iff Glob.noConfusion]
    simp only [ih, Glob.takes, beq_iff_eq]
    constructor
    · rintro ⟨d, more, rfl, rfl, rfl⟩
      rfl
    · rintro rfl
      exact ⟨c, rest, rfl, rfl, rfl⟩

/-- A pattern without active characters matches its own text and nothing else. -/
theorem fits_patternOf_literal {cs : List PatternChar} (h : ∀ c ∈ cs, IsLiteral c)
    (text : Octets) : fits (patternOf cs) text = true ↔ text = cs.map Prod.fst := by
  have hmap : (cs.map fun c => Glob.one c.1) = (cs.map Prod.fst).map .one := by
    rw [List.map_map]
    rfl
  rw [patternOf, globsOf_literal h (Nat.lt_succ_self _), hmap, fits_iff, matches_literal]

end Quoted

section Removal
variable (longest : Bool) (pattern : List Glob) (cs : Octets)

/-- The first number is the better one among lengths. -/
def Better (n m : Nat) : Prop := if longest then m ≤ n else n ≤ m

theorem rel_of_find? {R : Nat → Nat → Prop} {sizes : List Nat} (hsizes : sizes.Pairwise R)
    {p : Nat → Bool} {n m : Nat} (h : sizes.find? p = some n) (hm : m ∈ sizes) (hp : p m = true) :
    m = n ∨ R n m := by
  obtain ⟨-, before, after, rfl, hbefore⟩ := List.find?_eq_some_iff_append.mp h
  rcases List.mem_append.mp hm with hm | hm
  · have hnot := hbefore m hm
    rw [hp] at hnot
    cases hnot
  · rcases List.mem_cons.mp hm with rfl | hm
    · exact .inl rfl
    · exact .inr ((List.pairwise_cons.mp (List.pairwise_append.mp hsizes).2.1).1 m hm)

/-- The lengths up to that of a text, best one first. -/
def lengths (size : Nat) : List Nat :=
  if longest then (List.range (size + 1)).reverse else List.range (size + 1)

theorem mem_lengths (size n : Nat) : n ∈ lengths longest size ↔ n ≤ size := by
  rw [lengths]
  split
  · rw [List.mem_reverse, List.mem_range, Nat.lt_succ_iff]
  · rw [List.mem_range, Nat.lt_succ_iff]

theorem pairwise_lengths (size : Nat) : (lengths longest size).Pairwise (Better longest) := by
  have hrange : (List.range (size + 1)).Pairwise (· < ·) := List.pairwise_lt_range
  cases longest with
  | false => exact hrange.imp Nat.le_of_lt
  | true => exact (List.pairwise_reverse.mpr hrange).imp Nat.le_of_lt

theorem better_refl (n : Nat) : Better longest n n := by
  cases longest <;> exact Nat.le_refl n

theorem better_of_find? {p : Nat → Bool} {size n m : Nat}
    (h : (lengths longest size).find? p = some n) (hm : m ≤ size) (hp : p m = true) :
    Better longest n m := by
  have hmem := (mem_lengths longest size m).mpr hm
  rcases rel_of_find? (pairwise_lengths longest size) h hmem hp with rfl | hrel
  · exact better_refl longest m
  · exact hrel

theorem dropStart_eq : dropStart longest pattern cs =
    match (lengths longest cs.length).find? fun n => fits pattern (cs.take n) with
    | some n => cs.drop n
    | none => cs := rfl

theorem dropEnd_eq : dropEnd longest pattern cs =
    match (lengths (!longest) cs.length).find? fun n => fits pattern (cs.drop n) with
    | some n => cs.take n
    | none => cs := by
  cases longest <;> rfl

/-- What is left has lost the longest or the shortest start that matches, or nothing if none
does. -/
theorem dropStart_cases :
    (∃ start, cs = start ++ dropStart longest pattern cs ∧ Matches pattern start ∧
      ∀ other, other <+: cs → Matches pattern other → Better longest start.length other.length) ∨
    (∀ start, start <+: cs → ¬Matches pattern start) ∧ dropStart longest pattern cs = cs := by
  rw [dropStart_eq]
  cases hfind : (lengths longest cs.length).find? fun n => fits pattern (cs.take n) with
  | some n =>
    have hn : n ≤ cs.length := (mem_lengths _ _ _).mp (List.mem_of_find?_eq_some hfind)
    have hfits : fits pattern (cs.take n) = true :=
      List.find?_some (p := fun n => fits pattern (cs.take n)) hfind
    refine .inl ⟨cs.take n, (List.take_append_drop n cs).symm, (fits_iff _ _).mp hfits,
      fun other hother hmatches => ?_⟩
    have htake : cs.take other.length = other := (List.prefix_iff_eq_take.mp hother).symm
    have hbest := better_of_find? longest hfind hother.length_le
      ((fits_iff _ _).mpr (by rwa [htake]))
    rwa [List.length_take, Nat.min_eq_left hn]
  | none =>
    refine .inr ⟨fun start hstart hmatches => ?_, rfl⟩
    have htake : cs.take start.length = start := (List.prefix_iff_eq_take.mp hstart).symm
    have hnot := List.find?_eq_none.mp hfind start.length ((mem_lengths _ _ _).mpr hstart.length_le)
    exact hnot ((fits_iff _ _).mpr (by rwa [htake]))

/-- The same for ends. -/
theorem dropEnd_cases :
    (∃ tail, cs = dropEnd longest pattern cs ++ tail ∧ Matches pattern tail ∧
      ∀ other, other <:+ cs → Matches pattern other → Better longest tail.length other.length) ∨
    (∀ tail, tail <:+ cs → ¬Matches pattern tail) ∧ dropEnd longest pattern cs = cs := by
  have hdrop : ∀ {other : Octets}, other <:+ cs → cs.drop (cs.length - other.length) = other :=
    fun h => (List.suffix_iff_eq_drop.mp h).symm
  rw [dropEnd_eq]
  cases hfind : (lengths (!longest) cs.length).find? fun n => fits pattern (cs.drop n) with
  | some n =>
    have hn : n ≤ cs.length := (mem_lengths _ _ _).mp (List.mem_of_find?_eq_some hfind)
    have hfits : fits pattern (cs.drop n) = true :=
      List.find?_some (p := fun n => fits pattern (cs.drop n)) hfind
    refine .inl ⟨cs.drop n, (List.take_append_drop n cs).symm, (fits_iff _ _).mp hfits,
      fun other hother hmatches => ?_⟩
    have hle := hother.length_le
    have hbest := better_of_find? (!longest) hfind (Nat.sub_le cs.length other.length)
      ((fits_iff _ _).mpr (by rwa [hdrop hother]))
    rw [List.length_drop]
    cases longest with
    | true =>
      have hbest : n ≤ cs.length - other.length := hbest
      change other.length ≤ cs.length - n
      omega
    | false =>
      have hbest : cs.length - other.length ≤ n := hbest
      change cs.length - n ≤ other.length
      omega
  | none =>
    refine .inr ⟨fun tail htail hmatches => ?_, rfl⟩
    have hnot := List.find?_eq_none.mp hfind _
      ((mem_lengths _ _ _).mpr (Nat.sub_le cs.length tail.length))
    exact hnot ((fits_iff _ _).mpr (by rwa [hdrop htail]))

end Removal

end StyleAudit.Machine.Shell
