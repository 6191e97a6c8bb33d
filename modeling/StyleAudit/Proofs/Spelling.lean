import Mathlib.Data.List.Infix
import Mathlib.Data.List.Nodup
import StyleAudit.Proofs.Discovery
import StyleAudit.Proofs.UpwardWalk

/-!
# How a root is spelled

A path can be spelled with slashes repeated or left over at its end and with dots between them, and
a root need not be given at all. Discovery takes nothing from the spelling but whether the root is
absolute and what its names are. The walk then goes through the first names of the start, from all
of them to none, so no spelling makes it pass a directory over or come to one twice.
-/

namespace StyleAudit
set_option autoImplicit false

namespace Path

theorem split_eq_splitOn (cs : List Char) : split cs = cs.splitOn '/' := by
  induction cs with
  | nil => rfl
  | cons c rest ih =>
    obtain ⟨s, more, hsplit⟩ := List.exists_cons_of_ne_nil (split_ne_nil rest)
    rw [hsplit] at ih
    rw [split, hsplit, List.splitOn_cons_eq_if_modifyHead, ← ih]
    by_cases hc : c = '/'
    · rw [if_pos hc, if_pos (beq_iff_eq.mpr hc)]
    · rw [if_neg hc, if_neg (by simpa using hc), List.modifyHead_cons]

/-- The pieces between the slashes of a path that are neither empty nor a dot. -/
def names (path : String) : List Segment :=
  (path.toList.splitOn '/').filter fun s => s ≠ [] ∧ s ≠ ['.']

theorem components_eq_names (path : String) : components path = names path := by
  rw [components_eq, names, split_eq_splitOn]
  refine List.filter_congr fun s _ => ?_
  rw [Bool.eq_iff_iff]
  simp [isIdle]

theorem names_append_slash (dir path : String) :
    names (dir ++ "/" ++ path) = names dir ++ names path := by
  have htext : (dir ++ "/" ++ path).toList = dir.toList ++ '/' :: path.toList := by
    rw [String.toList_append, String.toList_append, List.append_assoc]
    rfl
  rw [names, htext, List.splitOn_append_cons_self, List.filter_append]
  rfl

theorem isAbsolute_append {dir : String} (h : isAbsolute dir = true) (rest : String) :
    isAbsolute (dir ++ rest) = true := by
  have hfirst : dir.toList.head? = some '/' := beq_iff_eq.mp h
  rw [isAbsolute, String.toList_append, List.head?_append, hfirst]
  rfl

section Walk

theorem inits_concat (cs : List Segment) (c : Segment) :
    (cs ++ [c]).inits = cs.inits ++ [cs ++ [c]] := by
  rw [List.inits_append]
  rfl

theorem inits_nodup (cs : List Segment) : cs.inits.Nodup := by
  induction cs with
  | nil => exact List.nodup_singleton []
  | cons c rest ih =>
    rw [List.inits, List.nodup_cons]
    refine ⟨?_, ih.map (List.cons_injective)⟩
    intro hin
    obtain ⟨front, -, hfront⟩ := List.mem_map.mp hin
    cases hfront

variable (absolute : Bool) {cs : List Segment} (h : ∀ s ∈ cs, Proper s)
include h

/-- The walk up from a path passes the spellings of its first components, longest first. -/
theorem ancestors_eq_inits :
    ancestors (spell absolute cs) = (cs.inits.map (spell absolute)).reverse := by
  induction cs using List.reverseRecOn with
  | nil => rw [ancestors_spell_nil, List.inits, List.map_singleton, List.reverse_singleton]
  | append_singleton cs c ih =>
    have hfront : ∀ s ∈ cs, Proper s := fun s hs => h s (List.mem_append_left _ hs)
    rw [ancestors_spell_concat absolute h, ih hfront, inits_concat, List.map_append,
      List.reverse_append]
    rfl

theorem ancestors_nodup : (ancestors (spell absolute cs)).Nodup := by
  rw [ancestors_eq_inits absolute h, List.nodup_reverse]
  refine (inits_nodup cs).map_on fun front hfront other hother heq => ?_
  have hproper : ∀ start ∈ cs.inits, ∀ s ∈ start, Proper s := by
    intro start hstart s hs
    exact h s (((List.mem_inits _ _).mp hstart).subset hs)
  rw [← components_spell absolute (hproper front hfront),
    ← components_spell absolute (hproper other hother), heq]

end Walk
end Path

namespace Settings
open Machine

/-- Whether a root is absolute, and its names. A root that is not given is relative without
names. -/
def named : Option String → Bool × List Path.Segment
  | none => (false, [])
  | some root => (Path.isAbsolute root, Path.names root)

/-- Two roots differ in their spelling only. -/
def SameRoot (root root' : Option String) : Prop := named root = named root'

instance (root root' : Option String) : Decidable (SameRoot root root') :=
  inferInstanceAs (Decidable (_ = _))

theorem route_eq_named (base : String) (root : Option String) :
    route base root =
      if (named root).1 then (true, (named root).2)
      else (Path.isAbsolute base, Path.names base ++ (named root).2) := by
  cases root with
  | none => simp [route, named, Path.components_eq_names]
  | some root =>
    rw [route, Path.components_eq_names, Path.components_eq_names]
    rfl

theorem startDir_eq_of_sameRoot {root root' : Option String} (base : String)
    (h : SameRoot root root') : startDir base root = startDir base root' := by
  rw [startDir_eq_spell, startDir_eq_spell, route_eq_named, route_eq_named base root', h]

theorem startDir_eq_of_absolute {base root : String} (hbase : Path.isAbsolute base = true)
    (hroot : Path.isAbsolute root = false) (other : String) :
    startDir base (some root) = startDir other (some (base ++ "/" ++ root)) := by
  have hjoined : Path.isAbsolute (base ++ "/" ++ root) = true := by
    rw [String.append_assoc]
    exact Path.isAbsolute_append hbase _
  rw [startDir_eq_spell, startDir_eq_spell, route_eq_named, route_eq_named, named, named, hroot,
    hjoined, hbase, Path.names_append_slash]
  rfl

theorem resolveFrom_eq_of_startDir {σ : Type} (decoders : Decoders) (host : Host σ) (s : σ)
    {base base' : String} {root root' : Option String} (output : Option String)
    (h : startDir base root = startDir base' root') :
    resolveFrom decoders host s base root output =
      resolveFrom decoders host s base' root' output := by
  rw [resolveFrom, resolveFrom, h]

/-- Roots that differ in their spelling only lead to the same settings or the same failure, and so
does a relative root that is taken from an absolute base beforehand. Whatever the root, the walk
passes the first names of the start from all of them to none, and no directory twice. -/
theorem root_spelling_is_irrelevant {σ : Type} (decoders : Decoders) (host : Host σ) (s : σ)
    (base : String) (output : Option String) :
    (∀ root root', SameRoot root root' →
      resolveFrom decoders host s base root output =
        resolveFrom decoders host s base root' output) ∧
    (∀ root other, Path.isAbsolute base = true → Path.isAbsolute root = false →
      resolveFrom decoders host s base (some root) output =
        resolveFrom decoders host s other (some (base ++ "/" ++ root)) output) ∧
    ∀ root, (Path.ancestors (startDir base root)).Nodup ∧
      Path.ancestors (startDir base root) =
        ((route base root).2.inits.map (Path.spell (route base root).1)).reverse := by
  refine ⟨?_, ?_, ?_⟩
  · intro root root' hsame
    exact resolveFrom_eq_of_startDir decoders host s output (startDir_eq_of_sameRoot base hsame)
  · intro root other hbase hroot
    exact resolveFrom_eq_of_startDir decoders host s output
      (startDir_eq_of_absolute hbase hroot other)
  · intro root
    have hproper := proper_route base root
    rw [startDir_eq_spell]
    exact ⟨Path.ancestors_nodup _ hproper, Path.ancestors_eq_inits _ hproper⟩

/-- A root with a dot at either end, a doubled slash and a component that leads back, from its base
and as an absolute one. The configuration file is in the base. -/
theorem root_of_sub_spelled_apart :
    let resolve := fun base root =>
      resolveFrom .standard Workstation.host neighbours base (some root) none
    SameRoot (some "./sub//../sub/.") (some "sub/../sub/") ∧
    resolve "/work/a" "./sub//../sub/." = resolve "/work/a" "sub/../sub/" ∧
    resolve "/work/a" "sub/../sub/" = resolve "elsewhere" "/work/a/sub/../sub/" ∧
    ((resolve "elsewhere" "/work/a/sub/../sub/").map Effective.output).toOption =
      some "human" := by
  intro resolve
  obtain ⟨hspelling, hjoined, -⟩ :=
    root_spelling_is_irrelevant .standard Workstation.host neighbours "/work/a" none
  have hsame : SameRoot (some "./sub//../sub/.") (some "sub/../sub/") := by decide +kernel
  have htaken := hjoined "sub/../sub/" "elsewhere" rfl rfl
  exact ⟨hsame, hspelling _ _ hsame, htaken, by decide +kernel⟩

example : SameRoot none (some "") ∧ SameRoot none (some ".//.") ∧
    ¬SameRoot (some "a/b") (some "/a/b") := by decide +kernel

end Settings
end StyleAudit
