import StyleAudit.Proofs.Paths
import StyleAudit.Settings

/-!
# Where settings come from

The walk goes from the start to its parents and stops at the first directory with a configuration
file or a repository. Only that directory can give a file, and of its files only the first one is
read. The command line, the file and the defaults then decide each setting apart.
-/

namespace StyleAudit.Settings
set_option autoImplicit false

section Start

/-- How the start of the walk is written: from the root of the file system or not, and through which
components. A root that is given is taken from `base` unless it is absolute. -/
def route (base : String) : Option String → Bool × List Path.Segment
  | none => (Path.isAbsolute base, Path.components base)
  | some root =>
    if Path.isAbsolute root then (true, Path.components root)
    else (Path.isAbsolute base, Path.components base ++ Path.components root)

theorem startDir_eq_spell (base : String) (root : Option String) :
    startDir base root = Path.spell (route base root).1 (route base root).2 := by
  cases root with
  | none => rfl
  | some root =>
    rw [startDir, Path.normalize_eq_spell, Path.isAbsolute_join, Path.components_join]
    cases habs : Path.isAbsolute root <;> simp [route, habs]

theorem proper_route (base : String) (root : Option String) :
    ∀ c ∈ (route base root).2, Path.Proper c := by
  intro c hc
  cases root with
  | none => exact Path.proper_of_mem_components hc
  | some root =>
    rw [route] at hc
    split at hc
    · exact Path.proper_of_mem_components hc
    · rcases List.mem_append.mp hc with hc | hc
      · exact Path.proper_of_mem_components hc
      · exact Path.proper_of_mem_components hc

end Start

section Walk
variable {σ : Type} (host : Host σ) (s : σ)

def Holds (dir name : String) : Prop := host.isEntry s (Path.join dir name) = true

/-- The entries at which the walk stops. -/
def stopNames : List String :=
  ["stylereport.toml", "stylereport.yaml", "stylereport.yml", ".git"]

def Marked (dir : String) : Prop := ∃ name ∈ stopNames, Holds host s dir name

/-- The walk along a chain comes to a directory: no directory before it is marked. -/
def Visits (chain : List String) (dir : String) : Prop :=
  ∃ before after, chain = before ++ dir :: after ∧ ∀ d ∈ before, ¬Marked host s d

/-- The configuration files in order of preference, with their readers. -/
def candidates (decoders : Decoders) : List (String × (String → Except String Settings)) :=
  [("stylereport.toml", decoders.toml), ("stylereport.yaml", decoders.yaml),
    ("stylereport.yml", decoders.yaml)]

/-- The walk ends at a configuration file: its directory is the first one that is marked, and the
file is the first candidate there. -/
structure Finds (decoders : Decoders) (chain : List String) (dir name : String)
    (decode : String → Except String Settings) : Prop where
  visits : Visits host s chain dir
  holds : Holds host s dir name
  first : ∃ earlier later, candidates decoders = earlier ++ (name, decode) :: later ∧
    ∀ f ∈ earlier, ¬Holds host s dir f.1

end Walk

section Merging

def Prefers {α : Type} (own : Option α) (default value : α) : Prop :=
  (∀ a, own = some a → value = a) ∧ (own = none → value = default)

structure Overrides (file : Option CheckerSettings) (default c : Checker) : Prop where
  program : Prefers (file.bind CheckerSettings.program) default.program c.program
  args : Prefers (file.bind CheckerSettings.args) default.args c.args
  requires : Prefers ((file.bind CheckerSettings.requires).map fun r =>
    if r = "" then none else some r) default.requires c.requires

/-- The command line wins over the file, and the file over the defaults, setting by setting. -/
structure Merged (settings : Settings) (output : Option String) (e : Effective) : Prop where
  output : (∀ mode, output = some mode → e.output = mode) ∧
    (output = none → Prefers settings.output "json" e.output)
  engine : Overrides settings.engine .style e.engine
  naming : Overrides settings.naming .naming e.naming

theorem prefers_getD {α : Type} (own : Option α) (default : α) :
    Prefers own default (own.getD default) := by
  cases own with
  | none => exact ⟨by simp, fun _ => rfl⟩
  | some a => exact ⟨fun b hb => Option.some.inj hb, by simp⟩

theorem overrides_apply (file : Option CheckerSettings) (default : Checker) :
    Overrides file default ((file.getD {}).apply default) := by
  have hprogram : file.bind CheckerSettings.program = (file.getD {}).program := by
    cases file <;> rfl
  have hargs : file.bind CheckerSettings.args = (file.getD {}).args := by cases file <;> rfl
  have hrequires : file.bind CheckerSettings.requires = (file.getD {}).requires := by
    cases file <;> rfl
  refine ⟨?_, ?_, ?_⟩
  · rw [hprogram]
    exact prefers_getD _ _
  · rw [hargs]
    exact prefers_getD _ _
  · rw [hrequires, CheckerSettings.apply]
    cases (file.getD {}).requires with
    | none => exact ⟨by simp, fun _ => rfl⟩
    | some r =>
      refine ⟨?_, by simp⟩
      intro required hr
      rw [← Option.some.inj hr]
      simp only [String.isEmpty_iff]

theorem merged_effective (settings : Settings) (output : Option String) :
    Merged settings output (settings.effective output) := by
  refine ⟨⟨?_, ?_⟩, overrides_apply _ _, overrides_apply _ _⟩
  · rintro mode rfl
    rfl
  · rintro rfl
    exact prefers_getD _ _

end Merging

section Ends
variable {σ : Type} (decoders : Decoders) (host : Host σ) (s : σ)

/-- What comes of a walk along a chain: the settings of the file that it finds, the failure of that
file, or no settings but the defaults. -/
inductive Resolution (chain : List String) (output : Option String) :
    Except Failure Effective → Prop
  | unreadable {dir name : String} {decode : String → Except String Settings} {cause : Cause} :
      Finds host s decoders chain dir name decode →
      host.readText s (Path.join dir name) = .error cause →
      Resolution chain output (.error (.inputOutput cause (Path.join dir name)))
  | undecodable {dir name text message : String} {decode : String → Except String Settings} :
      Finds host s decoders chain dir name decode →
      host.readText s (Path.join dir name) = .ok text → decode text = .error message →
      Resolution chain output (.error (.badSettings (Path.join dir name) message))
  | configured {dir name text : String} {decode : String → Except String Settings}
      {settings : Settings} {e : Effective} :
      Finds host s decoders chain dir name decode →
      host.readText s (Path.join dir name) = .ok text → decode text = .ok settings →
      Merged settings output e → Resolution chain output (.ok e)
  | repository {dir : String} {e : Effective} : Visits host s chain dir →
      Holds host s dir ".git" → (∀ f ∈ candidates decoders, ¬Holds host s dir f.1) →
      Merged {} output e → Resolution chain output (.ok e)
  | unmarked {e : Effective} : (∀ dir ∈ chain, ¬Marked host s dir) → Merged {} output e →
      Resolution chain output (.ok e)

variable {host s}

theorem isRoot_iff (dir : String) : isRoot host s dir = true ↔ Marked host s dir := by
  rw [isRoot, List.any_eq_true]
  rfl

theorem Visits.head (dir : String) (rest : List String) : Visits host s (dir :: rest) dir :=
  ⟨[], rest, rfl, by simp⟩

theorem Visits.tail {dir : String} {chain : List String} (h : Visits host s chain dir) {d : String}
    (hd : ¬Marked host s d) : Visits host s (d :: chain) dir := by
  obtain ⟨before, after, rfl, hbefore⟩ := h
  refine ⟨d :: before, after, rfl, ?_⟩
  intro e he
  rcases List.mem_cons.mp he with rfl | he
  · exact hd
  · exact hbefore e he

variable (host s)

/-- The root is a directory that the walk visits, and it is marked unless none is. -/
theorem detectRoot_cases (start : String) :
    Visits host s (Path.ancestors start) (detectRoot host s start) ∧
      (Marked host s (detectRoot host s start) ∨
        ∀ dir ∈ Path.ancestors start, ¬Marked host s dir) := by
  rw [detectRoot]
  cases hfind : (Path.ancestors start).find? (isRoot host s) with
  | none =>
    refine ⟨.head start _, .inr ?_⟩
    intro dir hdir hmarked
    exact List.find?_eq_none.mp hfind dir hdir ((isRoot_iff dir).mpr hmarked)
  | some root =>
    obtain ⟨hroot, before, after, hchain, hbefore⟩ := List.find?_eq_some_iff_append.mp hfind
    refine ⟨⟨before, after, hchain, ?_⟩, .inl ((isRoot_iff root).mp hroot)⟩
    intro dir hdir hmarked
    have hfalse := hbefore dir hdir
    rw [(isRoot_iff dir).mpr hmarked] at hfalse
    cases hfalse

theorem load_eq (dir : String) : load decoders host s dir =
    ((candidates decoders).find? fun f => host.isEntry s (Path.join dir f.1)).elim (.ok none)
      fun f => (loadFile host s f.2 (Path.join dir f.1)).map some := by
  have hfiles : (tomlName, decoders.toml) :: yamlNames.map (fun name => (name, decoders.yaml)) =
      candidates decoders := rfl
  rw [load, hfiles]
  cases (candidates decoders).find? fun f => host.isEntry s (Path.join dir f.1) <;> rfl

theorem finds_of_find? {chain : List String} {dir : String} (hvisits : Visits host s chain dir)
    {f : String × (String → Except String Settings)}
    (hfind : (candidates decoders).find? (fun f => host.isEntry s (Path.join dir f.1)) = some f) :
    Finds host s decoders chain dir f.1 f.2 := by
  obtain ⟨hholds, earlier, later, hsplit, hearlier⟩ := List.find?_eq_some_iff_append.mp hfind
  refine ⟨hvisits, hholds, earlier, later, hsplit, ?_⟩
  intro g hg hholds'
  have hfalse := hearlier g hg
  rw [hholds'] at hfalse
  cases hfalse

theorem finds_toml {start dir : String} (hroot : detectRoot host s start = dir)
    (hholds : Holds host s dir "stylereport.toml") :
    Finds host s decoders (Path.ancestors start) dir "stylereport.toml" decoders.toml := by
  have hvisits := (detectRoot_cases host s start).1
  rw [hroot] at hvisits
  have hfind : (candidates decoders).find? (fun f => host.isEntry s (Path.join dir f.1)) =
      some ("stylereport.toml", decoders.toml) := by rw [candidates, List.find?_cons, hholds]
  exact finds_of_find? decoders host s hvisits hfind

/-- A directory that the walk visits gives its first candidate, if it has one. -/
theorem load_cases {chain : List String} {dir : String} (hvisits : Visits host s chain dir) :
    (∃ name decode, Finds host s decoders chain dir name decode ∧
      load decoders host s dir = (loadFile host s decode (Path.join dir name)).map some) ∨
    ((∀ f ∈ candidates decoders, ¬Holds host s dir f.1) ∧ load decoders host s dir = .ok none) := by
  rw [load_eq]
  cases hfind : (candidates decoders).find? fun f => host.isEntry s (Path.join dir f.1) with
  | none =>
    refine .inr ⟨?_, rfl⟩
    intro f hf hholds
    exact List.find?_eq_none.mp hfind f hf hholds
  | some f => exact .inl ⟨f.1, f.2, finds_of_find? decoders host s hvisits hfind, rfl⟩

/-- Without a configuration file, only a repository can mark a directory. -/
theorem holds_git_of_marked {dir : String} (hmarked : Marked host s dir)
    (hnone : ∀ f ∈ candidates decoders, ¬Holds host s dir f.1) : Holds host s dir ".git" := by
  obtain ⟨name, hname, hholds⟩ := hmarked
  simp only [stopNames, List.mem_cons, List.not_mem_nil, or_false] at hname
  simp only [candidates, List.mem_cons, List.not_mem_nil, or_false, forall_eq_or_imp,
    forall_eq] at hnone
  obtain ⟨htoml, hyaml, hyml⟩ := hnone
  rcases hname with rfl | rfl | rfl | rfl
  · exact absurd hholds htoml
  · exact absurd hholds hyaml
  · exact absurd hholds hyml
  · exact hholds

theorem resolution_resolveFrom (base : String) (root output : Option String) :
    Resolution decoders host s (Path.ancestors (startDir base root)) output
      (resolveFrom decoders host s base root output) := by
  obtain ⟨hvisits, hmarked⟩ := detectRoot_cases host s (startDir base root)
  rw [resolveFrom]
  obtain ⟨name, decode, hfinds, hload⟩ | ⟨hnone, hload⟩ := load_cases decoders host s hvisits
  · rw [hload, loadFile]
    cases hread : host.readText s (Path.join (detectRoot host s (startDir base root)) name) with
    | error cause => exact .unreadable hfinds hread
    | ok text =>
      cases hdecode : decode text with
      | error message =>
        simp only [hdecode]
        exact .undecodable hfinds hread hdecode
      | ok settings =>
        simp only [hdecode]
        exact .configured hfinds hread hdecode (merged_effective settings output)
  · rw [hload]
    rcases hmarked with hmarked | hunmarked
    · exact .repository hvisits (holds_git_of_marked decoders host s hmarked hnone) hnone
        (merged_effective {} output)
    · exact .unmarked hunmarked (merged_effective {} output)

end Ends

section Dependence
variable {σ τ : Type} {host : Host σ} {s : σ} {other : Host τ} {t : τ}

/-- Two systems that agree about the directories that the walk visits stop it at the same one. -/
theorem find?_isRoot_congr {chain : List String}
    (h : ∀ dir, Visits host s chain dir → isRoot other t dir = isRoot host s dir) :
    chain.find? (isRoot other t) = chain.find? (isRoot host s) := by
  induction chain with
  | nil => rfl
  | cons d rest ih =>
    rw [List.find?_cons, List.find?_cons, h d (.head d rest)]
    cases hd : isRoot host s d with
    | true => rfl
    | false =>
      have hunmarked : ¬Marked host s d := by
        rw [← isRoot_iff, hd]
        exact Bool.false_ne_true
      exact ih fun dir hdir => h dir (hdir.tail hunmarked)

theorem load_congr (decoders : Decoders) {chain : List String} {dir : String}
    (hvisits : Visits host s chain dir)
    (hentries : ∀ name ∈ stopNames,
      other.isEntry t (Path.join dir name) = host.isEntry s (Path.join dir name))
    (htext : ∀ name decode, Finds host s decoders chain dir name decode →
      other.readText t (Path.join dir name) = host.readText s (Path.join dir name)) :
    load decoders other t dir = load decoders host s dir := by
  simp only [stopNames, List.mem_cons, List.not_mem_nil, or_false, forall_eq_or_imp,
    forall_eq] at hentries
  obtain ⟨htoml, hyaml, hyml, -⟩ := hentries
  have hfind : ((candidates decoders).find? fun f => other.isEntry t (Path.join dir f.1)) =
      (candidates decoders).find? fun f => host.isEntry s (Path.join dir f.1) := by
    simp only [candidates, List.find?_cons, List.find?_nil, htoml, hyaml, hyml]
  rw [load_eq, load_eq, hfind]
  cases hf : (candidates decoders).find? fun f => host.isEntry s (Path.join dir f.1) with
  | none => rfl
  | some f =>
    have hfinds := finds_of_find? decoders host s hvisits hf
    simp only [Option.elim_some, loadFile, htext f.1 f.2 hfinds]

theorem resolveFrom_congr (decoders : Decoders) (base : String) (root output : Option String)
    (hentries : ∀ dir, Visits host s (Path.ancestors (startDir base root)) dir →
      ∀ name ∈ stopNames,
        other.isEntry t (Path.join dir name) = host.isEntry s (Path.join dir name))
    (htext : ∀ dir name decode,
      Finds host s decoders (Path.ancestors (startDir base root)) dir name decode →
        other.readText t (Path.join dir name) = host.readText s (Path.join dir name)) :
    resolveFrom decoders other t base root output =
      resolveFrom decoders host s base root output := by
  have hroot : detectRoot other t (startDir base root) = detectRoot host s (startDir base root) := by
    rw [detectRoot, detectRoot, find?_isRoot_congr]
    intro dir hdir
    rw [isRoot, isRoot, Bool.eq_iff_iff, List.any_eq_true, List.any_eq_true]
    refine exists_congr fun name => and_congr_right fun hname => ?_
    rw [hentries dir hdir name hname]
  obtain ⟨hvisits, -⟩ := detectRoot_cases host s (startDir base root)
  have hload := load_congr decoders hvisits (hentries _ hvisits) (htext _)
  rw [resolveFrom, resolveFrom, hroot, hload]

theorem resolveFrom_map_checkers (decoders : Decoders) (base : String)
    (root output output' : Option String) :
    (resolveFrom decoders host s base root output').map (fun e => (e.engine, e.naming)) =
      (resolveFrom decoders host s base root output).map (fun e => (e.engine, e.naming)) := by
  rw [resolveFrom, resolveFrom]
  cases load decoders host s (detectRoot host s (startDir base root)) <;> rfl

end Dependence

/-- Settings come from the first marked directory on the chain of parents, and from its first
configuration file if it has one. Nothing else of the file system matters, and the output mode of
the command line decides nothing but the output mode. -/
theorem resolve_from_the_closest_root {σ : Type} (decoders : Decoders) (host : Host σ) (s : σ)
    (base : String) (root output : Option String) :
    ∃ chain, Path.Chain (Path.spell (route base root).1 (route base root).2) chain ∧
      Resolution decoders host s chain output (resolveFrom decoders host s base root output) ∧
      (∀ (τ : Type) (other : Host τ) (t : τ),
        (∀ dir, Visits host s chain dir → ∀ name ∈ stopNames,
          other.isEntry t (Path.join dir name) = host.isEntry s (Path.join dir name)) →
        (∀ dir name decode, Finds host s decoders chain dir name decode →
          other.readText t (Path.join dir name) = host.readText s (Path.join dir name)) →
        resolveFrom decoders other t base root output =
          resolveFrom decoders host s base root output) ∧
      ∀ output', (resolveFrom decoders host s base root output').map
          (fun e => (e.engine, e.naming)) =
        (resolveFrom decoders host s base root output).map fun e => (e.engine, e.naming) := by
  refine ⟨Path.ancestors (startDir base root), ?_,
    resolution_resolveFrom decoders host s base root output, ?_, ?_⟩
  · rw [startDir_eq_spell]
    exact Path.chain_ancestors_spell _ _ (proper_route base root)
  · intro τ other t hentries htext
    exact resolveFrom_congr decoders base root output hentries htext
  · exact resolveFrom_map_checkers decoders base root output

end StyleAudit.Settings
