import Mathlib.Data.List.Basic
import StyleAudit.Proofs.History

/-!
# Traces of processes

An engine and a naming checker that share a system start processes on it: some to ask for a version,
some to check a file. Every process is kept in a trace with the part of the work that started it.
Each call runs a short course of processes, one course per way it can go.
-/

namespace StyleAudit
set_option autoImplicit false

open Text

inductive Role where
  | version
  | check
  deriving DecidableEq

inductive Owner where
  | engine
  | naming
  deriving DecidableEq

/-- A process, with the number of the request during which it was started, and for whom and why. -/
structure Process where
  call : Nat
  owner : Owner
  role : Role
  program : String
  args : List String
  answer : Except Cause Outcome

/-- The process printed a version banner with the required text. -/
def Process.Verifies (required : String) (p : Process) : Prop :=
  p.role = .version ∧ ∃ outcome, p.answer = .ok outcome ∧
    required.toList <:+: (Utf8.lossyText outcome.stdout ++ Utf8.lossyText outcome.stderr).toList

structure Traced (σ : Type) where
  world : σ
  /-- The number of requests that were answered. -/
  calls : Nat := 0
  trace : List Process := []
  /-- How often a scratch directory was asked for. -/
  scratches : Nat := 0

/-- The host that traces processes for one owner in one role. -/
def Host.tracing {σ : Type} (host : Host σ) (owner : Owner) (role : Role) : Host (Traced σ) where
  currentDir t := host.currentDir t.world
  tempDir t := host.tempDir t.world
  isFile t path := host.isFile t.world path
  isEntry t path := host.isEntry t.world path
  readText t path := host.readText t.world path
  removeFile path t :=
    ((host.removeFile path t.world).1, { t with world := (host.removeFile path t.world).2 })
  makeScratch t :=
    ((host.makeScratch t.world).1,
      { t with world := (host.makeScratch t.world).2, scratches := t.scratches + 1 })
  removeScratch dir t :=
    ((host.removeScratch dir t.world).1, { t with world := (host.removeScratch dir t.world).2 })
  run program args t :=
    ((host.run program args t.world).1,
      { t with world := (host.run program args t.world).2
               trace := t.trace ++
                 [⟨t.calls, owner, role, program, args, (host.run program args t.world).1⟩] })

/-- What can be asked of an engine and a naming checker that share a system, which may change in
between. -/
inductive Request (σ : Type) where
  | scan (path : String)
  | results (path : String)
  | cleanup
  | change (f : σ → σ)

namespace Request
variable {σ : Type} (engine naming : Checker) (host : Host σ)

def perform : Request σ → NamingState σ → NamingState σ
  | scan path, s => (NamingState.liftStep (engine.scan host path) s).2
  | results path, s => (naming.namingResults host path s).2
  | cleanup, s => (Checker.release host s).2
  | change f, s => { s with world := f s.world }

def performAll (requests : List (Request σ)) (world : σ) : NamingState σ :=
  requests.foldl (fun s r => r.perform engine naming host s) { world }

/-- What a request does on a traced system. Each part of the work has the host that writes down its
own role. -/
def act : Request σ → NamingState (Traced σ) → NamingState (Traced σ)
  | scan path, s =>
    (NamingState.liftStep
      (engine.scanOn (host.tracing .engine .version) (host.tracing .engine .check) path) s).2
  | results path, s =>
    (naming.namingResultsOn (host.tracing .naming .version) (host.tracing .naming .check) path s).2
  | cleanup, s => (Checker.release (host.tracing .naming .check) s).2
  | change f, s => { s with world := { s.world with world := f s.world.world } }

def close (s : NamingState (Traced σ)) : NamingState (Traced σ) :=
  { s with world := { s.world with calls := s.world.calls + 1 } }

def observe (requests : List (Request σ)) (world : σ) : NamingState (Traced σ) :=
  requests.foldl (fun s r => close (r.act engine naming host s)) { world := { world } }

end Request

section Calls
variable {σ : Type}

theorem occursIn_iff (needle text : List Char) :
    occursIn needle text = true ↔ needle <:+: text := by
  induction text with
  | nil => simp [occursIn]
  | cons c rest ih => simp [occursIn, ih, List.infix_cons_iff]

def Checker.versionProcess (c : Checker) (owner : Owner) (call : Nat)
    (answer : Except Cause Outcome) : Process :=
  ⟨call, owner, .version, c.program, c.args ++ ["--version"], answer⟩

def Process.Checks (owner : Owner) (call : Nat) (p : Process) : Prop :=
  p.owner = owner ∧ p.call = call ∧ p.role = .check

/-- The processes with which a checker comes to its gate, by whether it counts as verified before
and after it. -/
inductive Passage (c : Checker) (owner : Owner) (call : Nat) : Bool → Bool → List Process → Prop
  | opened {verified : Bool} : verified = true ∨ c.requires = none →
      Passage c owner call verified true []
  | refused {required : String} {answer : Except Cause Outcome} : c.requires = some required →
      ¬(c.versionProcess owner call answer).Verifies required →
      Passage c owner call false false [c.versionProcess owner call answer]
  | passed {required : String} {answer : Except Cause Outcome} : c.requires = some required →
      (c.versionProcess owner call answer).Verifies required →
      Passage c owner call false true [c.versionProcess owner call answer]

/-- The processes of one call: behind the gate there is at most one check. -/
inductive Course (c : Checker) (owner : Owner) (call : Nat) : Bool → Bool → List Process → Prop
  | stopped {verified : Bool} {news : List Process} :
      Passage c owner call verified false news → Course c owner call verified false news
  | went {verified : Bool} {news : List Process} {check : Option Process} :
      Passage c owner call verified true news → (∀ p ∈ check, p.Checks owner call) →
      Course c owner call verified true (news ++ check.toList)

theorem verifies_iff (c : Checker) (owner : Owner) (call : Nat) (required : String)
    (outcome : Outcome) : (c.versionProcess owner call (.ok outcome)).Verifies required ↔
      Checker.mentions required outcome = true := by
  rw [Checker.mentions, occursIn_iff]
  constructor
  · rintro ⟨-, o, ho, hin⟩
    cases ho
    exact hin
  · intro hin
    exact ⟨rfl, outcome, rfl, hin⟩

/-- Between two states of a traced system the given processes were started. -/
structure Started (t : Traced σ) (news : List Process) (u : Traced σ) : Prop where
  calls : u.calls = t.calls
  trace : u.trace = t.trace ++ news

theorem Started.refl (t : Traced σ) : Started t [] t := ⟨rfl, (List.append_nil _).symm⟩

theorem Started.trans {t u v : Traced σ} {xs ys : List Process} (h : Started t xs u)
    (h' : Started u ys v) : Started t (xs ++ ys) v :=
  ⟨h'.calls.trans h.calls, by rw [h'.trace, h.trace, List.append_assoc]⟩

theorem verify_tracing {c : Checker} {host : Host σ} {owner : Owner} {t u : Traced σ}
    {r : Except Failure Unit} (h : c.verify (host.tracing owner .version) t = (r, u)) :
    ∃ news, Passage c owner t.calls false r.isOk news ∧ Started t news u ∧
      u.scratches = t.scratches := by
  rw [Checker.verify_apply] at h
  cases hq : c.requires with
  | none =>
    rw [hq] at h
    cases h
    exact ⟨[], .opened (.inr hq), .refl t, rfl⟩
  | some required =>
    simp only [hq, Host.tracing] at h
    rcases hrun : host.run c.program (c.args ++ ["--version"]) t.world with ⟨cause | outcome, w⟩
    · rw [hrun] at h
      cases h
      refine ⟨[c.versionProcess owner t.calls (.error cause)], .refused hq ?_, ⟨rfl, rfl⟩, rfl⟩
      simp [Process.Verifies, Checker.versionProcess]
    · rw [hrun] at h
      refine ⟨[c.versionProcess owner t.calls (.ok outcome)], ?_⟩
      cases hm : Checker.mentions required outcome with
      | true =>
        simp only [hm, if_true] at h
        cases h
        exact ⟨.passed hq ((verifies_iff ..).mpr hm), ⟨rfl, rfl⟩, rfl⟩
      | false =>
        simp only [hm, Bool.false_eq_true, if_false] at h
        cases h
        refine ⟨.refused hq ?_, ⟨rfl, rfl⟩, rfl⟩
        rw [verifies_iff, hm]
        exact Bool.false_ne_true

theorem check_tracing (c : Checker) (host : Host σ) (owner : Owner) (extra : List String)
    (path : String) (t : Traced σ) : ∃ p : Process, p.Checks owner t.calls ∧
      Started t [p] (c.check (host.tracing owner .check) extra path t).2 := by
  rw [Checker.check_apply]
  exact ⟨_, ⟨rfl, rfl, rfl⟩, ⟨rfl, rfl⟩⟩

theorem scan_course (c : Checker) (host : Host σ) (path : String) (t : Traced σ) :
    ∃ verified news, Course c .engine t.calls false verified news ∧
      Started t news (c.scanOn (host.tracing .engine .version) (host.tracing .engine .check)
        path t).2 := by
  unfold Checker.scanOn
  refine Step.bind_post (P := fun u => ∃ verified news,
    Course c .engine t.calls false verified news ∧ Started t news u) ?_ ?_
  · intro f u hverify
    obtain ⟨news, hpassage, hstarted, -⟩ := verify_tracing hverify
    exact ⟨false, news, .stopped hpassage, hstarted⟩
  · intro _ u hverify
    obtain ⟨news, hpassage, hstarted, -⟩ := verify_tracing hverify
    obtain ⟨p, hp, hcheck⟩ := check_tracing c host .engine [] path u
    rw [hstarted.calls] at hp
    rw [Step.bind_pure_snd]
    refine ⟨true, news ++ (some p).toList, .went hpassage ?_, hstarted.trans hcheck⟩
    rintro q ⟨⟩
    exact hp

theorem verifyOnce_tracing {c : Checker} {host : Host σ} {s t : NamingState (Traced σ)}
    {r : Except Failure Unit}
    (h : c.verifyOnce (host.tracing .naming .version) s = (r, t)) :
    t.verified = r.isOk ∧ t.scratch = s.scratch ∧ t.world.scratches = s.world.scratches ∧
      ∃ news, Passage c .naming s.world.calls s.verified t.verified news ∧
        Started s.world news t.world := by
  rw [Checker.verifyOnce_apply] at h
  obtain ⟨verified, scratch, w⟩ := s
  cases verified with
  | true =>
    cases h
    exact ⟨rfl, rfl, rfl, [], .opened (.inl rfl), .refl w⟩
  | false =>
    simp only [Bool.false_eq_true, if_false] at h
    rcases hverify : c.verify (host.tracing .naming .version) w with ⟨f | ⟨⟩, u⟩ <;>
      (obtain ⟨news, hpassage, hstarted, hscratches⟩ := verify_tracing hverify
       rw [hverify] at h
       cases h
       exact ⟨rfl, rfl, hscratches, news, hpassage, hstarted⟩)

/-- A part of a naming call behind the gate, with the processes it started. -/
structure Moved (s : NamingState (Traced σ)) (news : List Process) (t : NamingState (Traced σ)) :
    Prop where
  verified : t.verified = s.verified
  started : Started s.world news t.world

theorem Moved.trans {s t u : NamingState (Traced σ)} {xs ys : List Process} (h : Moved s xs t)
    (h' : Moved t ys u) : Moved s (xs ++ ys) u :=
  ⟨h'.verified.trans h.verified, h.started.trans h'.started⟩

theorem scratchDir_tracing (host : Host σ) (s : NamingState (Traced σ)) :
    Moved s [] (Checker.scratchDir (host.tracing .naming .check) s).2 := by
  rw [Checker.scratchDir_apply]
  cases s.scratch with
  | some dir => exact ⟨rfl, .refl s.world⟩
  | none =>
    simp only [Host.tracing]
    rcases host.makeScratch s.world.world with ⟨cause | dir, w⟩
    · exact ⟨rfl, rfl, (List.append_nil _).symm⟩
    · exact ⟨rfl, rfl, (List.append_nil _).symm⟩

theorem removeLeftover_tracing (host : Host σ) (path : String) (s : NamingState (Traced σ)) :
    Moved s [] (Checker.removeLeftover (host.tracing .naming .check) path s).2 := by
  rw [Checker.removeLeftover_apply]
  exact ⟨rfl, rfl, (List.append_nil _).symm⟩

/-- A naming call behind the gate: it starts one check, or nothing. -/
def CheckedOnce (s t : NamingState (Traced σ)) : Prop :=
  ∃ check : Option Process, (∀ p ∈ check, p.Checks .naming s.world.calls) ∧ Moved s check.toList t

theorem CheckedOnce.of_none {s t : NamingState (Traced σ)} (h : Moved s [] t) : CheckedOnce s t :=
  ⟨none, by simp, h⟩

theorem CheckedOnce.of_some {s t : NamingState (Traced σ)} {p : Process}
    (hp : p.Checks .naming s.world.calls) (h : Moved s [p] t) : CheckedOnce s t :=
  ⟨some p, by rintro q ⟨⟩; exact hp, h⟩

theorem verifiedResults_tracing (c : Checker) (host : Host σ) (path : String)
    (s : NamingState (Traced σ)) :
    CheckedOnce s (c.verifiedResults (host.tracing .naming .check) path s).2 := by
  unfold Checker.verifiedResults
  -- Up to the check nothing is started, and after it the output is only read.
  have hscratch := scratchDir_tracing host s
  refine Step.bind_post ?_ ?_
  · intro f u hu
    rw [hu] at hscratch
    exact .of_none hscratch
  intro dir u hu
  rw [hu] at hscratch
  have hleftover := hscratch.trans (removeLeftover_tracing host (Checker.outputFile dir) u)
  refine Step.bind_post ?_ ?_
  · intro f v hv
    rw [hv] at hleftover
    exact .of_none hleftover
  intro _ v hv
  rw [hv] at hleftover
  obtain ⟨p, hp, hstarted⟩ := check_tracing c host .naming
    ["--output-file=" ++ Checker.outputFile dir] path v.world
  rw [hleftover.started.calls] at hp
  have hcheck : Moved s [p] (NamingState.liftStep (c.check (host.tracing .naming .check)
      ["--output-file=" ++ Checker.outputFile dir] path) v).2 :=
    hleftover.trans ⟨rfl, hstarted⟩
  refine Step.bind_post ?_ ?_
  · intro f w hw
    rw [hw] at hcheck
    exact .of_some hp hcheck
  intro outcome w hw
  rw [hw] at hcheck
  rw [Checker.readOutput_return_apply]
  exact .of_some hp hcheck

/-- A whole naming call. One that leaves the checker unverified has not asked for a scratch
directory. -/
structure Called (c : Checker) (s t : NamingState (Traced σ)) : Prop where
  course : ∃ news, Course c .naming s.world.calls s.verified t.verified news ∧
    Started s.world news t.world
  no_scratch : t.verified = false → t.scratch = s.scratch ∧ t.world.scratches = s.world.scratches

theorem namingResults_called (c : Checker) (host : Host σ) (path : String)
    (s : NamingState (Traced σ)) :
    Called c s (c.namingResultsOn (host.tracing .naming .version) (host.tracing .naming .check)
      path s).2 := by
  unfold Checker.namingResultsOn
  refine Step.bind_post ?_ ?_
  · intro f t hverify
    obtain ⟨hfalse, hscratch, hscratches, news, hpassage, hstarted⟩ := verifyOnce_tracing hverify
    replace hfalse : t.verified = false := hfalse
    rw [hfalse] at hpassage
    refine ⟨⟨news, ?_, hstarted⟩, fun _ => ⟨hscratch, hscratches⟩⟩
    rw [hfalse]
    exact .stopped hpassage
  · intro _ t hverify
    obtain ⟨htrue, -, -, news, hpassage, hstarted⟩ := verifyOnce_tracing hverify
    obtain ⟨check, hcheck, hmoved⟩ := verifiedResults_tracing c host path t
    replace htrue : t.verified = true := htrue
    rw [htrue] at hpassage
    rw [hstarted.calls] at hcheck
    have hverified := hmoved.verified.trans htrue
    refine ⟨⟨news ++ check.toList, ?_, hstarted.trans hmoved.started⟩, ?_⟩
    · rw [hverified]
      exact .went hpassage hcheck
    · intro hfalse
      rw [hverified] at hfalse
      cases hfalse

theorem namingResults_refused {c : Checker} {host : Host σ} {s : NamingState (Traced σ)}
    {f : Failure} (path : String)
    (h : (c.verifyOnce (host.tracing .naming .version) s).1 = .error f) :
    ∃ t, c.namingResultsOn (host.tracing .naming .version) (host.tracing .naming .check) path s =
      (.error f, t) ∧ t.verified = false := by
  unfold Checker.namingResultsOn
  rw [Step.bind_apply]
  rcases hverify : c.verifyOnce (host.tracing .naming .version) s with ⟨f' | ⟨⟩, t⟩
  · rw [hverify] at h
    cases h
    exact ⟨t, rfl, (verifyOnce_tracing hverify).1⟩
  · rw [hverify] at h
    cases h

end Calls

theorem Host.tracing_reflects {σ : Type} (host : Host σ) (owner : Owner) (role : Role) :
    (host.tracing owner role).Reflects Traced.world host where
  tempDir _ := rfl
  readText _ _ := rfl
  removeFile _ _ := rfl
  makeScratch _ := rfl
  removeScratch _ _ := rfl
  run _ _ _ := rfl

namespace Request
variable {σ : Type} (engine naming : Checker) (host : Host σ)

theorem through_act (request : Request σ) (s : NamingState (Traced σ)) :
    (close (request.act engine naming host s)).through Traced.world =
      request.perform engine naming host (s.through Traced.world) := by
  have hreflects := host.tracing_reflects
  cases request with
  | scan path =>
    exact (congrArg Prod.snd
      (Mirrors.lift (mirrors_scanOn engine (hreflects _ _) (hreflects _ _) path) s)).symm
  | results path =>
    exact (congrArg Prod.snd
      (mirrors_namingResultsOn naming (hreflects _ _) (hreflects _ _) path s)).symm
  | cleanup => exact (congrArg Prod.snd (mirrors_releaseOn (hreflects _ _) s)).symm
  | change f => rfl

theorem calls_act (request : Request σ) (s : NamingState (Traced σ)) :
    (request.act engine naming host s).world.calls = s.world.calls := by
  cases request with
  | scan path =>
    obtain ⟨_, _, _, hstarted⟩ := scan_course engine host path s.world
    exact hstarted.calls
  | results path =>
    obtain ⟨_, _, hstarted⟩ := (namingResults_called naming host path s).course
    exact hstarted.calls
  | cleanup =>
    rw [act, Checker.release_apply]
    cases s.scratch <;> rfl
  | change f => rfl

theorem observe_concat (requests : List (Request σ)) (request : Request σ) (world : σ) :
    observe engine naming host (requests ++ [request]) world =
      close (request.act engine naming host (observe engine naming host requests world)) := by
  rw [observe, List.foldl_append]
  rfl

theorem performAll_concat (requests : List (Request σ)) (request : Request σ) (world : σ) :
    performAll engine naming host (requests ++ [request]) world =
      request.perform engine naming host (performAll engine naming host requests world) := by
  rw [performAll, List.foldl_append]
  rfl

end Request
end StyleAudit
