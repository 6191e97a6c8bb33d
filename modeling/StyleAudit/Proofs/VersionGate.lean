import Mathlib.Data.List.Induction
import StyleAudit.Proofs.Processes
import StyleAudit.Proofs.Shelf

/-!
# The version gate

Where a checker requires a text in its version banner, no file is checked before a banner with that
text was seen: by each scan of an engine for itself, by a naming checker once and for all. The gate
is a condition on each process of a trace and the processes before it.
-/

namespace StyleAudit
set_option autoImplicit false

def Owner.checker (engine naming : Checker) : Owner → Checker
  | .engine => engine
  | .naming => naming

/-- What must have gone before a process of an engine and a naming checker. -/
structure Admissible (engine naming : Checker) (before : List Process) (p : Process) : Prop where
  /-- Nobody asks for a version who requires nothing of it. -/
  version : p.role = .version → (p.owner.checker engine naming).requires ≠ none ∧
    p.program = (p.owner.checker engine naming).program ∧
    p.args = (p.owner.checker engine naming).args ++ ["--version"]
  /-- An engine checks a file directly after the version was found good in the same scan. -/
  engine_check : p.owner = .engine → p.role = .check →
    ∀ required, engine.requires = some required →
      ∃ q, before.getLast? = some q ∧ q.owner = .engine ∧ q.call = p.call ∧ q.Verifies required
  /-- A naming checker checks a file after its version was found good at some time. -/
  naming_check : p.owner = .naming → p.role = .check →
    ∀ required, naming.requires = some required →
      ∃ q ∈ before, q.owner = .naming ∧ q.Verifies required
  /-- Once its version was found good, a naming checker does not ask for it again. -/
  naming_once : p.owner = .naming → p.role = .version →
    ∀ required, naming.requires = some required →
      ∀ q ∈ before, q.owner = .naming → ¬q.Verifies required
  /-- No call starts two processes in one role. -/
  no_retry : ∀ q ∈ before, q.call = p.call → q.role ≠ p.role

def Gated (engine naming : Checker) (trace : List Process) : Prop :=
  ∀ before p after, trace = before ++ p :: after → Admissible engine naming before p

theorem Gated.nil (engine naming : Checker) : Gated engine naming [] := by
  intro before p after h
  simp at h

theorem Gated.concat {engine naming : Checker} {trace : List Process} {p : Process}
    (h : Gated engine naming trace) (hp : Admissible engine naming trace p) :
    Gated engine naming (trace ++ [p]) := by
  intro before q after heq
  -- The process is the new one, or it stands in the old trace.
  rcases List.eq_nil_or_concat' after with rfl | ⟨later, last, rfl⟩
  · obtain ⟨rfl, hlast⟩ := List.append_inj' heq rfl
    cases hlast
    exact hp
  · rw [← List.cons_append, ← List.append_assoc] at heq
    exact h before q later (List.append_inj' heq rfl).1

section Gate
variable {engine naming : Checker} {trace news : List Process} {owner : Owner} {call : Nat}
  {verified after : Bool}

/-- What the trace so far says about the owner of the next call: the calls of the trace are over,
and whether the owner counts as verified is what its version processes came to. -/
structure Outlook (engine naming : Checker) (owner : Owner) (call : Nat) (verified : Bool)
    (trace : List Process) : Prop where
  past : ∀ p ∈ trace, p.call < call
  verified_naming : verified = true → owner = .naming
  seen : verified = true → ∀ required, naming.requires = some required →
    ∃ q ∈ trace, q.owner = .naming ∧ q.Verifies required
  unseen : verified = false → owner = .naming → ∀ required, naming.requires = some required →
    ∀ q ∈ trace, q.owner = .naming → ¬q.Verifies required

theorem Outlook.admissible_version {required : String} {answer : Except Cause Outcome}
    (h : Outlook engine naming owner call false trace)
    (hrequires : (owner.checker engine naming).requires = some required) :
    Admissible engine naming trace
      ((owner.checker engine naming).versionProcess owner call answer) where
  version := by
    intro _
    refine ⟨?_, rfl, rfl⟩
    change (owner.checker engine naming).requires ≠ none
    simp [hrequires]
  engine_check := fun _ hrole => by cases hrole
  naming_check := fun _ hrole => by cases hrole
  naming_once := fun howner _ => h.unseen rfl howner
  no_retry := fun q hq hcall => absurd hcall (Nat.ne_of_lt (h.past q hq))

/-- A check behind the gate: the gate was open from before, or the version was asked for just
now. -/
theorem Outlook.admissible_check {p : Process} (h : Outlook engine naming owner call verified trace)
    (hp : p.Checks owner call)
    (hpassage : Passage (owner.checker engine naming) owner call verified true news) :
    Admissible engine naming (trace ++ news) p := by
  obtain ⟨howner, hcall, hrole⟩ := hp
  have hpast : ∀ q ∈ trace, q.call = p.call → q.role ≠ p.role := by
    intro q hq heq
    rw [hcall] at heq
    exact absurd heq (Nat.ne_of_lt (h.past q hq))
  have hversion : p.role ≠ .version := by simp [hrole]
  cases hpassage with
  | opened hopen =>
    rw [List.append_nil]
    refine ⟨fun hv => absurd hv hversion, ?_, ?_, fun _ hv => absurd hv hversion, hpast⟩
    · rintro hengine - required hrequires
      rw [howner] at hengine
      subst hengine
      obtain htrue | hnone := hopen
      -- An engine is never verified from before.
      · cases h.verified_naming htrue
      · exact absurd (hnone.symm.trans hrequires) (by simp)
    · rintro hnaming - required hrequires
      rw [howner] at hnaming
      subst hnaming
      obtain htrue | hnone := hopen
      · exact h.seen htrue required hrequires
      · exact absurd (hnone.symm.trans hrequires) (by simp)
  | @passed seen answer hseen hverifies =>
    refine ⟨fun hv => absurd hv hversion, ?_, ?_, fun _ hv => absurd hv hversion, ?_⟩
    · rintro hengine - required hrequires
      rw [howner] at hengine
      subst hengine
      obtain rfl : seen = required := Option.some.inj (hseen.symm.trans hrequires)
      exact ⟨_, List.getLast?_concat, rfl, hcall.symm, hverifies⟩
    · rintro hnaming - required hrequires
      rw [howner] at hnaming
      subst hnaming
      obtain rfl : seen = required := Option.some.inj (hseen.symm.trans hrequires)
      exact ⟨_, List.mem_append_right _ List.mem_cons_self, rfl, hverifies⟩
    · intro q hq heq
      rcases List.mem_append.mp hq with hold | hnew
      · exact hpast q hold heq
      · obtain rfl := List.mem_singleton.mp hnew
        exact fun hsame => hversion hsame.symm

theorem Outlook.gated_passage (h : Outlook engine naming owner call verified trace)
    (hgated : Gated engine naming trace)
    (hpassage : Passage (owner.checker engine naming) owner call verified after news) :
    Gated engine naming (trace ++ news) := by
  cases hpassage with
  | opened _ => simpa using hgated
  | refused hrequires _ => exact hgated.concat (h.admissible_version hrequires)
  | passed hrequires _ => exact hgated.concat (h.admissible_version hrequires)

theorem Outlook.gated_course (h : Outlook engine naming owner call verified trace)
    (hgated : Gated engine naming trace)
    (hcourse : Course (owner.checker engine naming) owner call verified after news) :
    Gated engine naming (trace ++ news) := by
  cases hcourse with
  | stopped hpassage => exact h.gated_passage hgated hpassage
  | @went gate check hpassage hcheck =>
    have hbefore := h.gated_passage hgated hpassage
    rw [← List.append_assoc]
    cases check with
    | none => simpa using hbefore
    | some p => exact hbefore.concat (h.admissible_check (hcheck p rfl) hpassage)

theorem Passage.own {c : Checker} (h : Passage c owner call verified after news) :
    ∀ p ∈ news, p.owner = owner ∧ p.call = call := by
  cases h with
  | opened _ => simp
  | refused _ _ => simp [Checker.versionProcess]
  | passed _ _ => simp [Checker.versionProcess]

theorem Course.own {c : Checker} (h : Course c owner call verified after news) :
    ∀ p ∈ news, p.owner = owner ∧ p.call = call := by
  cases h with
  | stopped hpassage => exact hpassage.own
  | went hpassage hcheck =>
    intro p hp
    rcases List.mem_append.mp hp with hgate | hmem
    · exact hpassage.own p hgate
    · obtain ⟨howner, hcall, -⟩ := hcheck p (by simpa using hmem)
      exact ⟨howner, hcall⟩

/-- A checker that requires a text and is verified after a call was so before or found it now. -/
theorem Course.verifies {c : Checker} {required : String}
    (h : Course c owner call verified true news) (hrequires : c.requires = some required) :
    verified = true ∨ ∃ q ∈ news, q.owner = owner ∧ q.Verifies required := by
  cases h with
  | went hpassage _ =>
    cases hpassage with
    | opened hopen =>
      obtain htrue | hnone := hopen
      · exact .inl htrue
      · rw [hrequires] at hnone
        cases hnone
    | @passed seen _ hseen hverifies =>
      obtain rfl : seen = required := Option.some.inj (hseen.symm.trans hrequires)
      exact .inr ⟨_, List.mem_cons_self, rfl, hverifies⟩

/-- A call that leaves its checker unverified started a version process without the text, and
nothing else. -/
theorem Course.refuses {c : Checker} (h : Course c owner call verified false news) :
    verified = false ∧ ∃ p, news = [p] ∧ p.role = .version ∧
      ∀ required, c.requires = some required → ¬p.Verifies required := by
  cases h with
  | stopped hpassage =>
    cases hpassage with
    | @refused seen _ hseen hnot =>
      refine ⟨rfl, _, rfl, rfl, ?_⟩
      intro required hrequires
      obtain rfl : seen = required := Option.some.inj (hseen.symm.trans hrequires)
      exact hnot

theorem Called.refuses {σ : Type} {c : Checker} {s t : NamingState (Traced σ)} (h : Called c s t)
    (hfalse : t.verified = false) :
    s.verified = false ∧ t.scratch = s.scratch ∧ t.world.scratches = s.world.scratches ∧
      ∃ p, t.world.trace = s.world.trace ++ [p] ∧ p.role = .version := by
  obtain ⟨⟨news, hcourse, hstarted⟩, hscratch⟩ := h
  rw [hfalse] at hcourse
  obtain ⟨hbefore, p, rfl, hversion, -⟩ := hcourse.refuses
  obtain ⟨hkeeps, hcount⟩ := hscratch hfalse
  exact ⟨hbefore, hkeeps, hcount, p, hstarted.trace, hversion⟩

/-- The outlook after a call, by what its processes found out for the naming checker. -/
theorem Outlook.next (h : Outlook engine naming .naming call verified trace)
    (hcall : ∀ p ∈ news, p.call = call)
    (hseen : after = true → ∀ required, naming.requires = some required →
      verified = true ∨ ∃ q ∈ news, q.owner = .naming ∧ q.Verifies required)
    (hunseen : after = false → verified = false ∧ ∀ required, naming.requires = some required →
      ∀ q ∈ news, q.owner = .naming → ¬q.Verifies required) :
    Outlook engine naming .naming (call + 1) after (trace ++ news) where
  past := by
    intro p hp
    rcases List.mem_append.mp hp with hold | hnew
    · exact Nat.lt_succ_of_lt (h.past p hold)
    · rw [hcall p hnew]
      exact Nat.lt_succ_self call
  verified_naming := fun _ => rfl
  seen := by
    intro htrue required hrequires
    obtain hbefore | ⟨q, hq, hfound⟩ := hseen htrue required hrequires
    · obtain ⟨q, hq, hfound⟩ := h.seen hbefore required hrequires
      exact ⟨q, List.mem_append_left _ hq, hfound⟩
    · exact ⟨q, List.mem_append_right _ hq, hfound⟩
  unseen := by
    intro hfalse _ required hrequires q hq hnaming
    obtain ⟨hbefore, hnot⟩ := hunseen hfalse
    rcases List.mem_append.mp hq with hold | hnew
    · exact h.unseen hbefore rfl required hrequires q hold hnaming
    · exact hnot required hrequires q hnew hnaming

end Gate

/-- What holds between two requests. -/
structure Kept {σ : Type} (engine naming : Checker) (s : NamingState (Traced σ)) : Prop where
  gated : Gated engine naming s.world.trace
  outlook : Outlook engine naming .naming s.world.calls s.verified s.world.trace
  no_scratch : s.verified = false → s.scratch = none

namespace Kept
variable {σ : Type} {engine naming : Checker} {s t : NamingState (Traced σ)}

theorem start (world : σ) : Kept engine naming { world := { world } } where
  gated := .nil engine naming
  outlook := ⟨by simp, fun _ => rfl, by simp, by simp⟩
  no_scratch := fun _ => rfl

/-- A request that is not for the naming checker's results. -/
theorem aside (h : Kept engine naming s) {news : List Process}
    (hgated : Gated engine naming (s.world.trace ++ news))
    (hown : ∀ p ∈ news, p.owner = .engine ∧ p.call = s.world.calls)
    (hstarted : Started s.world news t.world) (hverified : t.verified = s.verified)
    (hscratch : s.scratch = none → t.scratch = none) : Kept engine naming (Request.close t) where
  gated := by
    change Gated engine naming t.world.trace
    rw [hstarted.trace]
    exact hgated
  outlook := by
    change Outlook engine naming .naming (t.world.calls + 1) t.verified t.world.trace
    rw [hstarted.calls, hstarted.trace, hverified]
    refine h.outlook.next (fun p hp => (hown p hp).2) (fun htrue _ _ => .inl htrue) ?_
    intro hfalse
    refine ⟨hfalse, ?_⟩
    intro required _ q hq hnaming
    rw [(hown q hq).1] at hnaming
    cases hnaming
  no_scratch := fun hfalse => hscratch (h.no_scratch (hverified ▸ hfalse))

theorem called (h : Kept engine naming s) (hcalled : Called naming s t) :
    Kept engine naming (Request.close t) := by
  obtain ⟨news, hcourse, hstarted⟩ := hcalled.course
  refine ⟨?_, ?_, ?_⟩
  · change Gated engine naming t.world.trace
    rw [hstarted.trace]
    exact h.outlook.gated_course h.gated hcourse
  · change Outlook engine naming .naming (t.world.calls + 1) t.verified t.world.trace
    rw [hstarted.calls, hstarted.trace]
    refine h.outlook.next (fun p hp => (hcourse.own p hp).2) ?_ ?_
    · intro htrue required hrequires
      rw [htrue] at hcourse
      exact hcourse.verifies hrequires
    · intro hfalse
      rw [hfalse] at hcourse
      obtain ⟨hbefore, p, rfl, -, hnot⟩ := hcourse.refuses
      refine ⟨hbefore, ?_⟩
      intro required hrequires q hq _
      obtain rfl := List.mem_singleton.mp hq
      exact hnot required hrequires
  · intro hfalse
    obtain ⟨hbefore, hscratch, -⟩ := hcalled.refuses hfalse
    exact hscratch.trans (h.no_scratch hbefore)

theorem act (h : Kept engine naming s) (host : Host σ) (request : Request σ) :
    Kept engine naming (Request.close (request.act engine naming host s)) := by
  have hidle : Gated engine naming (s.world.trace ++ []) := by simpa using h.gated
  cases request with
  | scan path =>
    obtain ⟨verified, news, hcourse, hstarted⟩ := scan_course engine host path s.world
    -- Whatever the naming checker has seen, a scan starts unverified.
    have hengine : Outlook engine naming .engine s.world.calls false s.world.trace :=
      ⟨h.outlook.past, by simp, by simp, by simp⟩
    exact h.aside (hengine.gated_course h.gated hcourse) hcourse.own hstarted rfl fun hs => hs
  | results path => exact h.called (namingResults_called naming host path s)
  | cleanup =>
    rw [Request.act, Checker.release_apply]
    cases hs : s.scratch with
    | none => exact h.aside hidle (by simp) (.refl s.world) rfl fun hs => hs
    | some dir =>
      refine h.aside hidle (by simp) ?_ rfl fun _ => rfl
      exact ⟨rfl, (List.append_nil _).symm⟩
  | change f =>
    exact h.aside hidle (by simp) ⟨rfl, (List.append_nil _).symm⟩ rfl fun hs => hs

end Kept

namespace Request
variable {σ : Type} (engine naming : Checker) (host : Host σ)

/-- Tracing changes nothing, counts the requests, and keeps the gate. -/
theorem kept_observe (requests : List (Request σ)) (world : σ) :
    (observe engine naming host requests world).through Traced.world =
        performAll engine naming host requests world ∧
      (observe engine naming host requests world).world.calls = requests.length ∧
      Kept engine naming (observe engine naming host requests world) := by
  induction requests using List.reverseRecOn with
  | nil => exact ⟨rfl, rfl, .start world⟩
  | append_singleton requests request ih =>
    obtain ⟨hplain, hcalls, hkept⟩ := ih
    rw [observe_concat]
    refine ⟨?_, ?_, hkept.act host request⟩
    · rw [through_act, hplain, performAll_concat]
    · change (request.act engine naming host _).world.calls + 1 = _
      rw [calls_act, hcalls, List.length_append, List.length_singleton]

/-- A naming call whose version check fails on the plain system, as it goes on the traced one. -/
theorem observe_refused {requests : List (Request σ)} {world : σ} {f : Failure} (path : String)
    (h : (naming.verifyOnce host (performAll engine naming host requests world)).1 = .error f) :
    ∃ u, observe engine naming host (requests ++ [.results path]) world = close u ∧
      (naming.namingResults host path (performAll engine naming host requests world)).1 =
        .error f ∧
      Called naming (observe engine naming host requests world) u ∧ u.verified = false := by
  obtain ⟨hplain, -, -⟩ := kept_observe engine naming host requests world
  have hverify := mirrors_verifyOnce naming (host.tracing_reflects .naming .version)
    (observe engine naming host requests world)
  have hresults := mirrors_namingResultsOn naming (host.tracing_reflects .naming .check)
    (host.tracing_reflects .naming .version) path (observe engine naming host requests world)
  rw [hplain] at hverify hresults
  rw [hverify] at h
  obtain ⟨u, hcall, hfalse⟩ := namingResults_refused path h
  have hcalled := namingResults_called naming host path (observe engine naming host requests world)
  rw [hcall] at hresults hcalled
  refine ⟨u, ?_, congrArg Prod.fst hresults, hcalled, hfalse⟩
  rw [observe_concat, act, hcall]

end Request

/-- The version gate holds for any requests to an engine and a new naming checker: each process that
was ever started was admissible after the processes before it. A naming call whose verification
fails ends there; it starts no check, asks for no scratch directory and leaves the checker
unverified. -/
theorem Checker.version_gates_every_check {σ : Type} (host : Host σ) (engine naming : Checker)
    (requests : List (Request σ)) (world : σ) :
    let plain := Request.performAll engine naming host requests world
    let s := Request.observe engine naming host requests world
    s.through Traced.world = plain ∧
    (∀ before p after, s.world.trace = before ++ p :: after →
      Admissible engine naming before p) ∧
    ∀ path f, (naming.verifyOnce host plain).1 = .error f →
      let t := Request.observe engine naming host (requests ++ [.results path]) world
      (naming.namingResults host path plain).1 = .error f ∧
      (∀ p ∈ t.world.trace, p.call = requests.length → p.role = .version) ∧
      t.world.scratches = s.world.scratches ∧ t.scratch = none ∧ t.verified = false := by
  intro plain s
  obtain ⟨hplain, hcalls, hkept⟩ := Request.kept_observe engine naming host requests world
  refine ⟨hplain, hkept.gated, ?_⟩
  intro path f hfails t
  obtain ⟨u, ht, hanswer, hcalled, hfalse⟩ := Request.observe_refused engine naming host path hfails
  obtain ⟨hbefore, hscratch, hscratches, p, htrace, hversion⟩ := hcalled.refuses hfalse
  change t = Request.close u at ht
  rw [ht]
  refine ⟨hanswer, ?_, hscratches, hscratch.trans (hkept.no_scratch hbefore), hfalse⟩
  intro q hq hcall
  change q ∈ u.world.trace at hq
  rw [htrace] at hq
  rcases List.mem_append.mp hq with hold | hnew
  -- The processes of the trace so far belong to earlier requests.
  · have hlt := hkept.outlook.past q hold
    omega
  · obtain rfl := List.mem_singleton.mp hnew
    exact hversion

/-- Without the required text, three requests come to three version processes and nothing more. -/
theorem Checker.version_gates_a_bare_lint :
    let lint : Checker := ⟨"lint", [], some "plugin"⟩
    let requests : List (Request Shelf) := [.scan "bad.py", .results "bad.py"]
    let plain := Request.performAll lint lint Shelf.host requests {}
    let t := Request.observe lint lint Shelf.host (requests ++ [.results "good.py"]) {}
    (lint.verifyOnce Shelf.host plain).1 = .error (.missingPlugin "lint" "plugin") ∧
      (lint.namingResults Shelf.host "good.py" plain).1 =
        .error (.missingPlugin "lint" "plugin") ∧
      t.world.trace.map (fun p => (p.call, p.owner, p.role)) =
        [(0, .engine, .version), (1, .naming, .version), (2, .naming, .version)] ∧
      t.scratch = none ∧ t.verified = false := by
  intro lint requests plain t
  have hfails : (lint.verifyOnce Shelf.host plain).1 = .error (.missingPlugin "lint" "plugin") := by
    decide +kernel
  obtain ⟨-, -, hrefused⟩ :=
    Checker.version_gates_every_check Shelf.host lint lint requests {}
  obtain ⟨hanswer, -, -, hscratch, hverified⟩ := hrefused "good.py" _ hfails
  exact ⟨hfails, hanswer, by decide +kernel, hscratch, hverified⟩

/-- The engine asks for the version in each scan, the naming checker once, also after a release. -/
example :
    let lint : Checker := ⟨"lint", [], some ""⟩
    let requests : List (Request Shelf) :=
      [.scan "bad.py", .results "bad.py", .cleanup, .scan "good.py", .results "good.py"]
    (Request.observe lint lint Shelf.host requests {}).world.trace.map
        (fun p => (p.call, p.owner, p.role)) =
      [(0, .engine, .version), (0, .engine, .check), (1, .naming, .version), (1, .naming, .check),
        (3, .engine, .version), (3, .engine, .check), (4, .naming, .check)] := by decide +kernel

end StyleAudit
