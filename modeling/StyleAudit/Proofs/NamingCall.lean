import StyleAudit.Proofs.Pipeline

/-!
# One call of the naming checker, piece by piece

What verifying, making the scratch directory, removing a leftover, checking, reading and releasing
do to the state, each as one equation.
-/

namespace StyleAudit
set_option autoImplicit false

open Text

namespace Checker
variable {σ : Type}

/-- A scan that asks one host for the version and another one for the check of the file. With one
host in both places it is the scan itself. -/
def scanOn (c : Checker) (versions files : Host σ) (path : String) : Step σ Diagnostics := do
  c.verify versions
  let outcome ← c.check files [] path
  return Statistics.parse (Utf8.lossyText outcome.stdout)

theorem scan_eq_scanOn (c : Checker) (host : Host σ) : c.scan host = c.scanOn host host := rfl

/-- What a naming call does after the version check. -/
def verifiedResults (c : Checker) (host : Host σ) (path : String) :
    Step (NamingState σ) (Verdict × Count) := do
  let file := outputFile (← scratchDir host)
  removeLeftover host file
  let outcome ← NamingState.liftStep (c.check host ["--output-file=" ++ file] path)
  let text ← readOutput host file
  return Verdict.ofCodes CodeSet.namingCodes (namingDiagnostics text outcome.stdout).counters

/-- A naming call that asks one host for the version and another one for all else. -/
def namingResultsOn (c : Checker) (versions files : Host σ) (path : String) :
    Step (NamingState σ) (Verdict × Count) := do
  c.verifyOnce versions
  c.verifiedResults files path

theorem namingResults_eq_namingResultsOn (c : Checker) (host : Host σ) :
    c.namingResults host = c.namingResultsOn host host := rfl

theorem start_apply (c : Checker) (host : Host σ) (args : List String) (w : σ) :
    c.start host args w =
      ((host.run c.program (c.args ++ args) w).1.mapError (.checkerUnavailable c.program),
        (host.run c.program (c.args ++ args) w).2) := by
  unfold start
  rw [Step.bind_apply, Step.lift_apply]
  rcases host.run c.program (c.args ++ args) w with ⟨cause | outcome, w'⟩ <;> rfl

def mentions (required : String) (outcome : Outcome) : Bool :=
  occursIn required.toList (banner outcome).toList

theorem verify_apply (c : Checker) (host : Host σ) (w : σ) :
    c.verify host w =
      match c.requires with
      | none => (.ok (), w)
      | some required =>
        match host.run c.program (c.args ++ ["--version"]) w with
        | (.error cause, w') => (.error (.checkerUnavailable c.program cause), w')
        | (.ok outcome, w') =>
          (if mentions required outcome then .ok () else .error (.missingPlugin c.program required),
            w') := by
  unfold verify
  cases c.requires with
  | none => rfl
  | some required =>
    simp only [Step.bind_apply, start_apply]
    rcases host.run c.program (c.args ++ ["--version"]) w with ⟨cause | outcome, w'⟩
    · rfl
    · change (if occursIn required.toList (banner outcome).toList = true
        then (pure () : Step σ Unit) else throw (.missingPlugin c.program required)) w' = _
      by_cases h : occursIn required.toList (banner outcome).toList = true
      · simp only [mentions, h, if_true]
        rfl
      · simp only [mentions, h]
        rfl

def judge (c : Checker) : Except Cause Outcome → Except Failure Outcome
  | .error cause => .error (.checkerUnavailable c.program cause)
  | .ok outcome =>
    if outcome.status = .code 0 ∨ outcome.status = .code 1 then .ok outcome
    else .error (.checkerFailed c.program outcome.status.text
      (String.ofList (trim (Utf8.decodeLossy outcome.stderr.data.toList))))

theorem eq_of_judge_eq_ok {c : Checker} {ended : Except Cause Outcome} {outcome : Outcome}
    (h : c.judge ended = .ok outcome) : ended = .ok outcome := by
  cases ended with
  | error cause => cases h
  | ok o =>
    rw [judge] at h
    split at h
    · exact congrArg Except.ok (Except.ok.inj h)
    · cases h

theorem check_apply (c : Checker) (host : Host σ) (extra : List String) (path : String) (w : σ) :
    c.check host extra path w =
      (c.judge (host.run c.program (c.args ++ (extra ++ [path])) w).1,
        (host.run c.program (c.args ++ (extra ++ [path])) w).2) := by
  unfold check
  simp only [Step.bind_apply, start_apply]
  rcases host.run c.program (c.args ++ (extra ++ [path])) w with ⟨cause | outcome, w'⟩
  · rfl
  · obtain ⟨stdout, stderr, status⟩ := outcome
    rcases status with (_ | _ | n) | n
    · rfl
    · rfl
    · rfl
    · rfl

theorem verifyOnce_apply (c : Checker) (host : Host σ) (s : NamingState σ) :
    c.verifyOnce host s =
      if s.verified then (.ok (), s)
      else match c.verify host s.world with
        | (.ok (), w) => (.ok (), { s with verified := true, world := w })
        | (.error f, w) => (.error f, { s with world := w }) := by
  unfold verifyOnce
  rw [Step.bind_apply, Step.get_apply]
  obtain ⟨verified, scratch, world⟩ := s
  cases verified with
  | true => rfl
  | false =>
    simp only [Bool.not_false, if_true, Bool.false_eq_true, if_false, Step.bind_apply,
      NamingState.liftStep, NamingState.lift]
    rcases c.verify host world with ⟨f | ⟨⟩, w⟩ <;> rfl

theorem scratchDir_apply (host : Host σ) (s : NamingState σ) :
    scratchDir host s =
      match s.scratch with
      | some dir => (.ok dir, s)
      | none =>
        match host.makeScratch s.world with
        | (.ok dir, w) => (.ok dir, { s with scratch := some dir, world := w })
        | (.error cause, w) => (.error (.inputOutput cause (host.tempDir w)), { s with world := w })
      := by
  unfold scratchDir
  rw [Step.bind_apply, Step.get_apply]
  obtain ⟨verified, scratch, world⟩ := s
  cases scratch with
  | some dir => rfl
  | none =>
    simp only [Step.bind_apply, Step.lift_apply, NamingState.lift]
    rcases host.makeScratch world with ⟨cause | dir, w⟩ <;> rfl

/-- An answer about a path, where it is no failure that nothing is there. -/
def unlessMissing {α : Type} (path : String) (default : α) : Except Cause α → Except Failure α
  | .ok a => .ok a
  | .error cause => if cause = .noEntry then .ok default else .error (.inputOutput cause path)

theorem removeLeftover_apply (host : Host σ) (path : String) (s : NamingState σ) :
    removeLeftover host path s =
      (unlessMissing path () (host.removeFile path s.world).1,
        { s with world := (host.removeFile path s.world).2 }) := by
  unfold removeLeftover
  simp only [Step.bind_apply, Step.lift_apply, NamingState.lift]
  rcases host.removeFile path s.world with ⟨cause | ⟨⟩, w⟩
  · simp only [unlessMissing]
    split <;> rfl
  · rfl

theorem readOutput_apply (host : Host σ) (path : String) (s : NamingState σ) :
    readOutput host path s = (unlessMissing path "" (host.readText s.world path), s) := by
  unfold readOutput
  simp only [Step.bind_apply, Step.get_apply]
  rcases host.readText s.world path with cause | text
  · simp only [unlessMissing]
    split <;> rfl
  · rfl

theorem readOutput_return_apply {β : Type} (host : Host σ) (path : String) (g : String → β)
    (s : NamingState σ) :
    (do return g (← readOutput host path) : Step (NamingState σ) β) s =
      ((unlessMissing path "" (host.readText s.world path)).map g, s) := by
  rw [Step.bind_apply, readOutput_apply]
  rcases unlessMissing path "" (host.readText s.world path) with f | text <;> rfl

theorem release_apply (host : Host σ) (s : NamingState σ) :
    (release host s).2 =
      match s.scratch with
      | none => s
      | some dir => { s with scratch := none, world := (host.removeScratch dir s.world).2 } := by
  obtain ⟨verified, scratch, world⟩ := s
  cases scratch <;> rfl

theorem scratch_release (host : Host σ) (s : NamingState σ) :
    (release host s).2.scratch = none := by
  rw [release_apply]
  cases h : s.scratch with
  | none => exact h
  | some dir => rfl

end Checker
end StyleAudit
