import StyleAudit.Proofs.History
import StyleAudit.Proofs.Shelf

/-!
# Naming answers are fresh

The scratch directory and the output file in it outlive a call. A call removes what an earlier one
left at the output path before it starts its process, so its answer is a function of what that
process did: how it ended, what it printed, and what it did at the output path.
-/

namespace StyleAudit
set_option autoImplicit false

open Text

/-- What a process did at a path: it left the path alone, or it left what is read there now. -/
inductive Imprint where
  | untouched
  | left (content : Except Cause String)

namespace Imprint

/-- The imprint is that of a process which ran between two states of the system. -/
def Fits {σ : Type} (host : Host σ) (before after : σ) (path : String) : Imprint → Prop
  | untouched => host.readText after path = host.readText before path
  | left content => host.readText after path = content

def content : Imprint → Except Cause String
  | untouched => .error .noEntry
  | left content => content

def text (i : Imprint) : String :=
  match i.content with
  | .ok text => text
  | .error _ => ""

theorem Fits.read_eq {σ : Type} {host : Host σ} {before after : σ} {path : String} {i : Imprint}
    (h : i.Fits host before after path) (hfree : host.readText before path = .error .noEntry) :
    host.readText after path = i.content := by
  cases i with
  | untouched => exact Eq.trans h hfree
  | left content => exact h

end Imprint

/-- Nothing can be read at a path once a file was removed there, or was found not to be there. -/
def Host.RemovesFiles {σ : Type} (host : Host σ) : Prop :=
  ∀ w path, (host.removeFile path w).1 = .ok () ∨ (host.removeFile path w).1 = .error .noEntry →
    host.readText (host.removeFile path w).2 path = .error .noEntry

namespace Table

theorem isEmpty_alter {α : Type} (t : Table α) (key : String) (f : Option α → α) :
    (t.alter key f).isEmpty = false := by
  obtain ⟨entries⟩ := t
  cases entries with
  | nil => rfl
  | cons e rest =>
    by_cases h : e.1 = key <;> simp [alter, alterEntries, isEmpty, h]

end Table

namespace Statistics

theorem isEmpty_tallies_recordAll (d : Diagnostics) (rs : List Record) :
    (recordAll d rs).tallies.isEmpty = (d.tallies.isEmpty && rs.isEmpty) := by
  induction rs generalizing d with
  | nil => simp [recordAll]
  | cons r rest ih =>
    change (recordAll (d.record r.code r.count r.message) rest).tallies.isEmpty = _
    rw [ih, Diagnostics.record, Table.isEmpty_alter]
    simp

theorem isEmpty_counters_parse (text : String) :
    (parse text).counters.isEmpty = (records text).isEmpty := by
  have h := isEmpty_tallies_recordAll .empty (records text)
  rw [← show (parse text).tallies.isEmpty = (recordAll .empty (records text)).tallies.isEmpty
    from rfl] at h
  simpa [Diagnostics.counters, Table.mapValues, Table.isEmpty, Diagnostics.empty] using h

end Statistics

/-- The naming verdict of an output text and of standard output, which counts only if no line of
the text is a statistics line. -/
def Verdict.ofNaming (text : String) (stdout : ByteArray) : Verdict × Count :=
  Verdict.ofCodes CodeSet.namingCodes
    (if Statistics.records text = [] then (Statistics.parse (Utf8.lossyText stdout)).counters
      else (Statistics.parse text).counters)

theorem Verdict.ofCodes_namingDiagnostics (text : String) (stdout : ByteArray) :
    Verdict.ofCodes CodeSet.namingCodes (Checker.namingDiagnostics text stdout).counters =
      Verdict.ofNaming text stdout := by
  rw [Verdict.ofNaming, Checker.namingDiagnostics, Statistics.isEmpty_counters_parse]
  by_cases h : Statistics.records text = []
  · simp [h]
  · simp [h]

namespace Checker
variable {σ : Type}

def answer (c : Checker) (file : String) (ended : Except Cause Outcome)
    (content : Except Cause String) : Except Failure (Verdict × Count) :=
  (c.judge ended).bind fun outcome =>
    (unlessMissing file "" content).map fun text => Verdict.ofNaming text outcome.stdout

/-- An event at which a call stops before it starts its process, with the state it left and the
failure: the version check, the scratch directory, or a leftover that cannot be removed. -/
inductive Setback (c : Checker) (host : Host σ) : Event → σ → Failure → Prop
  | unavailable (cause : Cause) (w : σ) :
      Setback c host (.ran c.program (c.args ++ ["--version"]) (.error cause)) w
        (.checkerUnavailable c.program cause)
  | unmentioned (required : String) (outcome : Outcome) (w : σ) :
      c.requires = some required → mentions required outcome = false →
      Setback c host (.ran c.program (c.args ++ ["--version"]) (.ok outcome)) w
        (.missingPlugin c.program required)
  | noScratch (cause : Cause) (w : σ) :
      Setback c host (.made (.error cause)) w (.inputOutput cause (host.tempDir w))
  | leftover (dir : String) (cause : Cause) (w : σ) : cause ≠ .noEntry →
      Setback c host (.cleared (outputFile dir) (.error cause)) w
        (.inputOutput cause (outputFile dir))

def Stopped (c : Checker) (host : Host σ) (s t : NamingState (History σ)) (f : Failure) : Prop :=
  ∃ h e w, s.world.UpTo h ∧ t.world = h.step e w ∧ c.Setback host e w f

/-- A call came to its process, which began after the history `h` and left the state `w`. -/
structure Checked (c : Checker) (path : String) (s t : NamingState (History σ)) (h : History σ)
    (dir : String) (ended : Except Cause Outcome) (w : σ) : Prop where
  since : s.world.UpTo h
  scratch : t.scratch = some dir
  world : t.world =
    h.step (.ran c.program (c.args ++ ["--output-file=" ++ outputFile dir, path]) ended) w

section Pieces
variable {host : Host σ} {c : Checker} {s t : NamingState (History σ)}

theorem verifyOnce_cases {r : Except Failure Unit} (hrun : c.verifyOnce host.watched s = (r, t)) :
    (∃ f, r = .error f ∧ c.Stopped host s t f) ∨ (r = .ok () ∧ s.world.UpTo t.world) := by
  rw [verifyOnce_apply, verify_apply] at hrun
  cases hv : s.verified with
  | true =>
    simp only [hv, if_true] at hrun
    cases hrun
    exact .inr ⟨rfl, .now⟩
  | false =>
    cases hq : c.requires with
    | none =>
      simp only [hv, hq, Bool.false_eq_true, if_false] at hrun
      cases hrun
      exact .inr ⟨rfl, .now⟩
    | some required =>
      simp only [hv, hq, Bool.false_eq_true, if_false, Host.watched, History.enter] at hrun
      rcases hans : host.run c.program (c.args ++ ["--version"]) s.world.world with ⟨cause | o, w⟩
      · simp only [hans] at hrun
        cases hrun
        exact .inl ⟨_, rfl, s.world, _, w, .now, rfl, .unavailable cause w⟩
      · cases hm : mentions required o with
        | false =>
          simp only [hans, hm, Bool.false_eq_true, if_false] at hrun
          cases hrun
          exact .inl ⟨_, rfl, s.world, _, w, .now, rfl, .unmentioned required o w hq hm⟩
        | true =>
          simp only [hans, hm, if_true] at hrun
          cases hrun
          exact .inr ⟨rfl, .before .now⟩

theorem scratchDir_cases {r : Except Failure String} (hrun : scratchDir host.watched s = (r, t)) :
    (∃ f, r = .error f ∧ c.Stopped host s t f) ∨
      (∃ dir, r = .ok dir ∧ t.scratch = some dir ∧ s.world.UpTo t.world) := by
  rw [scratchDir_apply] at hrun
  cases hs : s.scratch with
  | some dir =>
    simp only [hs] at hrun
    cases hrun
    exact .inr ⟨dir, rfl, hs, .now⟩
  | none =>
    simp only [hs, Host.watched, History.enter] at hrun
    rcases hans : host.makeScratch s.world.world with ⟨cause | dir, w⟩
    · simp only [hans] at hrun
      cases hrun
      exact .inl ⟨_, rfl, s.world, _, w, .now, rfl, .noScratch cause w⟩
    · simp only [hans] at hrun
      cases hrun
      exact .inr ⟨dir, rfl, rfl, .before .now⟩

theorem removeLeftover_cases (hremove : host.RemovesFiles) {dir : String}
    {r : Except Failure Unit} (hrun : removeLeftover host.watched (outputFile dir) s = (r, t)) :
    (∃ f, r = .error f ∧ c.Stopped host s t f) ∨
      (r = .ok () ∧ t.scratch = s.scratch ∧ s.world.UpTo t.world ∧
        host.readText t.world.world (outputFile dir) = .error .noEntry) := by
  rw [removeLeftover_apply] at hrun
  simp only [Host.watched, History.enter] at hrun
  have hfree := hremove s.world.world (outputFile dir)
  rcases hans : host.removeFile (outputFile dir) s.world.world with ⟨cause | ⟨⟩, w⟩
  · rw [hans] at hrun hfree
    by_cases hc : cause = .noEntry
    · simp only [unlessMissing, hc, if_true] at hrun
      cases hrun
      exact .inr ⟨rfl, rfl, .before .now, hfree (.inr (by rw [hc]))⟩
    · simp only [unlessMissing, hc, if_false] at hrun
      cases hrun
      exact .inl ⟨_, rfl, s.world, _, w, .now, rfl, .leftover dir cause w hc⟩
  · rw [hans] at hrun hfree
    cases hrun
    exact .inr ⟨rfl, rfl, .before .now, hfree (.inl rfl)⟩

theorem check_cases {dir path : String} {r : Except Failure Outcome}
    (hrun : NamingState.liftStep
      (c.check host.watched ["--output-file=" ++ outputFile dir] path) s = (r, t)) :
    ∃ ended w, t.scratch = s.scratch ∧ r = c.judge ended ∧ t.world = s.world.step
      (.ran c.program (c.args ++ ["--output-file=" ++ outputFile dir, path]) ended) w := by
  simp only [NamingState.liftStep, NamingState.lift, check_apply] at hrun
  cases hrun
  exact ⟨_, _, rfl, rfl, rfl⟩

theorem Stopped.earlier {k : NamingState (History σ)} {f : Failure}
    (hsince : k.world.UpTo s.world) (h : c.Stopped host s t f) : c.Stopped host k t f := by
  obtain ⟨p, e, w, hp, ht, hback⟩ := h
  exact ⟨p, e, w, hsince.trans hp, ht, hback⟩

end Pieces

section Call
variable {host : Host σ} {c : Checker} {path : String} {s t : NamingState (History σ)}
  {r : Except Failure (Verdict × Count)}

/-- A call stops at a setback, or it starts its process with nothing at the output path and its
answer depends on what the process did. -/
theorem namingResults_cases (hremove : host.RemovesFiles)
    (hcall : c.namingResults host.watched path s = (r, t)) :
    (∃ f, r = .error f ∧ c.Stopped host s t f) ∨
      ∃ h dir ended w, c.Checked path s t h dir ended w ∧
        host.readText h.world (outputFile dir) = .error .noEntry ∧
        r = c.answer (outputFile dir) ended (host.readText w (outputFile dir)) := by
  unfold namingResults at hcall
  obtain ⟨f, hstep, rfl⟩ | ⟨⟨⟩, s₁, hstep, hcall⟩ := Step.bind_cases hcall
  · obtain ⟨_, ⟨⟩, hstop⟩ | ⟨⟨⟩, -⟩ := verifyOnce_cases hstep
    exact .inl ⟨f, rfl, hstop⟩
  obtain ⟨_, ⟨⟩, -⟩ | ⟨-, h₁⟩ := verifyOnce_cases hstep
  obtain ⟨f, hstep, rfl⟩ | ⟨dir, s₂, hstep, hcall⟩ := Step.bind_cases hcall
  · obtain ⟨_, ⟨⟩, hstop⟩ | ⟨_, ⟨⟩, -⟩ := scratchDir_cases (c := c) hstep
    exact .inl ⟨f, rfl, hstop.earlier h₁⟩
  obtain ⟨_, ⟨⟩, -⟩ | ⟨_, ⟨⟩, hdir, h₂⟩ := scratchDir_cases (c := c) hstep
  obtain ⟨f, hstep, rfl⟩ | ⟨⟨⟩, s₃, hstep, hcall⟩ := Step.bind_cases hcall
  · obtain ⟨_, ⟨⟩, hstop⟩ | ⟨⟨⟩, -⟩ := removeLeftover_cases (c := c) hremove hstep
    exact .inl ⟨f, rfl, hstop.earlier (h₁.trans h₂)⟩
  obtain ⟨_, ⟨⟩, -⟩ | ⟨-, hscratch, h₃, hfree⟩ := removeLeftover_cases (c := c) hremove hstep
  have hsince : s.world.UpTo s₃.world := (h₁.trans h₂).trans h₃
  -- No setback is left: the process starts, and nothing is at its output path.
  right
  obtain ⟨f, hstep, rfl⟩ | ⟨outcome, s₄, hstep, hcall⟩ := Step.bind_cases hcall
  · obtain ⟨ended, w, hkept, hf, hworld⟩ := check_cases hstep
    refine ⟨s₃.world, dir, ended, w, ⟨hsince, ?_, hworld⟩, hfree, ?_⟩
    · rw [hkept, hscratch, hdir]
    · rw [answer, ← hf]
      rfl
  · obtain ⟨ended, w, hkept, hok, hworld⟩ := check_cases hstep
    have hread : host.watched.readText s₄.world (outputFile dir) =
        host.readText w (outputFile dir) := by
      rw [hworld]
      rfl
    rw [readOutput_return_apply, hread] at hcall
    cases hcall
    refine ⟨s₃.world, dir, ended, w, ⟨hsince, ?_, hworld⟩, hfree, ?_⟩
    · rw [hkept, hscratch, hdir]
    · rw [answer, ← hok]
      simp only [Except.bind, Verdict.ofCodes_namingDiagnostics]

theorem answer_eq_ok {file : String} {ended : Except Cause Outcome} {i : Imprint}
    {v : Verdict × Count} (h : c.answer file ended i.content = .ok v) :
    ∃ outcome, ended = .ok outcome ∧ v = Verdict.ofNaming i.text outcome.stdout := by
  rw [answer] at h
  cases hj : c.judge ended with
  | error f =>
    rw [hj] at h
    cases h
  | ok outcome =>
    refine ⟨outcome, eq_of_judge_eq_ok hj, ?_⟩
    rw [hj, Except.bind] at h
    rw [Imprint.text]
    cases hi : i.content with
    | ok text =>
      rw [hi] at h
      exact (Except.ok.inj h).symm
    | error cause =>
      rw [hi, unlessMissing] at h
      split at h
      · exact (Except.ok.inj h).symm
      · cases h

theorem unwatched_call {ops : List (Operation σ)} {world : σ}
    (hs : s = Operation.performAll c host.watched (ops.map .watched) { world := .start world })
    (hcall : c.namingResults host.watched path s = (r, t)) :
    c.namingResults host path (Operation.performAll c host ops { world }) = (r, t.unwatched) := by
  have hview : s.unwatched = Operation.performAll c host ops { world } := by
    rw [hs]
    exact unwatched_performAll c host ops _
  rw [← hview, mirrors_namingResults c host path s, hcall]

end Call

/-- Where two calls both come to their processes, these end alike and do the same at their output
paths. -/
def Alike (c : Checker) (host : Host σ) (path : String) (s t s' t' : NamingState (History σ)) :
    Prop :=
  ∀ h dir ended w h' dir' ended' w',
    c.Checked path s t h dir ended w → c.Checked path s' t' h' dir' ended' w' →
    ended = ended' ∧ ∃ i : Imprint, i.Fits host h.world w (outputFile dir) ∧
      i.Fits host h'.world w' (outputFile dir')

theorem same_answers {host : Host σ} {c : Checker} (hremove : host.RemovesFiles) {path : String}
    {s t s' t' : NamingState (History σ)} {r r' : Except Failure (Verdict × Count)}
    (hcall : c.namingResults host.watched path s = (r, t))
    (hcall' : c.namingResults host.watched path s' = (r', t'))
    (halike : c.Alike host path s t s' t') :
    (∃ f, r = .error f ∧ c.Stopped host s t f) ∨ (∃ f, r' = .error f ∧ c.Stopped host s' t' f) ∨
      ∃ dir dir' ended, ∃ i : Imprint, t.scratch = some dir ∧ t'.scratch = some dir' ∧
        r = c.answer (outputFile dir) ended i.content ∧
        r' = c.answer (outputFile dir') ended i.content := by
  obtain hstop | ⟨h, dir, ended, w, hchecked, hfree, hr⟩ := namingResults_cases hremove hcall
  · exact .inl hstop
  obtain hstop | ⟨h', dir', ended', w', hchecked', hfree', hr'⟩ :=
    namingResults_cases hremove hcall'
  · exact .inr (.inl hstop)
  obtain ⟨rfl, i, hfits, hfits'⟩ := halike _ _ _ _ _ _ _ _ hchecked hchecked'
  rw [hfits.read_eq hfree] at hr
  rw [hfits'.read_eq hfree'] at hr'
  exact .inr (.inr ⟨dir, dir', ended, i, hchecked.scratch, hchecked'.scratch, hr, hr'⟩)

end Checker

/-- The answer of a naming call is that of its own process. After any operations, a verdict is the
one of what the process of the call left and printed. Two calls after different operations, whose
processes do the same, never give two verdicts; unless one of them stops at a setback, they give the
same answer. -/
theorem Checker.naming_answers_are_fresh {σ : Type} (host : Host σ) (hremove : host.RemovesFiles)
    (c : Checker) (path : String) (ops ops' : List (Operation σ)) (world world' : σ)
    (s s' t t' : NamingState (History σ)) (r r' : Except Failure (Verdict × Count))
    (hs : s = Operation.performAll c host.watched (ops.map .watched) { world := .start world })
    (hs' : s' = Operation.performAll c host.watched (ops'.map .watched) { world := .start world' })
    (hcall : c.namingResults host.watched path s = (r, t))
    (hcall' : c.namingResults host.watched path s' = (r', t')) :
    c.namingResults host path (Operation.performAll c host ops { world }) = (r, t.unwatched) ∧
    c.namingResults host path (Operation.performAll c host ops' { world := world' }) =
      (r', t'.unwatched) ∧
    (∀ verdict, r = .ok verdict → ∃ h dir outcome w,
      c.Checked path s t h dir (.ok outcome) w ∧
      ∀ i : Imprint, i.Fits host h.world w (outputFile dir) →
        verdict = Verdict.ofNaming i.text outcome.stdout) ∧
    (c.Alike host path s t s' t' →
      (∀ verdict verdict', r = .ok verdict → r' = .ok verdict' → verdict = verdict') ∧
      ((∃ f, r = .error f ∧ c.Stopped host s t f) ∨ (∃ f, r' = .error f ∧ c.Stopped host s' t' f) ∨
        ∃ dir dir' ended, ∃ i : Imprint, t.scratch = some dir ∧ t'.scratch = some dir' ∧
          r = c.answer (outputFile dir) ended i.content ∧
          r' = c.answer (outputFile dir') ended i.content)) := by
  refine ⟨?_, ?_, ?_, ?_⟩
  · exact unwatched_call hs hcall
  · exact unwatched_call hs' hcall'
  · rintro verdict rfl
    obtain ⟨f, hf, -⟩ | ⟨h, dir, ended, w, hchecked, hfree, hr⟩ := namingResults_cases hremove hcall
    · cases hf
    have hown : ∀ i : Imprint, i.Fits host h.world w (outputFile dir) →
        ∃ outcome, ended = .ok outcome ∧ verdict = Verdict.ofNaming i.text outcome.stdout := by
      intro i hfits
      rw [hfits.read_eq hfree] at hr
      exact answer_eq_ok hr.symm
    obtain ⟨outcome, rfl, -⟩ := hown (.left (host.readText w (outputFile dir))) rfl
    refine ⟨h, dir, outcome, w, hchecked, ?_⟩
    intro i hfits
    obtain ⟨o, ho, hverdict⟩ := hown i hfits
    cases ho
    exact hverdict
  · intro halike
    have hsame := same_answers hremove hcall hcall' halike
    refine ⟨?_, hsame⟩
    rintro verdict verdict' rfl rfl
    obtain ⟨f, hf, -⟩ | ⟨f, hf, -⟩ | ⟨dir, dir', ended, i, -, -, hr, hr'⟩ := hsame
    · cases hf
    · cases hf
    · obtain ⟨outcome, rfl, hv⟩ := answer_eq_ok hr.symm
      obtain ⟨o, ho, hv'⟩ := answer_eq_ok hr'.symm
      cases ho
      rw [hv, hv']

theorem Shelf.host_removesFiles : Shelf.host.RemovesFiles := Shelf.content_removeFile

/-- The errors of `bad.py` lie at the output path when a checker is asked about `good.py`, and a new
checker is asked the same. No process writes anything, and the verdicts are the same. -/
theorem Checker.fresh_on_the_shelf :
    let c : Checker := ⟨"lint", [], none⟩
    let s := Operation.performAll c Shelf.host.watched ([.results "bad.py"].map .watched)
      { world := .start {} }
    let s' : NamingState (History Shelf) := { world := .start {} }
    let call := c.namingResults Shelf.host.watched "good.py" s
    let call' := c.namingResults Shelf.host.watched "good.py" s'
    s.world.world.files = [("/tmp/naming/naming.txt", "2 N802 name\n")] ∧
      c.Alike Shelf.host "good.py" s call.2 s' call'.2 ∧
      ∃ verdict, call.1 = .ok verdict ∧ call'.1 = .ok verdict := by
  intro c s s' call call'
  have hfresh := Checker.naming_answers_are_fresh Shelf.host Shelf.host_removesFiles c "good.py"
    [.results "bad.py"] [] {} {} s s' call.2 call'.2 call.1 call'.1 rfl rfl (Prod.eta _).symm
    (Prod.eta _).symm
  have halike : c.Alike Shelf.host "good.py" s call.2 s' call'.2 := by
    intro h dir ended w h' dir' ended' w' hchecked hchecked'
    have hdir : some "/tmp/naming" = some dir := hchecked.scratch
    have hdir' : some "/tmp/naming" = some dir' := hchecked'.scratch
    cases hdir
    cases hdir'
    have hworld := hchecked.world
    have hworld' := hchecked'.world
    cases hworld
    cases hworld'
    exact ⟨rfl, .untouched, rfl, rfl⟩
  obtain ⟨verdict, hok⟩ : ∃ v, call.1 = .ok v := ⟨_, rfl⟩
  obtain ⟨verdict', hok'⟩ : ∃ v, call'.1 = .ok v := ⟨_, rfl⟩
  have heq : verdict = verdict' := (hfresh.2.2.2 halike).1 verdict verdict' hok hok'
  exact ⟨by decide, halike, verdict, hok, heq ▸ hok'⟩

end StyleAudit
