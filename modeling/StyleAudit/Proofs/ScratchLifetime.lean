import StyleAudit.Proofs.History
import StyleAudit.Proofs.Shelf

/-!
# The life of a scratch directory

A naming checker makes a scratch directory at its first use and gives it up when it is released.
Whatever the system answers and however calls, releases, sessions and audits follow each other, the
checker never holds two of them and never loses one that is still there. A session ends with none.
-/

namespace StyleAudit
set_option autoImplicit false

section Directories
variable {σ : Type}

def Host.hasDir (host : Host σ) (w : σ) (path : String) : Bool :=
  host.isEntry w path && !host.isFile w path

def Event.makes : Event → Option String
  | .made (.ok dir) => some dir
  | _ => none

def Event.drops : Event → Option String
  | .dropped dir => some dir
  | _ => none

namespace History

def made : History σ → List String
  | start _ => []
  | step h e _ => e.makes.toList ++ h.made

/-- The scratch directories made in a history and not given up since. -/
def held : History σ → List String
  | start _ => []
  | step h e _ =>
    match e.drops with
    | some dir => h.held.erase dir
    | none => e.makes.toList ++ h.held

/-- What is assumed of the system in a history: a scratch directory that is removed is gone, and
nothing but making it anew brings back a directory that was given up. -/
def Undisturbed (host : Host σ) : History σ → Prop
  | start _ => True
  | step h e w => h.Undisturbed host ∧ (∀ dir ∈ e.drops, host.hasDir w dir = false) ∧
      ∀ dir ∈ h.made, dir ∉ h.held → e.makes ≠ some dir →
        host.hasDir h.world dir = false → host.hasDir w dir = false

instance decidableUndisturbed (host : Host σ) : (h : History σ) → Decidable (h.Undisturbed host)
  | start _ => .isTrue trivial
  | step h _ _ =>
    have := decidableUndisturbed host h
    inferInstanceAs (Decidable (_ ∧ _ ∧ _))

def Clean (host : Host σ) (h : History σ) : Prop :=
  h.held.length ≤ 1 ∧ ∀ dir ∈ h.made, dir ∉ h.held → host.hasDir h.world dir = false

/-- What was gone stays gone, and a directory that leaves the hands of the checker goes with it. -/
theorem gone_step {host : Host σ} {h : History σ} {e : Event} {w : σ}
    (hgone : ∀ dir ∈ h.made, dir ∉ h.held → host.hasDir h.world dir = false)
    (hcalm : (h.step e w).Undisturbed host) :
    ∀ dir ∈ (h.step e w).made, dir ∉ (h.step e w).held → host.hasDir w dir = false := by
  obtain ⟨-, hdrop, hkeep⟩ := hcalm
  intro dir hmade hnot
  cases hd : e.drops with
  | some dropped =>
    have hmakes : e.makes = none := by
      cases e <;> simp [Event.drops, Event.makes] at hd ⊢
    simp only [made, hmakes, Option.toList_none, List.nil_append] at hmade
    simp only [held, hd] at hnot
    by_cases heq : dir = dropped
    · exact hdrop dir (by rw [hd, heq]; rfl)
    · have hnot' : dir ∉ h.held := fun hin => hnot ((List.mem_erase_of_ne heq).mpr hin)
      exact hkeep dir hmade hnot' (by simp [hmakes]) (hgone dir hmade hnot')
  | none =>
    simp only [made, List.mem_append, Option.mem_toList] at hmade
    simp only [held, hd, List.mem_append, Option.mem_toList, not_or] at hnot
    obtain ⟨hmakes, hnot'⟩ := hnot
    rcases hmade with hmade | hmade
    · exact absurd hmade hmakes
    · exact hkeep dir hmade hnot' hmakes (hgone dir hmade hnot')

end History
end Directories

/-- The checker holds what its history says, and the history was clean at every point. -/
structure Tracked {σ : Type} (host : Host σ) (s : NamingState (History σ)) : Prop where
  held : s.world.held = s.scratch.toList
  clean : s.world.Undisturbed host → ∀ p : History σ, p.UpTo s.world → p.Clean host

namespace Tracked
variable {σ : Type} {host : Host σ} {s : NamingState (History σ)}

theorem start (w : σ) : Tracked host { world := .start w } where
  held := rfl
  clean := by
    intro _ p hp
    cases hp
    exact ⟨Nat.zero_le _, fun dir hdir => absurd hdir List.not_mem_nil⟩

theorem step (h : Tracked host s) {t : NamingState (History σ)} {e : Event} {w : σ}
    (hworld : t.world = s.world.step e w) (hheld : t.world.held = t.scratch.toList) :
    Tracked host t where
  held := hheld
  clean := by
    intro hcalm p hp
    rw [hworld] at hcalm hp
    cases hp with
    | before hp => exact h.clean hcalm.1 p hp
    | now =>
      refine ⟨?_, History.gone_step (h.clean hcalm.1 s.world .now).2 hcalm⟩
      rw [← hworld, hheld]
      cases t.scratch <;> simp

theorem pass (h : Tracked host s) {t : NamingState (History σ)} {e : Event} {w : σ}
    (hworld : t.world = s.world.step e w) (hscratch : t.scratch = s.scratch)
    (hmakes : e.makes = none) (hdrops : e.drops = none) : Tracked host t := by
  refine h.step hworld ?_
  rw [hworld, hscratch, History.held, hdrops, hmakes]
  exact h.held

end Tracked

section Calls
variable {σ : Type} {host : Host σ} {c : Checker}

open Step Checker

theorem tracked_verifyOnce : Preserves (Tracked host) (c.verifyOnce host.watched) := by
  intro s h
  rw [verifyOnce_apply, verify_apply]
  cases s.verified with
  | true => exact h
  | false =>
    cases c.requires with
    | none => exact ⟨h.held, h.clean⟩
    | some required =>
      simp only [Host.watched, History.enter]
      rcases host.run c.program (c.args ++ ["--version"]) s.world.world with ⟨cause | o, w⟩
      · exact h.pass rfl rfl rfl rfl
      · by_cases hm : mentions required o = true
        · simp only [hm]
          exact h.pass rfl rfl rfl rfl
        · simp only [hm]
          exact h.pass rfl rfl rfl rfl

theorem tracked_scratchDir : Preserves (Tracked host) (scratchDir host.watched) := by
  intro s h
  rw [scratchDir_apply]
  cases hs : s.scratch with
  | some dir => exact h
  | none =>
    simp only [Host.watched, History.enter]
    rcases host.makeScratch s.world.world with ⟨cause | dir, w⟩
    · exact h.pass rfl hs.symm rfl rfl
    · refine h.step rfl ?_
      simp [History.held, Event.makes, Event.drops, h.held, hs]

theorem tracked_removeLeftover (path : String) :
    Preserves (Tracked host) (removeLeftover host.watched path) := by
  intro s h
  rw [removeLeftover_apply]
  exact h.pass rfl rfl rfl rfl

theorem tracked_check (extra : List String) (path : String) :
    Preserves (Tracked host) (NamingState.liftStep (c.check host.watched extra path)) := by
  intro s h
  simp only [NamingState.liftStep, NamingState.lift, check_apply]
  exact h.pass rfl rfl rfl rfl

theorem tracked_namingResults (path : String) :
    Preserves (Tracked host) (c.namingResults host.watched path) := by
  unfold namingResults
  refine .bind tracked_verifyOnce fun _ => .bind tracked_scratchDir fun dir =>
    .bind (tracked_removeLeftover _) fun _ => .bind (tracked_check _ _) fun outcome =>
      .bind ?_ fun text => .pure _
  intro s h
  rw [readOutput_apply]
  exact h

theorem tracked_release : Preserves (Tracked host) (release host.watched) := by
  intro s h
  rw [release_apply]
  cases hs : s.scratch with
  | none => exact h
  | some dir =>
    refine h.step rfl ?_
    simp [Host.watched, History.enter, History.held, Event.drops, h.held, hs]

end Calls

namespace Operation
variable {σ : Type}

/-- Whether an operation on a state comes to the point where it opens a naming session. An audit
does once its file was scanned without a fatal finding. -/
def OpensSession (host : Host σ) (s : NamingState σ) : Operation σ → Prop
  | results _ => False
  | cleanup => False
  | session _ => True
  | buildReport _ _ => True
  | ofFile scan path => host.isFile s.world path = true ∧
      ∃ d, (scan path s.world).1 = .ok d ∧ d.fatal? = none
  | run scan name => isFileName name = true ∧ host.isFile s.world name = true ∧
      ∃ d, (scan name s.world).1 = .ok d ∧ d.fatal? = none
  | change _ => False

theorem tracked_perform {host : Host σ} {c : Checker} (op : Operation σ)
    {s : NamingState (History σ)} (h : Tracked host s) :
    Tracked host (op.watched.perform c host.watched s) := by
  have hresults : ∀ path, Step.Preserves (Tracked host)
      ((c.namingChecker host.watched).results path) := tracked_namingResults
  have hcleanup : Step.Preserves (Tracked host) (c.namingChecker host.watched).cleanup :=
    tracked_release
  have hscan : ∀ (scan : String → Step σ Diagnostics) (path : String),
      Step.Preserves (Tracked host)
        ((engine fun p => History.enter (scan p) fun _ => .foreign).scan path) :=
    fun scan path s h => h.pass rfl rfl rfl rfl
  cases op with
  | results path => exact hresults path s h
  | cleanup => exact hcleanup s h
  | session paths =>
    have hask : Step.Preserves (Tracked host)
        (askEach (c.namingChecker host.watched) paths) := by
      refine .mapM (fun path s h => ?_) paths
      exact hresults path s h
    exact hcleanup _ (hask s h)
  | buildReport counters path =>
    exact Audit.preserves_buildReport hresults hcleanup counters path s h
  | ofFile scan path => exact Audit.preserves_ofFile hresults hcleanup (hscan scan) path s h
  | run scan name => exact Audit.preserves_run hresults hcleanup (hscan scan) name s h
  | change f => exact h.pass rfl rfl rfl rfl

theorem tracked_performAll {host : Host σ} {c : Checker} (ops : List (Operation σ))
    {s : NamingState (History σ)} (h : Tracked host s) :
    Tracked host (performAll c host.watched (ops.map .watched) s) := by
  induction ops generalizing s with
  | nil => exact h
  | cons op rest ih => exact ih (tracked_perform op h)

theorem scratch_of_ofFile {host : Host σ} {c : Checker} {scan : String → Step σ Diagnostics}
    {path : String} {s : NamingState σ} (hopens : (ofFile scan path).OpensSession host s) :
    ((ofFile scan path).perform c host s).scratch = none := by
  obtain ⟨hfile, d, hscan, hfatal⟩ := hopens
  have hengine : ((engine scan).scan path s).1 = .ok d := hscan
  have hisFile : isFile host s path = true := hfile
  rw [perform, Audit.ofFile_apply, if_pos hisFile]
  rcases hs : (engine scan).scan path s with ⟨f | e, t⟩
  · rw [hs] at hengine
    cases hengine
  · rw [hs] at hengine
    cases hengine
    simp only [hfatal]
    exact Checker.scratch_release host _

theorem scratch_of_opensSession {host : Host σ} {c : Checker} {op : Operation σ}
    {s : NamingState σ} (hopens : op.OpensSession host s) :
    (op.perform c host s).scratch = none := by
  cases op with
  | results path => exact hopens.elim
  | cleanup => exact hopens.elim
  | session paths => exact Checker.scratch_release host _
  | buildReport counters path =>
    rw [perform, Audit.buildReport_apply]
    exact Checker.scratch_release host _
  | ofFile scan path => exact scratch_of_ofFile hopens
  | run scan name =>
    obtain ⟨hname, hopens⟩ := hopens
    rw [perform, Audit.run_apply, if_pos hname]
    exact scratch_of_ofFile hopens
  | change f => exact hopens.elim

end Operation

/-- Scratch directories neither leak nor pile up. The history of any operations on a new checker is
that of the system itself; at each of its points at most one scratch directory is held and every
other one is gone; the checker holds the one that the history says; and after an operation that
opened a session it holds none. -/
theorem Checker.scratch_never_leaks {σ : Type} (host : Host σ) (c : Checker)
    (ops : List (Operation σ)) (world : σ) (s : NamingState (History σ))
    (hs : s = Operation.performAll c host.watched (ops.map .watched) { world := .start world })
    (hcalm : s.world.Undisturbed host) :
    s.unwatched = Operation.performAll c host ops { world } ∧
    s.world.held = s.scratch.toList ∧
    (∀ p : History σ, p.UpTo s.world → p.held.length ≤ 1 ∧
      ∀ dir ∈ p.made, dir ∉ p.held → host.hasDir p.world dir = false) ∧
    (∀ before op after, ops = before ++ op :: after →
      op.OpensSession host (Operation.performAll c host before { world }) →
      (Operation.performAll c host (before ++ [op]) { world }).scratch = none) := by
  subst hs
  have hstart : Tracked host { world := .start world } := Tracked.start world
  have htracked := Operation.tracked_performAll (c := c) ops hstart
  refine ⟨unwatched_performAll c host ops _, htracked.held, htracked.clean hcalm, ?_⟩
  intro before op after _ hopens
  rw [Operation.performAll, List.foldl_append]
  exact Operation.scratch_of_opensSession hopens

/-- Direct calls leave the first scratch directory open for a session, which gives it up. A second
one is made by the last call and is still held at the end. -/
theorem Checker.scratch_on_the_shelf :
    let c : Checker := ⟨"lint", [], none⟩
    let ops : List (Operation Shelf) :=
      [.results "bad.py", .results "good.py", .session ["bad.py", "good.py"], .results "bad.py"]
    let s := Operation.performAll c Shelf.host.watched (ops.map .watched) { world := .start {} }
    s.world.made = ["/tmp/naming+", "/tmp/naming"] ∧ s.scratch = some "/tmp/naming+" ∧
      Shelf.host.hasDir s.world.world "/tmp/naming" = false := by
  intro c ops s
  obtain ⟨-, hheld, hclean, -⟩ := Checker.scratch_never_leaks Shelf.host c ops {} s rfl (by decide)
  have hmade : s.world.made = ["/tmp/naming+", "/tmp/naming"] := by decide
  have hscratch : s.scratch = some "/tmp/naming+" := by decide
  refine ⟨hmade, hscratch, (hclean s.world .now).2 _ ?_ ?_⟩
  · simp [hmade]
  · simp [hheld, hscratch]

end StyleAudit
