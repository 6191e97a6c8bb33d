import StyleAudit.Proofs.NamingCall

/-!
# Histories of a system

A history is a first state of a system and all that happened since, every event with the state it
left. A watched host works on histories instead of states. It answers as the host itself does and
enters each of its operations in the history, so that a property of all points of a run is a
property of one history.
-/

namespace StyleAudit
set_option autoImplicit false

/-- What a system was asked to do, with its answer, or that something else changed it. -/
inductive Event where
  | ran (program : String) (args : List String) (answer : Except Cause Outcome)
  | made (answer : Except Cause String)
  | dropped (dir : String)
  | cleared (path : String) (answer : Except Cause Unit)
  | foreign

inductive History (σ : Type) where
  | start (world : σ)
  | step (earlier : History σ) (event : Event) (world : σ)

namespace History
variable {σ α : Type}

def world : History σ → σ
  | start w => w
  | step _ _ w => w

/-- A history up to one of its points. -/
inductive UpTo (p : History σ) : History σ → Prop
  | now : UpTo p p
  | before {h : History σ} {e : Event} {w : σ} : UpTo p h → UpTo p (h.step e w)

theorem UpTo.trans {p h k : History σ} (hp : UpTo p h) (hk : UpTo h k) : UpTo p k := by
  induction hk with
  | now => exact hp
  | before _ ih => exact .before ih

def enter (step : StateM σ α) (event : α → Event) : StateM (History σ) α := fun h =>
  ((step h.world).1, h.step (event (step h.world).1) (step h.world).2)

end History

section Watching
variable {σ : Type}

/-- The host that keeps the history. -/
def Host.watched (host : Host σ) : Host (History σ) where
  currentDir h := host.currentDir h.world
  tempDir h := host.tempDir h.world
  isFile h path := host.isFile h.world path
  isEntry h path := host.isEntry h.world path
  readText h path := host.readText h.world path
  removeFile path := History.enter (host.removeFile path) (.cleared path)
  makeScratch := History.enter host.makeScratch .made
  removeScratch dir := History.enter (host.removeScratch dir) fun _ => .dropped dir
  run program args := History.enter (host.run program args) (.ran program args)

def NamingState.unwatched (s : NamingState (History σ)) : NamingState σ :=
  ⟨s.verified, s.scratch, s.world.world⟩

end Watching

/-- What can be done with one naming checker on a system. An audit brings a scan of its own, and the
system may change in between. -/
inductive Operation (σ : Type) where
  | results (path : String)
  | cleanup
  | session (paths : List String)
  | buildReport (counters : Counters) (path : String)
  | ofFile (scan : String → Step σ Diagnostics) (path : String)
  | run (scan : String → Step σ Diagnostics) (name : String)
  | change (f : σ → σ)

namespace Operation
variable {σ τ : Type}

def askEach (naming : NamingChecker τ) (paths : List String) :
    Step τ (List (Except Failure (Verdict × Count))) :=
  paths.mapM fun path s => (.ok (naming.results path s).1, (naming.results path s).2)

def isFile (host : Host σ) (s : NamingState σ) (path : String) : Bool := host.isFile s.world path

def engine (scan : String → Step σ Diagnostics) : Engine (NamingState σ) where
  scan path := NamingState.liftStep (scan path)

def perform (c : Checker) (host : Host σ) : Operation σ → NamingState σ → NamingState σ
  | results path, s => (c.namingResults host path s).2
  | cleanup, s => (Checker.release host s).2
  | session paths, s =>
    ((c.namingChecker host).session (askEach (c.namingChecker host) paths) s).2
  | buildReport counters path, s => (Audit.buildReport (c.namingChecker host) counters path s).2
  | ofFile scan path, s =>
    (Audit.ofFile (isFile host) (engine scan) (c.namingChecker host) path s).2
  | run scan name, s =>
    (Audit.run (isFile host) (engine scan) (c.namingChecker host) name s).2
  | change f, s => { s with world := f s.world }

def performAll (c : Checker) (host : Host σ) (ops : List (Operation σ)) (s : NamingState σ) :
    NamingState σ :=
  ops.foldl (fun s op => op.perform c host s) s

/-- The same operation on a watched system. A scan is entered as one event. -/
def watched : Operation σ → Operation (History σ)
  | results path => .results path
  | cleanup => .cleanup
  | session paths => .session paths
  | buildReport counters path => .buildReport counters path
  | ofFile scan path => .ofFile (fun p => History.enter (scan p) fun _ => .foreign) path
  | run scan name => .run (fun p => History.enter (scan p) fun _ => .foreign) name
  | change f => .change fun h => h.step .foreign (f h.world)

end Operation

def NamingState.through {τ υ : Type} (view : τ → υ) (s : NamingState τ) : NamingState υ :=
  ⟨s.verified, s.scratch, view s.world⟩

/-- A step does the same as another one through a view of its states. -/
def Mirrors {τ υ β : Type} (view : τ → υ) (m : StateM τ β) (n : StateM υ β) : Prop :=
  ∀ s, n (view s) = ((m s).1, view (m s).2)

namespace Mirrors
variable {σ τ υ α β : Type} {view : τ → υ}

theorem pure (a : α) : Mirrors view (pure a : Step τ α) (pure a : Step υ α) := fun _ => rfl

theorem bind {m : Step τ α} {n : Step υ α} {k : α → Step τ β} {l : α → Step υ β}
    (hm : Mirrors view m n) (hk : ∀ a, Mirrors view (k a) (l a)) :
    Mirrors view (m >>= k : Step τ β) (n >>= l : Step υ β) := by
  intro s
  rw [Step.bind_apply, Step.bind_apply, hm s]
  rcases m s with ⟨f | a, t⟩
  · rfl
  · exact hk a t

theorem mapM {f : α → Step τ β} {g : α → Step υ β} (h : ∀ a, Mirrors view (f a) (g a))
    (as : List α) : Mirrors view (as.mapM f : Step τ (List β)) (as.mapM g : Step υ (List β)) := by
  induction as with
  | nil =>
    rw [List.mapM_nil, List.mapM_nil]
    exact pure []
  | cons a rest ih =>
    rw [List.mapM_cons, List.mapM_cons]
    exact bind (h a) fun b => bind ih fun bs => pure (b :: bs)

theorem enter (step : StateM σ α) (event : α → Event) :
    Mirrors History.world (History.enter step event) step := fun _ => rfl

theorem lift {m : StateM τ α} {n : StateM υ α} (h : Mirrors view m n) :
    Mirrors (NamingState.through view) (NamingState.lift m) (NamingState.lift n) := by
  intro s
  change (_, _) = _
  rw [show (s.through view).world = view s.world from rfl, h s.world]
  rfl

section Pipeline
variable {isFile : τ → String → Bool} {isFile' : υ → String → Bool} {engine : Engine τ}
  {engine' : Engine υ} {naming : NamingChecker τ} {naming' : NamingChecker υ}
variable (hresults : ∀ path, Mirrors view (naming.results path) (naming'.results path))
variable (hcleanup : Mirrors view naming.cleanup naming'.cleanup)
include hresults hcleanup

theorem buildReport (counters : Counters) (path : String) :
    Mirrors view (Audit.buildReport naming counters path)
      (Audit.buildReport naming' counters path) := by
  intro s
  rw [Audit.buildReport_apply, Audit.buildReport_apply, hresults path s, hcleanup]

variable (hfile : ∀ s path, isFile' (view s) path = isFile s path)
variable (hscan : ∀ path, Mirrors view (engine.scan path) (engine'.scan path))
include hfile hscan

theorem ofFile (path : String) :
    Mirrors view (Audit.ofFile isFile engine naming path)
      (Audit.ofFile isFile' engine' naming' path) := by
  intro s
  rw [Audit.ofFile_apply, Audit.ofFile_apply, hfile, hscan path s]
  cases isFile s path with
  | false => rfl
  | true =>
    rcases engine.scan path s with ⟨f | d, t⟩
    · rfl
    · simp only [if_true]
      cases d.fatal? with
      | some fatal => rfl
      | none => rw [hresults path t, hcleanup]

theorem run (name : String) :
    Mirrors view (Audit.run isFile engine naming name)
      (Audit.run isFile' engine' naming' name) := by
  intro s
  rw [Audit.run_apply, Audit.run_apply]
  cases isFileName name with
  | false => rfl
  | true => exact ofFile hresults hcleanup hfile hscan name s

end Pipeline
end Mirrors

/-- A host does the same as another one through a view of its states, as far as checkers ask. -/
structure Host.Reflects {τ υ : Type} (view : τ → υ) (host : Host τ) (original : Host υ) : Prop where
  tempDir : ∀ s, original.tempDir (view s) = host.tempDir s
  readText : ∀ s path, original.readText (view s) path = host.readText s path
  removeFile : ∀ path, Mirrors view (host.removeFile path) (original.removeFile path)
  makeScratch : Mirrors view host.makeScratch original.makeScratch
  removeScratch : ∀ dir, Mirrors view (host.removeScratch dir) (original.removeScratch dir)
  run : ∀ program args, Mirrors view (host.run program args) (original.run program args)

theorem Host.watched_reflects {σ : Type} (host : Host σ) :
    host.watched.Reflects History.world host where
  tempDir _ := rfl
  readText _ _ := rfl
  removeFile _ := .enter _ _
  makeScratch := .enter _ _
  removeScratch _ := .enter _ _
  run _ _ := .enter _ _

section Reflection
variable {τ υ : Type} {view : τ → υ} (c : Checker)

open Checker

variable {host : Host τ} {original : Host υ} (h : host.Reflects view original)
include h

theorem mirrors_start (args : List String) :
    Mirrors view (c.start host args) (c.start original args) := by
  intro s
  rw [start_apply, start_apply, h.run]

theorem mirrors_verify : Mirrors view (c.verify host) (c.verify original) := by
  unfold verify
  cases c.requires with
  | none => exact .pure ()
  | some required =>
    refine .bind (mirrors_start c h _) fun outcome => ?_
    split
    · exact .pure ()
    · exact fun _ => rfl

theorem mirrors_check (extra : List String) (path : String) :
    Mirrors view (c.check host extra path) (c.check original extra path) := by
  unfold check
  refine .bind (mirrors_start c h _) fun outcome => ?_
  split
  · exact .pure outcome
  · exact .pure outcome
  · exact fun _ => rfl

theorem mirrors_verifyOnce :
    Mirrors (NamingState.through view) (c.verifyOnce host) (c.verifyOnce original) := by
  intro s
  rw [verifyOnce_apply, verifyOnce_apply]
  cases hs : s.verified with
  | true => simp [NamingState.through, hs]
  | false =>
    have hverify := mirrors_verify c h s.world
    simp only [NamingState.through, hs, hverify]
    rcases c.verify host s.world with ⟨f | ⟨⟩, w⟩ <;> rfl

theorem mirrors_scratchDir :
    Mirrors (NamingState.through view) (scratchDir host) (scratchDir original) := by
  intro s
  rw [scratchDir_apply, scratchDir_apply]
  obtain ⟨verified, scratch, w⟩ := s
  cases scratch with
  | some dir => rfl
  | none =>
    simp only [NamingState.through, h.makeScratch w]
    rcases host.makeScratch w with ⟨cause | dir, w'⟩
    · simp only [h.tempDir]
    · rfl

theorem mirrors_removeLeftover (path : String) :
    Mirrors (NamingState.through view) (removeLeftover host path)
      (removeLeftover original path) := by
  intro s
  rw [removeLeftover_apply, removeLeftover_apply]
  simp only [NamingState.through, h.removeFile path s.world]

theorem mirrors_readOutput (path : String) :
    Mirrors (NamingState.through view) (readOutput host path) (readOutput original path) := by
  intro s
  rw [readOutput_apply, readOutput_apply]
  simp only [NamingState.through, h.readText]

theorem mirrors_releaseOn :
    Mirrors (NamingState.through view) (release host) (release original) := by
  rintro ⟨verified, scratch, w⟩
  cases scratch with
  | none => rfl
  | some dir => exact Mirrors.lift (h.removeScratch dir) ⟨verified, none, w⟩

variable {versions : Host τ} (hversions : versions.Reflects view original)
include hversions

theorem mirrors_scanOn (path : String) :
    Mirrors view (c.scanOn versions host path) (c.scan original path) := by
  rw [scan_eq_scanOn]
  unfold scanOn
  exact .bind (mirrors_verify c hversions) fun _ => .bind (mirrors_check c h _ _) fun _ => .pure _

theorem mirrors_namingResultsOn (path : String) :
    Mirrors (NamingState.through view) (c.namingResultsOn versions host path)
      (c.namingResults original path) := by
  rw [namingResults_eq_namingResultsOn]
  unfold namingResultsOn verifiedResults
  exact .bind (mirrors_verifyOnce c hversions) fun _ => .bind (mirrors_scratchDir h) fun _ =>
    .bind (mirrors_removeLeftover h _) fun _ => .bind (.lift (mirrors_check c h _ _)) fun _ =>
      .bind (mirrors_readOutput h _) fun _ => .pure _

end Reflection

section Transparency
variable {σ : Type} (c : Checker) (host : Host σ)

open Checker

theorem mirrors_namingResults (path : String) :
    Mirrors NamingState.unwatched (c.namingResults host.watched path)
      (c.namingResults host path) :=
  mirrors_namingResultsOn c host.watched_reflects host.watched_reflects path

theorem mirrors_release :
    Mirrors NamingState.unwatched (release host.watched) (release host) :=
  mirrors_releaseOn host.watched_reflects

/-- Watching changes nothing: an operation leaves the system and the checker in the same state. -/
theorem unwatched_perform (op : Operation σ) (s : NamingState (History σ)) :
    (op.watched.perform c host.watched s).unwatched = op.perform c host s.unwatched := by
  have hresults : ∀ path, Mirrors NamingState.unwatched
      ((c.namingChecker host.watched).results path) ((c.namingChecker host).results path) :=
    mirrors_namingResults c host
  have hcleanup : Mirrors NamingState.unwatched (c.namingChecker host.watched).cleanup
      (c.namingChecker host).cleanup := mirrors_release host
  have hscan : ∀ (scan : String → Step σ Diagnostics) (path : String),
      Mirrors NamingState.unwatched
        ((Operation.engine fun p => History.enter (scan p) fun _ => .foreign).scan path)
        ((Operation.engine scan).scan path) := fun scan path => .lift (.enter _ _)
  have hfile : ∀ s path, Operation.isFile host s.unwatched path =
      Operation.isFile host.watched s path := fun _ _ => rfl
  cases op with
  | results path => exact (congrArg Prod.snd (hresults path s)).symm
  | cleanup => exact (congrArg Prod.snd (hcleanup s)).symm
  | session paths =>
    have hask : Mirrors NamingState.unwatched
        (Operation.askEach (c.namingChecker host.watched) paths)
        (Operation.askEach (c.namingChecker host) paths) := by
      refine .mapM (fun path s => ?_) paths
      rw [hresults path s]
    change _ = ((c.namingChecker host).cleanup
      (Operation.askEach (c.namingChecker host) paths s.unwatched).2).2
    rw [hask s, hcleanup]
    rfl
  | buildReport counters path =>
    exact (congrArg Prod.snd
      (Mirrors.buildReport hresults hcleanup counters path s)).symm
  | ofFile scan path =>
    exact (congrArg Prod.snd
      (Mirrors.ofFile hresults hcleanup hfile (hscan scan) path s)).symm
  | run scan name =>
    exact (congrArg Prod.snd
      (Mirrors.run hresults hcleanup hfile (hscan scan) name s)).symm
  | change f => rfl

theorem unwatched_performAll (ops : List (Operation σ)) (s : NamingState (History σ)) :
    (Operation.performAll c host.watched (ops.map .watched) s).unwatched =
      Operation.performAll c host ops s.unwatched := by
  induction ops generalizing s with
  | nil => rfl
  | cons op rest ih =>
    change (Operation.performAll c host.watched (rest.map .watched) _).unwatched = _
    rw [ih, unwatched_perform]
    rfl

end Transparency
end StyleAudit
