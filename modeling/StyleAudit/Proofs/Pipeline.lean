import StyleAudit.Audit

/-!
# An audit as an equation

A step either goes on with a value or stops with a failure, and keeps the state in both cases. The
equations below say what a whole audit does, so later proofs never open its program text.
-/

namespace StyleAudit
set_option autoImplicit false

namespace Step
variable {τ α β : Type}

theorem get_apply (s : τ) : (get : Step τ τ) s = (.ok s, s) := rfl

theorem lift_apply (m : StateM τ α) (s : τ) :
    (liftM m : Step τ α) s = (.ok (m s).1, (m s).2) := rfl

theorem bind_apply (m : Step τ α) (k : α → Step τ β) (s : τ) :
    (m >>= k) s = match m s with
      | (.ok a, t) => k a t
      | (.error f, t) => (.error f, t) := by
  simp only [bind, ExceptT.bind, ExceptT.mk, StateT.bind]
  rcases m s with ⟨f | a, t⟩ <;> rfl

theorem bind_cases {m : Step τ α} {k : α → Step τ β} {s u : τ} {r : Except Failure β}
    (h : (m >>= k) s = (r, u)) :
    (∃ f, m s = (.error f, u) ∧ r = .error f) ∨ (∃ a t, m s = (.ok a, t) ∧ k a t = (r, u)) := by
  rw [bind_apply] at h
  rcases hm : m s with ⟨f | a, t⟩
  · rw [hm] at h
    cases h
    exact .inl ⟨f, rfl, rfl⟩
  · rw [hm] at h
    exact .inr ⟨a, t, rfl, h⟩

theorem bind_eq_ok {m : Step τ α} {k : α → Step τ β} {s u : τ} {b : β}
    (h : (m >>= k) s = (.ok b, u)) : ∃ a t, m s = (.ok a, t) ∧ k a t = (.ok b, u) := by
  obtain ⟨f, -, hf⟩ | hok := bind_cases h
  · cases hf
  · exact hok

theorem bind_pure_snd (m : Step τ α) (g : α → β) (s : τ) :
    ((m >>= fun a => pure (g a) : Step τ β) s).2 = (m s).2 := by
  rw [bind_apply]
  rcases m s with ⟨f | a, t⟩ <;> rfl

/-- What holds of the state that a chain leaves: the chain may end at its first step. -/
theorem bind_post {P : τ → Prop} {m : Step τ α} {k : α → Step τ β} {s : τ}
    (hend : ∀ f t, m s = (.error f, t) → P t) (hgo : ∀ a t, m s = (.ok a, t) → P (k a t).2) :
    P ((m >>= k : Step τ β) s).2 := by
  rw [bind_apply]
  rcases hm : m s with ⟨f | a, t⟩
  · exact hend f t hm
  · exact hgo a t hm

/-- A step keeps a property of states, also when it fails. -/
def Preserves {β : Type} (P : τ → Prop) (m : StateM τ β) : Prop := ∀ s, P s → P (m s).2

namespace Preserves
variable {P : τ → Prop}

theorem pure (a : α) : Preserves P (pure a : Step τ α) := fun _ h => h

theorem bind {m : Step τ α} {k : α → Step τ β} (hm : Preserves P m)
    (hk : ∀ a, Preserves P (k a)) : Preserves P (m >>= k : Step τ β) := by
  intro s h
  have ht := hm s h
  rw [bind_apply]
  rcases hms : m s with ⟨f | a, t⟩
  · rw [hms] at ht
    exact ht
  · rw [hms] at ht
    exact hk a t ht

theorem mapM {f : α → Step τ β} (h : ∀ a, Preserves P (f a)) (as : List α) :
    Preserves P (as.mapM f : Step τ (List β)) := by
  induction as with
  | nil =>
    rw [List.mapM_nil]
    exact pure []
  | cons a rest ih =>
    rw [List.mapM_cons]
    exact bind (h a) fun b => bind ih fun bs => pure (b :: bs)

end Preserves
end Step

/-- The engine of a checker that prints a fixed text. -/
def Engine.printing {τ : Type} (text : String) : Engine τ where
  scan _ := pure (Statistics.parse text)

namespace Audit
variable {τ : Type}

/-- The checker is released in the state that its answer left, whatever the answer was. -/
theorem buildReport_apply (naming : NamingChecker τ) (counters : Counters) (path : String)
    (s : τ) :
    buildReport naming counters path s =
      ((naming.results path s).1.map (Report.ofCounters counters),
        (naming.cleanup (naming.results path s).2).2) := by
  unfold buildReport NamingChecker.session
  rw [Step.bind_apply]
  rcases naming.results path s with ⟨f | answer, t⟩ <;> rfl

theorem ofFile_apply (isFile : τ → String → Bool) (engine : Engine τ) (naming : NamingChecker τ)
    (path : String) (s : τ) :
    ofFile isFile engine naming path s =
      if isFile s path then
        match engine.scan path s with
        | (.error f, t) => (.error f, t)
        | (.ok d, t) =>
          match d.fatal? with
          | some (code, message) => (.error (.uncheckable code message), t)
          | none =>
            ((naming.results path t).1.map fun answer => ⟨Report.ofCounters d.counters answer, d⟩,
              (naming.cleanup (naming.results path t).2).2)
      else (.error (.fileNotFound path), s) := by
  unfold ofFile
  simp only [Step.bind_apply, Step.get_apply]
  cases isFile s path with
  | false => rfl
  | true =>
    simp only [Bool.not_true, Bool.false_eq_true, if_false, if_true, Step.bind_apply]
    rcases engine.scan path s with ⟨f | d, t⟩
    · rfl
    · simp only
      rcases d.fatal? with _ | ⟨code, message⟩
      · simp only [Step.bind_apply, buildReport_apply]
        rcases naming.results path t with ⟨f | answer, u⟩ <;> rfl
      · rfl

theorem run_apply (isFile : τ → String → Bool) (engine : Engine τ) (naming : NamingChecker τ)
    (name : String) (s : τ) :
    run isFile engine naming name s =
      if isFileName name then ofFile isFile engine naming name s
      else (.error (.invalidFileName name), s) := by
  unfold run validate
  cases isFileName name <;> rfl

/-- An audit that gives a report read the file once, found nothing fatal, and asked the naming
checker once. -/
theorem run_eq_ok {isFile : τ → String → Bool} {engine : Engine τ} {naming : NamingChecker τ}
    {name : String} {s s' : τ} {audit : Audit}
    (h : run isFile engine naming name s = (.ok audit, s')) :
    ∃ d t answer, engine.scan name s = (.ok d, t) ∧ d.fatal? = none ∧
      (naming.results name t).1 = .ok answer ∧
      audit = ⟨Report.ofCounters d.counters answer, d⟩ := by
  rw [run_apply] at h
  split at h
  · rw [ofFile_apply] at h
    split at h
    · rcases hs : engine.scan name s with ⟨f | d, t⟩
      · rw [hs] at h
        cases h
      · simp only [hs] at h
        rcases hf : d.fatal? with _ | ⟨code, message⟩
        · rcases ha : (naming.results name t).1 with f | answer
          · simp only [hf, ha, Except.map] at h
            cases h
          · simp only [hf, ha, Except.map] at h
            cases h
            exact ⟨d, t, answer, rfl, hf, ha, rfl⟩
        · rw [hf] at h
          cases h
    · cases h
  · cases h

theorem run_printing (isFile : τ → String → Bool) (text : String) (naming : NamingChecker τ)
    (name : String) (s : τ) :
    run isFile (.printing text) naming name s =
      if isFileName name then
        if isFile s name then
          match (Statistics.parse text).fatal? with
          | some (code, message) => (.error (.uncheckable code message), s)
          | none =>
            ((naming.results name s).1.map fun answer =>
                ⟨Report.ofCounters (Statistics.parse text).counters answer, Statistics.parse text⟩,
              (naming.cleanup (naming.results name s).2).2)
        else (.error (.fileNotFound name), s)
      else (.error (.invalidFileName name), s) := by
  rw [run_apply, ofFile_apply]
  rfl

theorem run_printing_eq_ok_iff {isFile : τ → String → Bool} {text : String}
    {naming : NamingChecker τ} {name : String} {s t : τ} {audit : Audit} :
    run isFile (.printing text) naming name s = (.ok audit, t) ↔
      isFileName name = true ∧ isFile s name = true ∧ (Statistics.parse text).fatal? = none ∧
        ∃ answer, (naming.results name s).1 = .ok answer ∧
          t = (naming.cleanup (naming.results name s).2).2 ∧
          audit = ⟨Report.ofCounters (Statistics.parse text).counters answer,
            Statistics.parse text⟩ := by
  rw [run_printing]
  constructor
  · intro h
    split at h
    · rename_i hname
      split at h
      · rename_i hfile
        cases hfatal : (Statistics.parse text).fatal? with
        | some fatal =>
          rw [hfatal] at h
          cases h
        | none =>
          rw [hfatal] at h
          cases hanswer : (naming.results name s).1 with
          | error f =>
            rw [hanswer] at h
            cases h
          | ok answer =>
            rw [hanswer] at h
            cases h
            exact ⟨hname, hfile, rfl, answer, rfl, rfl, rfl⟩
      · cases h
    · cases h
  · rintro ⟨hname, hfile, hfatal, answer, hanswer, rfl, rfl⟩
    rw [if_pos hname, if_pos hfile, hfatal, hanswer]
    rfl

section Preservation
variable {P : τ → Prop} {isFile : τ → String → Bool} {engine : Engine τ} {naming : NamingChecker τ}
variable (hresults : ∀ path, Step.Preserves P (naming.results path))
variable (hcleanup : Step.Preserves P naming.cleanup)
include hresults hcleanup

theorem preserves_buildReport (counters : Counters) (path : String) :
    Step.Preserves P (buildReport naming counters path) := by
  intro s h
  rw [buildReport_apply]
  exact hcleanup _ (hresults path s h)

variable (hscan : ∀ path, Step.Preserves P (engine.scan path))
include hscan

theorem preserves_ofFile (path : String) :
    Step.Preserves P (ofFile isFile engine naming path) := by
  intro s h
  rw [ofFile_apply]
  cases isFile s path with
  | false => exact h
  | true =>
    have ht := hscan path s h
    rcases hs : engine.scan path s with ⟨f | d, t⟩
    · rw [hs] at ht
      exact ht
    · rw [hs] at ht
      simp only [if_true]
      cases d.fatal? with
      | some fatal => exact ht
      | none => exact hcleanup _ (hresults path t ht)

theorem preserves_run (name : String) : Step.Preserves P (run isFile engine naming name) := by
  intro s h
  rw [run_apply]
  cases isFileName name with
  | false => exact h
  | true => exact preserves_ofFile hresults hcleanup hscan name s h

end Preservation
end Audit
end StyleAudit
