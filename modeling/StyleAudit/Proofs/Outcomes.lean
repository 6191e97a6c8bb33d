import Mathlib.Data.List.Induction
import StyleAudit.Proofs.Totals

/-!
# How an audit ends

An audit can stop at six points: at the name, at the file, at the scan, at a fatal finding, at the
naming checker, or with a report. It ends at the first one that applies. The calls that it made on
the way are kept in a log beside the state, so that what was called, how often and in which order is
a property of the log.
-/

namespace StyleAudit
set_option autoImplicit false

namespace Audit

inductive Call where
  | scan (path : String)
  | results (path : String)
  | cleanup
  deriving DecidableEq

def Call.isResults : Call → Bool
  | results _ => true
  | _ => false

def Call.isCleanup : Call → Bool
  | cleanup => true
  | _ => false

structure Logged (τ : Type) where
  state : τ
  calls : List Call := []

namespace Logged
variable {τ α : Type}

def enter (call : Call) (step : StateM τ α) : StateM (Logged τ) α := fun s =>
  ((step s.state).1, ⟨(step s.state).2, s.calls ++ [call]⟩)

def engine (e : Engine τ) : Engine (Logged τ) where
  scan path := enter (.scan path) (e.scan path)

def naming (n : NamingChecker τ) : NamingChecker (Logged τ) where
  results path := enter (.results path) (n.results path)
  cleanup := enter .cleanup n.cleanup

def isFile (test : τ → String → Bool) (s : Logged τ) (path : String) : Bool := test s.state path

end Logged

/-- A run on a file name, and what happened to the state since the run before. -/
structure Visit (τ : Type) where
  change : τ → τ := id
  name : String

def Visit.logged {τ : Type} (v : Visit τ) : Visit (Logged τ) where
  change s := { s with state := v.change s.state }
  name := v.name

section Runs
variable {τ : Type} (isFile : τ → String → Bool) (engine : Engine τ) (naming : NamingChecker τ)

def runAll (visits : List (Visit τ)) (s : τ) : τ :=
  visits.foldl (fun s v => (run isFile engine naming v.name (v.change s)).2) s

def runAllLogged (visits : List (Visit τ)) (s : τ) : Logged τ :=
  runAll (Logged.isFile isFile) (Logged.engine engine) (Logged.naming naming)
    (visits.map Visit.logged) { state := s }

end Runs

/-- A name with a tab, a line feed, a vertical tab, a form feed or a carriage return. -/
def RefusedName (name : String) : Prop := ∃ c ∈ name.toList, c.toNat ∈ [9, 10, 11, 12, 13]

def withoutSpaces (name : String) : String := String.ofList (name.toList.filter fun c => c != ' ')

end Audit

namespace Diagnostics

/-- The code that makes a file uncheckable: `E901` if it occurs, and otherwise `E902`. -/
def Fatal (d : Diagnostics) (code : String) : Prop :=
  (code = "E901" ∧ 0 < d.count "E901") ∨
    (code = "E902" ∧ d.count "E901" = 0 ∧ 0 < d.count "E902")

/-- The message of a code, which is that of its first record, however the diagnostics were
recorded. -/
def FirstMessage (d : Diagnostics) (code message : String) : Prop :=
  d.message? code = some message ∧
    ∀ rs, d = Statistics.recordAll .empty rs →
      (rs.find? fun r => r.code = code).map Statistics.Record.message = some message

theorem message?_record (d : Diagnostics) (code other : String) (n : Count) (message : String) :
    (d.record code n message).message? other =
      (d.message? other).or (if code = other then some message else none) := by
  by_cases h : code = other
  · subst h
    simp only [message?, record, Table.get?_alter, if_true]
    cases d.tallies.get? code <;> rfl
  · have h' : ¬other = code := fun e => h e.symm
    simp [message?, record, h, h']

theorem message?_recordAll (d : Diagnostics) (rs : List Statistics.Record) (code : String) :
    (Statistics.recordAll d rs).message? code =
      (d.message? code).or
        ((rs.find? fun r => r.code = code).map Statistics.Record.message) := by
  induction rs generalizing d with
  | nil => simp [Statistics.recordAll]
  | cons r rest ih =>
    change (Statistics.recordAll (d.record r.code r.count r.message) rest).message? code = _
    rw [ih, message?_record, Option.or_assoc, List.find?_cons]
    by_cases h : r.code = code <;> simp [h]

theorem firstMessage_of_message? {d : Diagnostics} {code message : String}
    (h : d.message? code = some message) : d.FirstMessage code message := by
  refine ⟨h, ?_⟩
  rintro rs rfl
  rw [message?_recordAll] at h
  exact h

theorem message?_of_count_pos {d : Diagnostics} {code : String} (h : 0 < d.count code) :
    ∃ message, d.message? code = some message := by
  rw [count] at h
  rw [message?]
  cases hget : d.tallies.get? code with
  | none => simp [hget] at h
  | some t => exact ⟨t.message, rfl⟩

theorem fatal?_cases (d : Diagnostics) :
    (∃ code message, d.fatal? = some (code, message) ∧ d.Fatal code ∧
      d.FirstMessage code message) ∨
    (d.fatal? = none ∧ ∀ code, ¬d.Fatal code) := by
  by_cases h₁ : 0 < d.count "E901"
  · obtain ⟨message, hm⟩ := message?_of_count_pos h₁
    refine .inl ⟨"E901", message, ?_, .inl ⟨rfl, h₁⟩, firstMessage_of_message? hm⟩
    simp [fatal?, CodeSet.fatalCodes, h₁, hm]
  · have hzero : d.count "E901" = 0 := by simpa [UInt64.pos_iff_ne_zero] using h₁
    by_cases h₂ : 0 < d.count "E902"
    · obtain ⟨message, hm⟩ := message?_of_count_pos h₂
      refine .inl ⟨"E902", message, ?_, .inr ⟨rfl, hzero, h₂⟩, firstMessage_of_message? hm⟩
      simp [fatal?, CodeSet.fatalCodes, h₁, h₂, hm]
    · right
      refine ⟨by simp [fatal?, CodeSet.fatalCodes, h₁, h₂], ?_⟩
      rintro code (⟨-, h⟩ | ⟨-, -, h⟩)
      · exact h₁ h
      · exact h₂ h

end Diagnostics

namespace Audit
variable {τ : Type}

/-- The end of a run on a name from a state: the answer, the state that is left, and the calls that
were made. The cases are in the order in which they are tried. -/
inductive Ends (isFile : τ → String → Bool) (engine : Engine τ) (naming : NamingChecker τ)
    (name : String) (s : τ) : Except Failure Audit → τ → List Call → Prop
  | refused : RefusedName name →
      Ends isFile engine naming name s (.error (.invalidFileName name)) s []
  | missing : ¬RefusedName name → isFile s name = false →
      Ends isFile engine naming name s (.error (.fileNotFound name)) s []
  | unscanned {f : Failure} {t : τ} : ¬RefusedName name → isFile s name = true →
      engine.scan name s = (.error f, t) →
      Ends isFile engine naming name s (.error f) t [.scan name]
  | uncheckable {d : Diagnostics} {t : τ} {code message : String} : ¬RefusedName name →
      isFile s name = true → engine.scan name s = (.ok d, t) → d.Fatal code →
      d.FirstMessage code message →
      Ends isFile engine naming name s (.error (.uncheckable code message)) t [.scan name]
  | unnamed {d : Diagnostics} {t u : τ} {f : Failure} : ¬RefusedName name →
      isFile s name = true → engine.scan name s = (.ok d, t) → (∀ code, ¬d.Fatal code) →
      naming.results name t = (.error f, u) →
      Ends isFile engine naming name s (.error f) (naming.cleanup u).2
        [.scan name, .results name, .cleanup]
  | reported {d : Diagnostics} {t u : τ} {answer : Verdict × Count} : ¬RefusedName name →
      isFile s name = true → engine.scan name s = (.ok d, t) → (∀ code, ¬d.Fatal code) →
      naming.results name t = (.ok answer, u) →
      Ends isFile engine naming name s (.ok ⟨Report.ofCounters d.counters answer, d⟩)
        (naming.cleanup u).2 [.scan name, .results name, .cleanup]

theorem isFileName_eq_false_iff (name : String) : isFileName name = false ↔ RefusedName name := by
  have hchar : ∀ c : Char, forbiddenBlanks.contains c = true ↔ c.toNat ∈ [9, 10, 11, 12, 13] := by
    intro c
    simp only [forbiddenBlanks, List.contains_eq_mem, List.mem_cons, List.not_mem_nil, or_false,
      decide_eq_true_eq, ← Char.toNat_inj, Char.reduceToNat]
    omega
  simp only [isFileName, Bool.not_eq_false', List.any_eq_true, hchar, RefusedName]

theorem refusedName_withoutSpaces (name : String) :
    RefusedName (withoutSpaces name) ↔ RefusedName name := by
  simp only [RefusedName, withoutSpaces, String.toList_ofList, List.mem_filter, bne_iff_ne]
  constructor
  · rintro ⟨c, ⟨hc, -⟩, hblank⟩
    exact ⟨c, hc, hblank⟩
  · rintro ⟨c, hc, hblank⟩
    refine ⟨c, ⟨hc, ?_⟩, hblank⟩
    rintro rfl
    simp at hblank

section Run
variable (isFile : τ → String → Bool) (engine : Engine τ) (naming : NamingChecker τ)

/-- One run, alone and with a log. -/
theorem run_ends (name : String) (s : τ) (calls : List Call) :
    ∃ r t new, run isFile engine naming name s = (r, t) ∧
      run (Logged.isFile isFile) (Logged.engine engine) (Logged.naming naming) name ⟨s, calls⟩ =
        (r, ⟨t, calls ++ new⟩) ∧
      Ends isFile engine naming name s r t new := by
  have hlogged : Logged.isFile isFile ⟨s, calls⟩ name = isFile s name := rfl
  rw [run_apply, run_apply, ofFile_apply, ofFile_apply, hlogged]
  simp only [Logged.engine, Logged.naming, Logged.enter]
  by_cases hname : isFileName name = true
  · have hgood : ¬RefusedName name := by
      rw [← isFileName_eq_false_iff, hname]
      exact Bool.noConfusion
    rw [if_pos hname, if_pos hname]
    by_cases hfile : isFile s name = true
    · rw [if_pos hfile, if_pos hfile]
      rcases hscan : engine.scan name s with ⟨f | d, t⟩
      · exact ⟨_, _, _, rfl, rfl, .unscanned hgood hfile hscan⟩
      · obtain ⟨code, message, hf, hfatal, hfirst⟩ | ⟨hf, hnone⟩ := d.fatal?_cases
        · simp only [hf]
          exact ⟨_, _, _, rfl, rfl, .uncheckable hgood hfile hscan hfatal hfirst⟩
        · simp only [hf]
          rcases hres : naming.results name t with ⟨f | answer, u⟩
          · exact ⟨_, _, _, rfl, by simp [Except.map], .unnamed hgood hfile hscan hnone hres⟩
          · exact ⟨_, _, _, rfl, by simp [Except.map], .reported hgood hfile hscan hnone hres⟩
    · rw [if_neg hfile, if_neg hfile]
      exact ⟨_, _, [], rfl, by simp, .missing hgood (Bool.not_eq_true _ ▸ hfile)⟩
  · have hbad : RefusedName name := (isFileName_eq_false_iff name).mp (by simpa using hname)
    rw [if_neg hname, if_neg hname]
    exact ⟨_, _, [], rfl, by simp, .refused hbad⟩

variable {isFile engine naming}

theorem Ends.balanced {name : String} {s t : τ} {r : Except Failure Audit} {calls : List Call}
    (h : Ends isFile engine naming name s r t calls) :
    calls.countP Call.isResults = calls.countP Call.isCleanup := by
  cases h <;> rfl

theorem Ends.file_checked {name : String} {s t : τ} {audit : Audit} {calls : List Call}
    (h : Ends isFile engine naming name s (.ok audit) t calls) :
    isFile s name = true ∧ ∀ code, ¬audit.diagnostics.Fatal code := by
  cases h with
  | reported _ hfile _ hnone _ => exact ⟨hfile, hnone⟩

variable (isFile engine naming)

theorem runAll_concat (visits : List (Visit τ)) (visit : Visit τ) (s : τ) :
    runAll isFile engine naming (visits ++ [visit]) s =
      (run isFile engine naming visit.name
        (visit.change (runAll isFile engine naming visits s))).2 := by
  rw [runAll, List.foldl_append]
  rfl

/-- The next run on a log of runs. -/
theorem runAllLogged_concat (visits : List (Visit τ)) (visit : Visit τ) (start : τ) {s : τ}
    {calls : List Call} (hbefore : runAllLogged isFile engine naming visits start = ⟨s, calls⟩) :
    ∃ r t new, run isFile engine naming visit.name (visit.change s) = (r, t) ∧
      runAllLogged isFile engine naming (visits ++ [visit]) start = ⟨t, calls ++ new⟩ ∧
      Ends isFile engine naming visit.name (visit.change s) r t new := by
  obtain ⟨r, t, new, hplain, hlogged, hends⟩ :=
    run_ends isFile engine naming visit.name (visit.change s) calls
  refine ⟨r, t, new, hplain, ?_, hends⟩
  rw [runAllLogged, List.map_append, List.map_singleton, runAll_concat, ← runAllLogged, hbefore]
  exact congrArg Prod.snd hlogged

/-- The log stands beside the runs without changing them, and pairs each question to the naming
checker with a release. -/
theorem runAllLogged_state (visits : List (Visit τ)) (start : τ) :
    ∃ calls, runAllLogged isFile engine naming visits start =
        ⟨runAll isFile engine naming visits start, calls⟩ ∧
      calls.countP Call.isResults = calls.countP Call.isCleanup := by
  induction visits using List.reverseRecOn with
  | nil => exact ⟨[], rfl, rfl⟩
  | append_singleton visits visit ih =>
    obtain ⟨calls, hbefore, hbalanced⟩ := ih
    obtain ⟨r, t, new, hplain, hafter, hends⟩ :=
      runAllLogged_concat isFile engine naming visits visit start hbefore
    refine ⟨calls ++ new, ?_, ?_⟩
    · rw [hafter, runAll_concat, hplain]
    · rw [List.countP_append, List.countP_append, hbalanced, hends.balanced]

end Run

/-- After any runs, the next run ends in the first case that applies, with the calls of that case
and no others; spaces in its name make no difference. The naming checker was released as often as it
was asked. A file with a report was there and could be checked. -/
theorem each_run_ends_in_its_first_case (isFile : τ → String → Bool) (engine : Engine τ)
    (naming : NamingChecker τ) (visits : List (Visit τ)) (visit : Visit τ) (start : τ) :
    ∃ s calls r t new,
      runAll isFile engine naming visits start = s ∧
      runAllLogged isFile engine naming visits start = ⟨s, calls⟩ ∧
      run isFile engine naming visit.name (visit.change s) = (r, t) ∧
      runAllLogged isFile engine naming (visits ++ [visit]) start = ⟨t, calls ++ new⟩ ∧
      Ends isFile engine naming visit.name (visit.change s) r t new ∧
      (RefusedName (withoutSpaces visit.name) ↔ RefusedName visit.name) ∧
      (calls ++ new).countP Call.isResults = (calls ++ new).countP Call.isCleanup ∧
      ∀ audit, r = .ok audit → isFile (visit.change s) visit.name = true ∧
        ∀ code, ¬audit.diagnostics.Fatal code := by
  obtain ⟨calls, hbefore, hbalanced⟩ := runAllLogged_state isFile engine naming visits start
  obtain ⟨r, t, new, hplain, hafter, hends⟩ :=
    runAllLogged_concat isFile engine naming visits visit start hbefore
  refine ⟨_, calls, r, t, new, rfl, hbefore, hplain, hafter, hends,
    refusedName_withoutSpaces visit.name, ?_, ?_⟩
  · rw [List.countP_append, List.countP_append, hbalanced, hends.balanced]
  · rintro audit rfl
    exact hends.file_checked

end Audit
end StyleAudit
