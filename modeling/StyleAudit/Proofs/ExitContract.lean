import StyleAudit.Program
import StyleAudit.Proofs.JsonReading
import StyleAudit.Proofs.Outcomes
import StyleAudit.Proofs.ReportReading
import StyleAudit.Proofs.ScratchLifetime

/-!
# What the program leaves behind

A run of the program ends with an exit code, two texts and a system. On a watched host it also
leaves a history: all that was done to the system, process by process and directory by directory.
The statements below are about a command line that asks for an audit.
-/

namespace StyleAudit
set_option autoImplicit false

section Scratch
variable {σ : Type}

/-- Every removal of a scratch directory in a history left none of that name. -/
def History.Removes (host : Host σ) : History σ → Prop
  | start _ => True
  | step h e w => h.Removes host ∧ ∀ dir ∈ e.drops, host.hasDir w dir = false

instance History.decidableRemoves (host : Host σ) : (h : History σ) → Decidable (h.Removes host)
  | start _ => .isTrue trivial
  | step h _ _ =>
    have := decidableRemoves host h
    inferInstanceAs (Decidable (_ ∧ _))

/-- A checker that was never released holds all the directories that were made. -/
def Owned (s : NamingState (History σ)) : Prop := s.world.made = s.scratch.toList

open Step Checker

section Made
variable {host : Host σ} {c : Checker} {dirs : List String}

theorem made_start (args : List String) :
    Preserves (fun h : History σ => h.made = dirs) (c.start host.watched args) := by
  intro h hmade
  rw [start_apply]
  exact hmade

theorem made_verify : Preserves (fun h : History σ => h.made = dirs) (c.verify host.watched) := by
  unfold verify
  cases c.requires with
  | none => exact .pure ()
  | some required =>
    refine .bind (made_start _) fun outcome => ?_
    split
    · exact .pure ()
    · exact fun _ h => h

theorem made_check (extra : List String) (path : String) :
    Preserves (fun h : History σ => h.made = dirs) (c.check host.watched extra path) := by
  intro h hmade
  rw [check_apply]
  exact hmade

theorem made_scan (path : String) :
    Preserves (fun h : History σ => h.made = dirs) (c.scan host.watched path) := by
  unfold scan
  exact .bind made_verify fun _ => .bind (made_check _ _) fun _ => .pure _

end Made

variable {host : Host σ} {c : Checker}

theorem owned_verifyOnce : Preserves Owned (c.verifyOnce host.watched) := by
  intro s hs
  have hverify : (c.verify host.watched s.world).2.made = s.scratch.toList :=
    made_verify s.world hs
  rw [verifyOnce_apply]
  cases s.verified with
  | true => exact hs
  | false =>
    rcases hv : c.verify host.watched s.world with ⟨f | ⟨⟩, w⟩
    · rw [hv] at hverify
      exact hverify
    · rw [hv] at hverify
      exact hverify

theorem owned_scratchDir : Preserves Owned (scratchDir host.watched) := by
  intro s hs
  rw [scratchDir_apply]
  cases hnone : s.scratch with
  | some dir => exact hs
  | none =>
    have hmade : s.world.made = [] := by rw [hs, hnone]; rfl
    simp only [Host.watched, History.enter]
    rcases host.makeScratch s.world.world with ⟨cause | dir, w⟩
    · exact hmade
    · simp [Owned, History.made, Event.makes, hmade]

theorem owned_namingResults (path : String) :
    Preserves Owned (c.namingResults host.watched path) := by
  unfold namingResults
  refine .bind owned_verifyOnce fun _ => .bind owned_scratchDir fun dir =>
    .bind ?_ fun _ => .bind ?_ fun outcome => .bind ?_ fun text => .pure _
  · intro s hs
    rw [removeLeftover_apply]
    exact hs
  · intro s hs
    exact made_check _ _ s.world hs
  · intro s hs
    rw [readOutput_apply]
    exact hs

/-- No directory that was made is left. -/
def Swept (host : Host σ) (h : History σ) : Prop :=
  h.Removes host → ∀ dir ∈ h.made, host.hasDir h.world dir = false

theorem swept_of_owned {s : NamingState (History σ)} (hs : Owned s) (hnone : s.scratch = none) :
    Swept host s.world := by
  intro _ dir hdir
  rw [hs, hnone] at hdir
  cases hdir

theorem swept_release {s : NamingState (History σ)} (hs : Owned s) :
    Swept host (release host.watched s).2.world := by
  rw [release_apply]
  cases hscratch : s.scratch with
  | none => exact swept_of_owned hs hscratch
  | some held =>
    rintro ⟨-, hgone⟩ dir hdir
    have hmade : dir ∈ s.world.made := hdir
    rw [hs, hscratch, Option.toList_some, List.mem_singleton] at hmade
    subst hmade
    exact hgone dir rfl

end Scratch

/-- The audit of a file with given settings. -/
def Effective.audit {σ : Type} (settings : Effective) (host : Host σ) (file : String) :
    Step (NamingState σ) Audit :=
  Audit.run (Operation.isFile host) (settings.engine.engine host)
    (settings.naming.namingChecker host) file

namespace Effective
variable {σ : Type} (host : Host σ) (settings : Effective) (file : String)

theorem mirrors_audit :
    Mirrors NamingState.unwatched (settings.audit host.watched file) (settings.audit host file) := by
  apply Mirrors.run
  · exact mirrors_namingResults settings.naming host
  · exact mirrors_release host
  · exact fun _ _ => rfl
  · intro path
    exact .lift (mirrors_scanOn settings.engine host.watched_reflects host.watched_reflects path)

theorem audit_unwatched {world : σ} {r : Except Failure Audit} {t : NamingState (History σ)}
    (hrun : settings.audit host.watched file { world := .start world } = (r, t)) :
    settings.audit host file { world } = (r, t.unwatched) := by
  have hmirror := mirrors_audit host settings file { world := .start world }
  rw [hrun] at hmirror
  exact hmirror

theorem audit_untouched {s : NamingState σ}
    (h : Audit.RefusedName file ∨ host.isFile s.world file = false) :
    ∃ f, settings.audit host file s = (.error f, s) := by
  obtain ⟨r, t, new, hrun, -, hends⟩ := Audit.run_ends (Operation.isFile host)
    (settings.engine.engine host) (settings.naming.namingChecker host) file s []
  rw [audit, hrun]
  have habsurd : ¬Audit.RefusedName file → Operation.isFile host s file = true → False := by
    intro hname hfile
    rcases h with hrefused | hmissing
    · exact hname hrefused
    · exact Bool.false_ne_true (hmissing.symm.trans hfile)
  cases hends with
  | refused => exact ⟨_, rfl⟩
  | missing => exact ⟨_, rfl⟩
  | unscanned hname hfile => exact (habsurd hname hfile).elim
  | uncheckable hname hfile => exact (habsurd hname hfile).elim
  | unnamed hname hfile => exact (habsurd hname hfile).elim
  | reported hname hfile => exact (habsurd hname hfile).elim

/-- A session is the only part of an audit that makes a scratch directory, and it ends before the
audit does. -/
theorem swept_audit (world : σ) :
    Swept host (settings.audit host.watched file { world := .start world }).2.world := by
  have hstart : Owned ({ world := .start world } : NamingState (History σ)) := rfl
  obtain ⟨r, t, new, hrun, -, hends⟩ := Audit.run_ends (Operation.isFile host.watched)
    (settings.engine.engine host.watched) (settings.naming.namingChecker host.watched) file
    { world := .start world } []
  rw [audit, hrun]
  have hscan : ∀ r u, (settings.engine.engine host.watched).scan file { world := .start world } =
      (r, u) → Owned u ∧ u.scratch = none := by
    intro r u hu
    cases hu
    exact ⟨made_scan file _ hstart, rfl⟩
  have hcall : ∀ r u v, Owned u →
      (settings.naming.namingChecker host.watched).results file u = (r, v) → Owned v := by
    intro r u v hu hv
    have howned : Owned ((settings.naming.namingChecker host.watched).results file u).2 :=
      owned_namingResults file u hu
    rw [hv] at howned
    exact howned
  cases hends with
  | refused => exact swept_of_owned hstart rfl
  | missing => exact swept_of_owned hstart rfl
  | unscanned _ _ hs => exact swept_of_owned (hscan _ _ hs).1 (hscan _ _ hs).2
  | uncheckable _ _ hs => exact swept_of_owned (hscan _ _ hs).1 (hscan _ _ hs).2
  | unnamed _ _ hs _ hr => exact swept_release (hcall _ _ _ (hscan _ _ hs).1 hr)
  | reported _ _ hs _ hr => exact swept_release (hcall _ _ _ (hscan _ _ hs).1 hr)

variable {host settings file}

theorem audit_eq_ok {w : σ} {audit : Audit} {t : NamingState σ}
    (h : settings.audit host file { world := w } = (.ok audit, t)) :
    ∃ d w' answer, settings.engine.scan host file w = (.ok d, w') ∧
      (settings.naming.namingResults host file { world := w' }).1 = .ok answer ∧
      audit = ⟨Report.ofCounters d.counters answer, d⟩ := by
  obtain ⟨d, u, answer, hscan, -, hanswer, haudit⟩ := Audit.run_eq_ok h
  have hfound : (settings.engine.scan host file w).1 = .ok d := congrArg Prod.fst hscan
  obtain rfl : ({ world := (settings.engine.scan host file w).2 } : NamingState σ) = u :=
    congrArg Prod.snd hscan
  exact ⟨d, _, answer, Prod.ext hfound rfl, hanswer, haudit⟩

end Effective

section Colour

/-- Text without the character that starts an escape sequence. -/
def Plain (text : String) : Prop := '\x1b' ∉ text.toList

instance (text : String) : Decidable (Plain text) := inferInstanceAs (Decidable (¬_))

theorem plain_append {a b : String} : Plain (a ++ b) ↔ Plain a ∧ Plain b := by
  unfold Plain
  rw [String.toList_append, List.mem_append, not_or]

theorem plain_join {texts : List String} (h : ∀ text ∈ texts, Plain text) :
    Plain (String.join texts) := by
  unfold Plain
  rw [String.toList_join, List.mem_flatMap]
  rintro ⟨text, hin, hesc⟩
  exact h text hin hesc

theorem plain_intercalate {sep : String} {texts : List String} (hsep : Plain sep)
    (h : ∀ text ∈ texts, Plain text) : Plain (sep.intercalate texts) := by
  induction texts with
  | nil =>
    rw [String.intercalate_nil]
    decide
  | cons text rest ih =>
    have htext : Plain text := h text List.mem_cons_self
    have hrest := ih fun t ht => h t (List.mem_cons_of_mem text ht)
    cases rest with
    | nil =>
      rw [String.intercalate_singleton]
      exact htext
    | cons next more =>
      rw [String.intercalate_cons_cons, plain_append, plain_append]
      exact ⟨⟨htext, hsep⟩, hrest⟩

theorem plain_toString (n : Nat) : Plain (toString n) := by
  change '\x1b' ∉ n.repr.toList
  rw [Nat.toList_repr]
  intro hesc
  exact absurd (Text.Json.printable_toDigits n _ hesc) (by decide)

theorem Report.plain_footer (r : Report) : Plain r.footer := by
  have hname : ∀ name ∈ r.failing.map Category.name, Plain name := by
    intro name hin
    obtain ⟨category, -, rfl⟩ := List.mem_map.mp hin
    cases category <;> decide
  have hfailing : Plain (if (r.failing.map Category.name).isEmpty then "none"
      else ",".intercalate (r.failing.map Category.name)) := by
    split
    · decide
    · exact plain_intercalate (by decide) hname
  change Plain ("— Summary — total_errors=" ++ toString r.total.toNat ++ " failing=" ++ _)
  simp only [plain_append, and_assoc]
  exact ⟨by decide, plain_toString _, by decide, hfailing⟩

namespace Diagnostics
variable {d : Diagnostics}
variable (hmessages : ∀ code message, d.message? code = some message → Plain message)
include hmessages

theorem plain_detailLine {code : String} (hcode : Plain code) :
    Plain (d.detailLine false code) := by
  have hmessage : Plain ((d.message? code).getD "") := by
    cases hm : d.message? code with
    | none => decide
    | some message => exact hmessages code message hm
  have hplural : Plain (if 1 < d.count code then "s" else "") := by split <;> decide
  change Plain ("    " ++ code ++ ", " ++ toString (d.count code).toNat ++ " occurrence" ++
    (if 1 < d.count code then "s" else "") ++ ": " ++ (d.message? code).getD "" ++ "\n")
  simp only [plain_append, and_assoc]
  exact ⟨by decide, hcode, by decide, plain_toString _, by decide, hplural, by decide, hmessage,
    by decide⟩

theorem plain_summary : Plain (d.summary false) := by
  have hwords : ∀ set ∈ CodeSet.all,
      Plain (set.header ++ " Errors:") ∧ Plain set.clean ∧ ∀ code ∈ set.codes, Plain code := by
    decide
  refine plain_join fun text htext => ?_
  obtain ⟨set, hset, rfl⟩ := List.mem_map.mp htext
  obtain ⟨hheader, hclean, hcodes⟩ := hwords set hset
  rw [sectionText, plain_append, plain_append]
  refine ⟨⟨hheader, by decide⟩, ?_⟩
  split
  · rw [plain_append, plain_append]
    exact ⟨⟨by decide, hclean⟩, by decide⟩
  · refine plain_join fun line hline => ?_
    obtain ⟨code, hcode, rfl⟩ := List.mem_map.mp hline
    exact plain_detailLine hmessages (hcodes code (List.mem_filter.mp hcode).1)

end Diagnostics
end Colour

namespace Program
variable {σ : Type}

/-- The last line of the summary, in bold unless the variable `NO_COLOR` is set. -/
def footerLine (noColor : Option String) (r : Report) : String :=
  match noColor with
  | none => "\x1b[1m" ++ r.footer ++ "\x1b[0m"
  | some _ => r.footer

/-- A text shows a report in an output mode. -/
structure Shows (noColor : Option String) (mode : String) (d : Diagnostics) (r : Report)
    (text : String) : Prop where
  human : mode = "human" → text = d.summary noColor.isNone ++ footerLine noColor r ++ "\n"
  json : mode ≠ "human" → text = r.toJson.render ++ "\n"
  colour : mode = "human" → (∀ code message, d.message? code = some message → Plain message) →
    (Plain text ↔ noColor ≠ none)

theorem bold_footer (noColor : Option String) (r : Report) :
    Text.bold noColor.isNone r.footer = footerLine noColor r := by
  cases noColor <;> rfl

theorem shows_display (noColor : Option String) (mode : String) (d : Diagnostics) (r : Report) :
    Shows noColor mode d r (r.display d mode noColor.isNone) := by
  have hhuman : mode = "human" → r.display d mode noColor.isNone =
      d.summary noColor.isNone ++ footerLine noColor r ++ "\n" := by
    intro hmode
    rw [Report.display, if_pos hmode, bold_footer]
  refine ⟨hhuman, fun hmode => if_neg hmode, ?_⟩
  intro hmode hmessages
  rw [hhuman hmode, plain_append, plain_append]
  cases noColor with
  | none =>
    have hbold : ¬Plain (footerLine none r) := by
      rw [footerLine, plain_append, plain_append]
      exact fun h => absurd h.1.1 (by decide)
    simp [hbold]
  | some value =>
    have hsummary : Plain (d.summary false) := Diagnostics.plain_summary hmessages
    have hfooter : Plain (footerLine (some value) r) := r.plain_footer
    have hend : Plain "\n" := by decide
    simp [hsummary, hfooter, hend]

/-- How a run on a command line ends: the exit, and the history of the system. -/
structure Contract (decoders : Decoders) (host : Host σ) (noColor : Option String)
    (options : Options) (world : σ) (exit : Exit) (h : History σ) : Prop where
  success : exit.code = 0 ↔ ∃ settings audit,
    Settings.resolve decoders host world options.root options.output = .ok settings ∧
      (settings.audit host options.file { world }).1 = .ok audit
  failure : exit.code ≠ 0 → exit.code = 2 ∧ exit.stdout = ""
  /-- Without settings, an acceptable name and a file, nothing is done to the system. -/
  idle : (∃ f, Settings.resolve decoders host world options.root options.output = .error f) ∨
      Audit.RefusedName options.file ∨ host.isFile world options.file = false →
    exit.code = 2 ∧ h = .start world
  report : ∀ settings,
    Settings.resolve decoders host world options.root options.output = .ok settings →
    exit.code = 0 → ∃ d w answer, settings.engine.scan host options.file world = (.ok d, w) ∧
      (settings.naming.namingResults host options.file { world := w }).1 = .ok answer ∧
      Shows noColor settings.output d (Report.ofCounters d.counters answer) exit.stdout
  swept : h.Removes host → ∀ dir ∈ h.made, host.hasDir h.world dir = false

/-- The exit of an audit. -/
def ending (coloured : Bool) (settings : Effective) : Except Failure Audit → Exit
  | .ok audit =>
    { code := 0, stdout := audit.report.display audit.diagnostics settings.output coloured,
      stderr := modeNote coloured settings.output }
  | .error f =>
    { code := 2, stderr := modeNote coloured settings.output ++ failureNotice coloured f }

theorem auditWith_apply (host : Host σ) (coloured : Bool) (settings : Effective) (file : String)
    (s : σ) :
    auditWith host coloured settings file s =
      (ending coloured settings (settings.audit host file { world := s }).1,
        (settings.audit host file { world := s }).2.world) := by
  have hfile : Operation.isFile host = fun t path => host.isFile t.world path := rfl
  rw [auditWith, Effective.audit, hfile]
  split
  rename_i result t hrun
  rw [hrun]
  cases result with
  | error f => rfl
  | ok audit =>
    have hprint : (Except.ok audit : Except Failure Audit).bind (fun audit =>
        audit.report.print audit.diagnostics settings.output coloured) =
        .ok (audit.report.display audit.diagnostics settings.output coloured) :=
      audit.report.print_eq _ _ _
    simp only [hprint, ending]

theorem resolve_watched (decoders : Decoders) (host : Host σ) (h : History σ)
    (root output : Option String) :
    Settings.resolve decoders host.watched h root output =
      Settings.resolve decoders host h.world root output := rfl

section Ends
variable {decoders : Decoders} {host : Host σ} {noColor : Option String} {options : Options}
  {world : σ}

theorem contract_unresolved {f : Failure} {stderr : String}
    (hresolve : Settings.resolve decoders host world options.root options.output = .error f) :
    Contract decoders host noColor options world { code := 2, stderr } (.start world) where
  success := by simp [hresolve]
  failure _ := ⟨rfl, rfl⟩
  idle _ := ⟨rfl, rfl⟩
  report settings hok := by simp [hresolve] at hok
  swept _ dir hdir := by cases hdir

theorem contract_audited {settings : Effective} {r : Except Failure Audit}
    {t : NamingState (History σ)}
    (hresolve : Settings.resolve decoders host world options.root options.output = .ok settings)
    (hrun : settings.audit host.watched options.file { world := .start world } = (r, t)) :
    Contract decoders host noColor options world (ending noColor.isNone settings r) t.world := by
  have hplain := settings.audit_unwatched host options.file hrun
  refine ⟨?_, ?_, ?_, ?_, ?_⟩
  · rw [hresolve]
    cases r with
    | ok audit => simp [ending, hplain]
    | error f => simp [ending, hplain]
  · intro hcode
    cases r with
    | ok audit => exact absurd rfl hcode
    | error f => exact ⟨rfl, rfl⟩
  · rintro (⟨f, hf⟩ | hearly)
    · rw [hresolve] at hf
      cases hf
    · have huntouched : ∃ f, settings.audit host.watched options.file { world := .start world } =
          (.error f, { world := .start world }) := settings.audit_untouched _ _ hearly
      obtain ⟨f, hf⟩ := huntouched
      rw [hrun] at hf
      cases hf
      exact ⟨rfl, rfl⟩
  · intro other hother hcode
    rw [hresolve] at hother
    cases hother
    cases r with
    | error f => cases hcode
    | ok audit =>
      obtain ⟨d, w, answer, hscan, hanswer, rfl⟩ := Effective.audit_eq_ok hplain
      exact ⟨d, w, answer, hscan, hanswer, shows_display _ _ _ _⟩
  · have hswept := settings.swept_audit host options.file world
    rw [hrun] at hswept
    exact hswept

end Ends

/-- On every system, a command line that asks for an audit ends by the contract, and watching the
run changes neither its exit nor the system it leaves. -/
theorem ends_by_contract (decoders : Decoders) (host : Host σ) (noColor : Option String)
    (args : List String) (options : Options) (hparse : Options.parse args = .ok options)
    (world : σ) :
    ∃ exit h, run decoders host.watched noColor.isNone args (.start world) = (exit, h) ∧
      run decoders host noColor.isNone args world = (exit, h.world) ∧
      Contract decoders host noColor options world exit h := by
  have hoptions : ∀ {τ : Type} (host : Host τ) (s : τ), run decoders host noColor.isNone args s =
      runOptions decoders host noColor.isNone options s := by
    intro τ host s
    rw [run, hparse]
  rw [hoptions, hoptions, runOptions, runOptions, resolve_watched, History.world]
  cases hresolve : Settings.resolve decoders host world options.root options.output with
  | error f => exact ⟨_, _, rfl, rfl, contract_unresolved hresolve⟩
  | ok settings =>
    simp only [auditWith_apply]
    rcases hrun : settings.audit host.watched options.file { world := .start world } with ⟨r, t⟩
    refine ⟨_, _, rfl, ?_, contract_audited hresolve hrun⟩
    rw [settings.audit_unwatched host options.file hrun]
    rfl

/-- A file with two naming errors: the exit is that of a report, and the scratch directory of the
naming checker is gone. -/
theorem contract_on_the_shelf :
    let lint : CheckerSettings := { program := some "lint", args := some [], requires := some "" }
    let decoders : Decoders :=
      ⟨fun mode => .ok { output := some mode, engine := some lint, naming := some lint }, .error⟩
    let options : Options := ⟨"bad.py", none, none, false, false⟩
    let world : Shelf := { files := [("/stylereport.toml", "human"), ("bad.py", "def F(): pass\n")] }
    Options.parse ["bad.py"] = .ok options ∧
    ∃ exit h, run decoders Shelf.host.watched false ["bad.py"] (.start world) = (exit, h) ∧
      Contract decoders Shelf.host (some "1") options world exit h ∧ exit.code = 0 ∧
      exit.stdout = String.join (CodeSet.all.map fun set =>
        set.header ++ " Errors:\n    None. " ++ set.clean ++ " statements conform to PEP 8.\n") ++
        "— Summary — total_errors=2 failing=naming\n" ∧
      h.made = ["/tmp/naming"] ∧ Shelf.host.hasDir h.world "/tmp/naming" = false := by
  intro lint decoders options world
  have hparse : Options.parse ["bad.py"] = .ok options := rfl
  obtain ⟨exit, h, hrun, -, hcontract⟩ :=
    ends_by_contract decoders Shelf.host (some "1") ["bad.py"] options hparse world
  have hexit : (run decoders Shelf.host.watched false ["bad.py"] (.start world)).1 = exit :=
    congrArg Prod.fst hrun
  have hhistory : (run decoders Shelf.host.watched false ["bad.py"] (.start world)).2 = h :=
    congrArg Prod.snd hrun
  have hmade : h.made = ["/tmp/naming"] := by
    rw [← hhistory]
    decide +kernel
  have hremoves : h.Removes Shelf.host := by
    rw [← hhistory]
    decide +kernel
  refine ⟨hparse, exit, h, hrun, hcontract, ?_, ?_, hmade, hcontract.swept hremoves _ ?_⟩
  · rw [← hexit]
    decide +kernel
  · rw [← hexit]
    decide +kernel
  · rw [hmade]
    exact List.mem_singleton_self _

end Program
end StyleAudit
