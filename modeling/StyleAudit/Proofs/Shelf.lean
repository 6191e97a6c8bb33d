import StyleAudit.Host

/-!
# A shelf

A small system to try statements about all systems on: directories, files with their text, and one
program, a naming checker that knows a single bad file.
-/

namespace StyleAudit
set_option autoImplicit false

structure Shelf where
  dirs : List String := []
  files : List (String × String) := []
  made : Nat := 0

namespace Shelf

def content (w : Shelf) (path : String) : Except Cause String :=
  if path ∈ w.dirs then .error .isDirectory
  else match w.files.lookup path with
    | some text => .ok text
    | none => .error .noEntry

def isFile (w : Shelf) (path : String) : Bool :=
  match w.content path with
  | .ok _ => true
  | .error _ => false

def removeFile (path : String) (w : Shelf) : Except Cause Unit × Shelf :=
  match w.content path with
  | .ok _ => (.ok (), { w with files := w.files.filter fun f => path != f.1 })
  | .error cause => (.error cause, w)

/-- Two naming errors are found in `bad.py` and written to the output file. About other files there
is nothing to say, and nothing is written. -/
def lint (args : List String) (w : Shelf) : Except Cause Outcome × Shelf :=
  match args with
  | [option, "bad.py"] =>
    let output := String.ofList (option.toList.drop "--output-file=".length)
    (.ok ⟨.empty, .empty, .code 1⟩, { w with files := (output, "2 N802 name\n") :: w.files })
  | _ => (.ok ⟨.empty, .empty, .code 0⟩, w)

/-- Scratch directories are numbered in strokes and thus always new. -/
def host : Host Shelf where
  currentDir _ := .ok "/"
  tempDir _ := "/tmp"
  isFile := isFile
  isEntry w path := w.isFile path || w.dirs.contains path
  readText := content
  removeFile := removeFile
  makeScratch w :=
    let dir := "/tmp/naming" ++ String.ofList (List.replicate w.made '+')
    (.ok dir, { w with dirs := dir :: w.dirs, made := w.made + 1 })
  removeScratch dir w :=
    ((), { w with dirs := w.dirs.filter fun d => d != dir
                  files := w.files.filter fun f => !(dir ++ "/").toList.isPrefixOf f.1.toList })
  run program args w := if program = "lint" then lint args w else (.error .noEntry, w)

theorem content_removeFile (w : Shelf) (path : String)
    (h : (removeFile path w).1 = .ok () ∨ (removeFile path w).1 = .error .noEntry) :
    (removeFile path w).2.content path = .error .noEntry := by
  cases hc : w.content path with
  | error cause =>
    simp only [removeFile, hc, reduceCtorEq, false_or, Except.error.injEq] at h ⊢
    rw [h]
  | ok text =>
    have hdir : path ∉ w.dirs := by
      intro hin
      rw [content, if_pos hin] at hc
      cases hc
    have hgone : (w.files.filter fun f => path != f.1).lookup path = none := by
      rw [List.lookup_eq_none_iff]
      intro f hf
      exact (List.mem_filter.mp hf).2
    simp only [removeFile, hc]
    rw [content, if_neg hdir, hgone]

end Shelf
end StyleAudit
