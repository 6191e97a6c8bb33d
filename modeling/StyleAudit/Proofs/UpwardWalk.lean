import Mathlib.Data.List.Basic
import StyleAudit.Formats
import StyleAudit.Machine.Workstation
import StyleAudit.Proofs.Discovery

/-!
# Whether the walk goes up

The walk drops components from the text of a path, but which directory is above which one is a
matter of the file tree, where `..` leads to the directory above. The two agree as long as the
components that were dropped do not lead out of the directory where the walk stops. A component `..`
that leads out of it makes the walk come to a directory that is not above the start.
-/

namespace StyleAudit
set_option autoImplicit false

namespace Machine
open StyleAudit.Path (Segment Proper spell unsplit)

section Names

def nameOctets (s : Segment) : Octets := Octets.ofText (String.ofList s)

theorem ofText_ofList (cs : List Char) : Octets.ofText (String.ofList cs) =
    cs.flatMap fun c => (String.utf8EncodeChar c).map Octets.ofByte := by
  rw [Octets.ofText, Octets.ofBytes, String.toUTF8, String.toByteArray_ofList, List.utf8Encode,
    List.data_toByteArray, List.toList_toArray, List.map_flatMap]

theorem toNat_ofByte (b : UInt8) : (Octets.ofByte b).toNat = b.toNat := by
  have hlt := b.toNat_lt
  have hvalid : b.toNat.isValidChar := .inl (by omega)
  rw [Octets.ofByte, Char.ofNat, dif_pos hvalid]
  rfl

theorem ofByte_injective : Function.Injective Octets.ofByte := by
  intro a b h
  apply UInt8.toNat_inj.mp
  rw [← toNat_ofByte, ← toNat_ofByte, h]

theorem nameOctets_injective : Function.Injective nameOctets := by
  intro s t h
  have hbytes := ofByte_injective.list_map h
  have harray := congrArg ByteArray.mk (Array.toList_inj.mp hbytes)
  exact String.ofList_inj.mp (String.toByteArray_inj.mp harray)

/-- Only the slash itself is encoded with the byte of a slash; longer encodings have higher bytes. -/
theorem eq_slash_of_mem_utf8EncodeChar {c : Char} (h : 47 ∈ String.utf8EncodeChar c) : c = '/' := by
  apply Char.toNat_inj.mp
  change c.val.toNat = 47
  have hbyte : UInt8.toNat 47 = 47 := rfl
  unfold String.utf8EncodeChar at h
  dsimp only at h
  split_ifs at h
  all_goals
    simp only [List.mem_cons, List.not_mem_nil, or_false, ← UInt8.toNat_inj, UInt8.toNat_ofNat',
      hbyte] at h
    omega

theorem slash_notMem_nameOctets {s : Segment} (h : '/' ∉ s) : '/' ∉ nameOctets s := by
  rw [nameOctets, ofText_ofList, List.mem_flatMap]
  rintro ⟨c, hc, hslash⟩
  obtain ⟨b, hb, hbyte⟩ := List.mem_map.mp hslash
  have hb47 : b = 47 := ofByte_injective hbyte
  rw [hb47] at hb
  exact h (eq_slash_of_mem_utf8EncodeChar hb ▸ hc)

theorem ofText_append (a b : List Char) : Octets.ofText (String.ofList (a ++ b)) =
    Octets.ofText (String.ofList a) ++ Octets.ofText (String.ofList b) := by
  rw [ofText_ofList, ofText_ofList, ofText_ofList, List.flatMap_append]

theorem ofText_slash (cs : List Char) :
    Octets.ofText (String.ofList ('/' :: cs)) = '/' :: Octets.ofText (String.ofList cs) := by
  rw [ofText_ofList, ofText_ofList]
  rfl

theorem ofText_unsplit (cs : List Segment) :
    Octets.ofText (String.ofList (unsplit cs)) = unsplit (cs.map nameOctets) := by
  induction cs with
  | nil => rfl
  | cons c more ih =>
    by_cases hmore : more = []
    · subst hmore
      rfl
    · have hmap : more.map nameOctets ≠ [] := by simpa using hmore
      rw [Path.unsplit_cons c hmore, ofText_append, ofText_slash, ih, List.map_cons,
        Path.unsplit_cons _ hmap]
      rfl

theorem ofText_spell (cs : List Segment) :
    Octets.ofText (spell true cs) = '/' :: unsplit (cs.map nameOctets) := by
  change Octets.ofText (String.ofList ('/' :: unsplit cs)) = _
  rw [ofText_slash, ofText_unsplit]

end Names

section Following

theorem follow_cons (t : FileTree) {s : Segment} (hs : Proper s) (loc : Location)
    (rest : List Octets) (hdir : t.isDir loc = true) :
    t.follow loc (nameOctets s :: rest) =
      if s = ['.', '.'] then t.follow loc.tail rest
      else if maxName < (nameOctets s).length then .error .nameTooLong
      else if (t.node? (nameOctets s :: loc)).isSome then t.follow (nameOctets s :: loc) rest
      else .error .noEntry := by
  have hempty : nameOctets s ≠ [] := by
    intro h
    exact hs.ne_nil (nameOctets_injective (h.trans rfl))
  have hdot : nameOctets s ≠ ['.'] := by
    intro h
    have hkey : nameOctets s = nameOctets ['.'] := h.trans (by decide +kernel)
    exact hs.ne_dot (nameOctets_injective hkey)
  have hup : nameOctets s = ['.', '.'] ↔ s = ['.', '.'] := by
    have hkey : nameOctets ['.', '.'] = ['.', '.'] := by decide +kernel
    constructor
    · intro h
      exact nameOctets_injective (h.trans hkey.symm)
    · rintro rfl
      exact hkey
  rw [FileTree.follow]
  simp only [hdir, Bool.not_true, Bool.false_eq_true, if_false, List.isEmpty_eq_false_iff.mpr hempty,
    Bool.false_or, beq_iff_eq, hdot, hup]

theorem follow_append (t : FileTree) (loc : Location) (xs ys : List Octets) :
    t.follow loc (xs ++ ys) = (t.follow loc xs).bind fun l => t.follow l ys := by
  induction xs generalizing loc with
  | nil => rfl
  | cons x rest ih =>
    rw [List.cons_append, FileTree.follow, FileTree.follow]
    split_ifs
    · rfl
    · exact ih loc
    · exact ih loc.tail
    · rfl
    · exact ih (x :: loc)
    · rfl

theorem follow_spelled (t : FileTree) {cs : List Segment} (h : ∀ s ∈ cs, Proper s) :
    t.follow [] (Path.split ('/' :: unsplit (cs.map nameOctets))) =
      t.follow [] (cs.map nameOctets) := by
  change t.follow [] ([] :: Path.split (unsplit (cs.map nameOctets))) = _
  cases cs with
  | nil => rfl
  | cons c more =>
    rw [Path.split_unsplit (by simp)]
    · rfl
    · intro o ho
      obtain ⟨s, hs, rfl⟩ := List.mem_map.mp ho
      exact slash_notMem_nameOctets (h s hs).2

/-- Following components from a directory, at a depth below it, without ever leaving it. -/
def staysInside : Nat → List Segment → Bool
  | _, [] => true
  | depth, s :: rest =>
    if s = ['.', '.'] then decide (0 < depth) && staysInside (depth - 1) rest
    else staysInside (depth + 1) rest

theorem staysInside_of_notMem {cs : List Segment} (h : ['.', '.'] ∉ cs) (depth : Nat) :
    staysInside depth cs = true := by
  induction cs generalizing depth with
  | nil => rfl
  | cons s rest ih =>
    simp only [List.mem_cons, not_or] at h
    rw [staysInside, if_neg (Ne.symm h.1)]
    exact ih h.2 (depth + 1)

/-- Components that stay inside a directory lead to a place at or below it. The names between the
directory and the place where one is are as many as the depth says. -/
theorem suffix_of_follow (t : FileTree) {dir loc : Location} {cs : List Segment}
    (hproper : ∀ s ∈ cs, Proper s) (below : Location)
    (hinside : staysInside below.length cs = true)
    (hfollow : t.follow (below ++ dir) (cs.map nameOctets) = .ok loc) : dir <:+ loc := by
  induction cs generalizing below with
  | nil =>
    obtain rfl : below ++ dir = loc := Except.ok.inj hfollow
    exact List.suffix_append below dir
  | cons s rest ih =>
    have hs := hproper s List.mem_cons_self
    have hrest := fun c hc => hproper c (List.mem_cons_of_mem s hc)
    by_cases hdir : t.isDir (below ++ dir) = true
    · rw [List.map_cons, follow_cons t hs _ _ hdir] at hfollow
      rw [staysInside] at hinside
      by_cases hup : s = ['.', '.']
      · rw [if_pos hup] at hfollow hinside
        cases below with
        | nil => cases hinside
        | cons name below => exact ih hrest below (by simpa using hinside) hfollow
      · rw [if_neg hup] at hfollow hinside
        split_ifs at hfollow
        exact ih hrest (nameOctets s :: below) hinside hfollow
    · rw [List.map_cons, FileTree.follow, if_pos (by simpa using hdir)] at hfollow
      cases hfollow

end Following

section Resolving

theorem resolve_spell (ws : Workstation) {cs : List Segment} (h : ∀ s ∈ cs, Proper s) :
    ws.resolve (spell true cs) =
      if (Octets.ofText (spell true cs)).contains '\x00' then
        .error (.other "file name contained an unexpected NUL byte")
      else if maxPath ≤ (Octets.ofText (spell true cs)).length then .error .nameTooLong
      else ws.files.follow [] (cs.map nameOctets) := by
  rw [Workstation.resolve, FileTree.resolve, ofText_spell]
  change (if _ then _ else if _ then _ else ws.files.follow [] (Path.split _)) = _
  rw [follow_spelled ws.files h]

theorem ofText_spell_front (front rest : List Segment) :
    Octets.ofText (spell true front) <+: Octets.ofText (spell true (front ++ rest)) := by
  rw [ofText_spell, ofText_spell, List.map_append]
  exact List.cons_prefix_cons.mpr ⟨rfl, Path.unsplit_front _ _⟩

/-- The way to a place passes the directories that its first components lead to. -/
theorem resolve_front (ws : Workstation) {front rest : List Segment}
    (h : ∀ s ∈ front ++ rest, Proper s) {loc : Location}
    (hresolve : ws.resolve (spell true (front ++ rest)) = .ok loc) :
    ∃ dir, ws.resolve (spell true front) = .ok dir ∧
      ws.files.follow dir (rest.map nameOctets) = .ok loc := by
  have hfront : ∀ s ∈ front, Proper s := fun s hs => h s (List.mem_append_left _ hs)
  have hshorter := ofText_spell_front front rest
  rw [resolve_spell ws h] at hresolve
  split_ifs at hresolve with hnul hlong
  have hnul' : ¬(Octets.ofText (spell true front)).contains '\x00' = true := by
    rw [List.contains_iff_mem] at hnul ⊢
    exact fun hmem => hnul (hshorter.subset hmem)
  have hlong' : ¬maxPath ≤ (Octets.ofText (spell true front)).length := by
    have hle := hshorter.length_le
    omega
  rw [resolve_spell ws hfront, if_neg hnul', if_neg hlong']
  rw [List.map_append, follow_append] at hresolve
  cases hdir : ws.files.follow [] (front.map nameOctets) with
  | error cause =>
    rw [hdir] at hresolve
    cases hresolve
  | ok dir =>
    rw [hdir] at hresolve
    exact ⟨dir, rfl, hresolve⟩

end Resolving
end Machine

namespace Settings
open Machine

/-- A configuration file that discovery finds from an absolute base is in a directory on the way to
the start: the start has the components of that directory and some more. The directory is the start
or one above it if those do not lead out of it, and so always if the start has no component `..`. -/
theorem found_at_or_above_start (ws : Workstation) (decoders : Decoders) (base : String)
    (root : Option String) (start : Location) (dir name : String)
    (decode : String → Except String Settings) (hbase : Path.isAbsolute base = true)
    (hstart : ws.resolve (startDir base root) = .ok start)
    (hfinds : Finds Workstation.host ws decoders (Path.ancestors (startDir base root)) dir name
      decode) :
    ∃ rest loc, (route base root).2 = Path.components dir ++ rest ∧ ws.resolve dir = .ok loc ∧
      (staysInside 0 rest = true → loc <:+ start) ∧
      (['.', '.'] ∉ (route base root).2 → loc <:+ start) := by
  have habsolute : (route base root).1 = true := by
    cases root with
    | none => exact hbase
    | some root =>
      rw [route]
      split
      · rfl
      · exact hbase
  have hproper := proper_route base root
  obtain ⟨before, after, hchain, -⟩ := hfinds.visits
  have hdir : dir ∈ Path.ancestors (startDir base root) := by simp [hchain]
  rw [startDir_eq_spell, habsolute] at hdir hstart
  obtain ⟨front, rest, hroute, rfl⟩ := Path.eq_spell_of_mem_ancestors true hproper hdir
  rw [hroute] at hproper hstart
  obtain ⟨loc, hloc, hfollow⟩ := resolve_front ws hproper hstart
  have hup : staysInside 0 rest = true → loc <:+ start := by
    intro hinside
    exact suffix_of_follow ws.files (fun s hs => hproper s (List.mem_append_right _ hs)) []
      hinside hfollow
  refine ⟨rest, loc, ?_, hloc, hup, ?_⟩
  · rw [Path.components_spell true fun s hs => hproper s (List.mem_append_left _ hs)]
    exact hroute
  · intro hnone
    apply hup
    apply staysInside_of_notMem
    exact fun hin => hnone (hroute ▸ List.mem_append_right _ hin)

/-- Two directories beside each other, one with a configuration file and a directory of its own. -/
def neighbours : Workstation where
  files := ⟨[(["work".toList], .dir), (["a".toList, "work".toList], .dir),
    (["b".toList, "work".toList], .dir), (["sub".toList, "a".toList, "work".toList], .dir),
    (["stylereport.toml".toList, "a".toList, "work".toList],
      .file "output = \"human\"\n".toUTF8 false)]⟩
  cwd := []
  tempDir := "/tmp"
  vars := []

/-- The start `/work/a/sub/../sub` has the configuration file of the directory above it. -/
theorem found_above_sub :
    ∃ rest loc, (route "/work/a" (some "sub/../sub")).2 =
        Path.components "/work/a/sub/.." ++ rest ∧
      neighbours.resolve "/work/a/sub/.." = .ok loc ∧
      loc <:+ ["sub".toList, "a".toList, "work".toList] := by
  have hroot : detectRoot Workstation.host neighbours (startDir "/work/a" (some "sub/../sub")) =
      "/work/a/sub/.." := by decide +kernel
  have hholds : Holds Workstation.host neighbours "/work/a/sub/.." "stylereport.toml" := rfl
  obtain ⟨rest, loc, hroute, hloc, hup, -⟩ :=
    found_at_or_above_start neighbours .standard "/work/a" (some "sub/../sub") _ _
      "stylereport.toml" _ rfl rfl (finds_toml .standard Workstation.host neighbours hroot hholds)
  have hsub : (route "/work/a" (some "sub/../sub")).2 =
      Path.components "/work/a/sub/.." ++ ["sub".toList] := by decide +kernel
  have hrest : rest = ["sub".toList] := List.append_cancel_left (hroute.symm.trans hsub)
  exact ⟨rest, loc, hroute, hloc, hup (by rw [hrest]; decide)⟩

/-- The start `/work/a/../b` is beside the directory `/work/a`, and has its configuration file. -/
theorem found_beside_start :
    let start := startDir "/work/a" (some "../b")
    ∃ startLoc loc, Path.isAbsolute "/work/a" = true ∧ neighbours.resolve start = .ok startLoc ∧
      neighbours.files.isDir startLoc = true ∧
      Finds Workstation.host neighbours .standard (Path.ancestors start) "/work/a"
        "stylereport.toml" Decoders.standard.toml ∧
      neighbours.resolve "/work/a" = .ok loc ∧ ¬loc <:+ startLoc ∧
      ((resolveFrom .standard Workstation.host neighbours "/work/a" (some "../b") none).map
        Effective.output).toOption = some "human" := by
  intro start
  have hroot : detectRoot Workstation.host neighbours start = "/work/a" := by decide +kernel
  have hholds : Holds Workstation.host neighbours "/work/a" "stylereport.toml" := rfl
  refine ⟨["b".toList, "work".toList], ["a".toList, "work".toList], rfl, rfl, rfl,
    finds_toml .standard Workstation.host neighbours hroot hholds, rfl, by decide, ?_⟩
  decide +kernel

end Settings
end StyleAudit
