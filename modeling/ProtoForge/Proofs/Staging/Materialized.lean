import ProtoForge.Proofs.Files.CanonicalTexts
import ProtoForge.Proofs.Staging.Writing

/-!
# Materialized views

A view gets a directory of its own, with a name that was free. It is written
there just if no file of it is one of its directories and the system takes the
paths of all its files and directories; if not, the directory is gone again.
-/
namespace ProtoForge

theorem Bytes.textSize_append (s t : String) :
    Bytes.textSize (s ++ t) = Bytes.textSize s + Bytes.textSize t := by
  simp [Bytes.textSize, Bytes.ofText]

/-- A name that does not begin with a dot is an ordinary one. -/
theorem Path.isOrdinary_of_head {s : String} {c : Char} (hhead : s.toList.head? = some c)
    (hdot : c ≠ '.') (hslash : '/' ∉ s.toList) : Path.IsOrdinary s := by
  have hne : ∀ t : String, t.toList.head? ≠ some c → s ≠ t := by
    rintro t ht rfl
    exact ht hhead
  refine ⟨?_, hne ".." (by simpa using hdot.symm), hslash⟩
  rw [isIdle, Bool.or_eq_false_iff, beq_eq_false_iff_ne, beq_eq_false_iff_ne]
  exact ⟨hne "" (by simp), hne "." (by simpa using hdot.symm)⟩

namespace Staging

open Files ProtoForge.Path

/-- The name that a new private directory gets below a location. -/
def freshSandbox (d : Disk) (l : Location) : String := d.freshName l "protoc-sandbox-"

/-- The path of a new private directory. -/
def freshRoot (d : Disk) (l : Location) : Path := View.scratchRoot.join ⟨freshSandbox d l⟩

/-- Where a new private directory lies. -/
def freshPlace (d : Disk) (l : Location) : Location := l ++ [freshSandbox d l]

/-- The directory for private directories is there, and the name of a new one is not too long. -/
structure TakesScratch (d : Disk) (l : Location) : Prop where
  proper : d.IsProper
  leads : d.locate View.scratchRoot true = .ok l
  directory : d.HasDirectory l
  short : Bytes.textSize (freshSandbox d l) ≤ Disk.maxName

/-- The disk with a new private directory. -/
def withScratch (d : Disk) (l : Location) : Disk := d.put (freshPlace d l) (.directory directoryMode)

variable {d e : Disk} {l k : Location} {v : View} {p : Path} {name : String} {b : Bytes}

theorem freshRoot_text_ne_empty (d : Disk) (l : Location) : (freshRoot d l).text ≠ "" :=
  join_text_ne_empty (by decide)

theorem freshPlace_ne_nil : freshPlace d l ≠ [] := by simp [freshPlace]

theorem get?_withScratch_self :
    (withScratch d l).get? (freshPlace d l) = some (.directory directoryMode) :=
  Disk.get?_put d _ _ freshPlace_ne_nil

theorem isOrdinary_tmp : IsOrdinary "tmp" := isOrdinary_of_head (c := 't') rfl (by decide) (by decide)

theorem freshSandbox_eq (d : Disk) (l : Location) :
    ∃ n, freshSandbox d l = "protoc-sandbox-" ++ Disk.sixDigits n := by
  obtain ⟨⟨n, -, hn⟩, -⟩ := d.freshName_spec l "protoc-sandbox-"
  exact ⟨n, hn⟩

namespace TakesScratch

theorem isFileName (h : TakesScratch d l) : Disk.IsFileName (freshSandbox d l) := by
  obtain ⟨n, hn⟩ := freshSandbox_eq d l
  have hlist : (freshSandbox d l).toList = "protoc-sandbox-".toList ++ (Disk.sixDigits n).toList := by
    rw [hn, String.toList_append]
  refine ⟨isOrdinary_of_head (c := 'p') ?_ (by decide) ?_, h.short⟩
  · rw [hlist]
    rfl
  · rw [hlist, List.mem_append]
    exact fun hslash => hslash.elim (by decide) (Disk.not_mem_sixDigits n)

theorem isOrdinary (h : TakesScratch d l) : ∀ s ∈ ["tmp", freshSandbox d l], IsOrdinary s :=
  List.forall_mem_cons.mpr
    ⟨isOrdinary_tmp, List.forall_mem_singleton.mpr h.isFileName.toIsOrdinary⟩

theorem text_freshRoot (h : TakesScratch d l) :
    (freshRoot d l).text = "/tmp" ++ "/" ++ freshSandbox d l :=
  Disk.text_join_pathOf (l := ["tmp"]) (List.forall_mem_singleton.mpr isOrdinary_tmp) (by simp)
    (isAbsolute_eq_false h.isFileName.no_slash)

/-- The system takes the path of the new directory. -/
theorem checkText_freshRoot (h : TakesScratch d l) : Disk.checkText (freshRoot d l).text = .ok () := by
  have hshort := h.short
  obtain ⟨n, hn⟩ := freshSandbox_eq d l
  refine Disk.checkText_eq_ok_iff.mpr ⟨?_, freshRoot_text_ne_empty d l, ?_⟩
  · rw [h.text_freshRoot, hn]
    simp only [String.toList_append, List.mem_append, not_or]
    refine ⟨by decide, by decide, fun hnul => ?_⟩
    exact absurd (Disk.isDigit_of_mem_sixDigits hnul) (by decide)
  · have hsize : Bytes.textSize ("/tmp" ++ "/") = 5 := by decide
    rw [h.text_freshRoot, Bytes.textSize_append, hsize, Disk.maxPath]
    rw [Disk.maxName] at hshort
    omega

/-- What lies below the new directory has the name of that in its path. -/
theorem text_join (h : TakesScratch d l) (hname : IsCanonicalName name) :
    ((freshRoot d l).join ⟨name⟩).text = "/tmp" ++ "/" ++ freshSandbox d l ++ "/" ++ name := by
  have hroot : freshRoot d l = Disk.pathOf ["tmp", freshSandbox d l] :=
    Disk.join_pathOf (List.forall_mem_singleton.mpr isOrdinary_tmp) h.isFileName.toIsOrdinary
  rw [← h.text_freshRoot, hroot]
  exact Disk.text_join_pathOf h.isOrdinary (by simp) hname.isAbsolute

/-- Nothing lies where the new directory will be, nor below. -/
theorem absent (h : TakesScratch d l) (hk : freshPlace d l <+: k) : d.get? k = none :=
  h.proper.rooted.absent_of_prefix (d.freshName_spec l "protoc-sandbox-").2 hk

theorem get?_withScratch (h : TakesScratch d l) (hk : freshPlace d l <+: k) (hne : k ≠ freshPlace d l) :
    (withScratch d l).get? k = none := by
  rw [withScratch, Disk.get?_put_eq freshPlace_ne_nil, Function.update_of_ne hne, h.absent hk]

/-- The new directory can be entered. -/
theorem enclosure (h : TakesScratch d l) :
    Disk.Enclosure (freshRoot d l) (freshPlace d l) (withScratch d l) := by
  have hfree := h.absent List.prefix_rfl
  have hgrown : d.Grown (withScratch d l) := Disk.grown_put h.directory h.isFileName (Or.inl hfree)
  have hnames : d.Names (freshRoot d l) (freshPlace d l) false :=
    (Disk.Opens.of_locate h.leads h.directory).names_join (by decide) h.isFileName h.checkText_freshRoot
  refine ⟨hgrown.proper h.proper, hnames.opens hgrown ⟨_, get?_withScratch_self⟩, ?_⟩
  intro k t hk hne ht
  rw [h.get?_withScratch hk hne] at ht
  cases ht

/-- The new directory is all there is. -/
theorem bareBelow (h : TakesScratch d l) : (withScratch d l).BareBelow (freshPlace d l) := by
  intro k x hk hx
  by_cases heq : k = freshPlace d l
  · rw [heq, get?_withScratch_self] at hx
    exact (Option.some.inj hx).symm
  · rw [h.get?_withScratch hk heq] at hx
    cases hx

end TakesScratch

/-- A disk on which a view has a new directory of its own. The path of the directory leads there,
the view is all that the directory holds, and all else is as it was. -/
structure View.MaterializedAt (v : View) (d : Disk) (p : Path) (top : Location) (e : Disk) : Prop where
  fresh : d.get? top = none
  leads : e.locate p true = .ok top
  directory : e.get? top = some (.directory directoryMode)
  view : v.LiesAt top e
  outside : ∀ k, ¬ top <+: k → e.get? k = d.get? k
  workingDirectory : e.workingDirectory = d.workingDirectory

/-- A view is written to the new directory, which is removed again if that fails. -/
theorem outcome_materialize (h : TakesScratch d l) (v : View) :
    outcome v.materialize d =
      match outcome (v.writeTo (freshRoot d l)) (withScratch d l) with
      | (.ok _, e) => (.ok (freshRoot d l), e)
      | (.error failure, e) => (.error failure, (removeTree (freshRoot d l)).after e) := by
  have hscratch : outcome (makeScratchDirectory View.scratchRoot "protoc-sandbox-") d =
      (.ok (freshRoot d l), withScratch d l) := by
    rw [outcome_makeScratchDirectory, h.leads]
    rfl
  rw [View.materialize, outcome_bind, outcome_orFail_eq_ok.mpr hscratch]
  dsimp only
  rw [outcome_bind, outcome_tryCatch]
  rcases outcome (v.writeTo (freshRoot d l)) (withScratch d l) with ⟨failure | u, e⟩
  · rfl
  · rfl

/-- A view that is a tree and fits gets a directory of its own. -/
theorem exists_materialize (h : TakesScratch d l) (hv : v.IsCanonical) (hfiles : v.files.IsAscending)
    (hdirectories : v.directories.IsAscending) (hapart : v.IsApart)
    (hfits : v.FitsBelow (freshRoot d l)) :
    ∃ e, outcome v.materialize d = (.ok (freshRoot d l), e) ∧
      v.MaterializedAt d (freshRoot d l) (freshPlace d l) e := by
  have hroot := freshRoot_text_ne_empty d l
  obtain ⟨e, hout, hview, hdirectory⟩ := View.exists_writeTo hv hfiles hdirectories hroot hapart hfits
    h.enclosure h.bareBelow fun k hk => h.get?_withScratch (List.prefix_append _ k) (by simpa using hk)
  obtain ⟨he, hchanged⟩ :=
    (View.stays_writeTo hv hfiles hdirectories hroot).of_outcome hout h.enclosure
  refine ⟨e, ?_, h.absent List.prefix_rfl, he.opens.locate h.checkText_freshRoot, hdirectory, hview,
    fun k hk => hchanged.of_put freshPlace_ne_nil hk, hchanged.grown.workingDirectory⟩
  rw [outcome_materialize h, hout]

/-- A view that is materialized is a tree and fits. -/
theorem of_materialize (h : TakesScratch d l) (hv : v.IsCanonical) (hfiles : v.files.IsAscending)
    (hout : outcome v.materialize d = (.ok p, e)) : v.IsApart ∧ v.FitsBelow (freshRoot d l) := by
  rw [outcome_materialize h] at hout
  rcases hwrite : outcome (v.writeTo (freshRoot d l)) (withScratch d l) with ⟨failure | u, e'⟩
  · rw [hwrite] at hout
    cases hout
  · exact View.of_writeTo hv hfiles (freshRoot_text_ne_empty d l) h.enclosure hwrite

/-- Where a view cannot be materialized, nothing stays behind. -/
theorem sameTree_of_materialize {failure : Failure} (h : TakesScratch d l) (hv : v.IsCanonical)
    (hfiles : v.files.IsAscending) (hdirectories : v.directories.IsAscending)
    (hout : outcome v.materialize d = (.error failure, e)) : d.SameTree e := by
  rw [outcome_materialize h] at hout
  rcases hwrite : outcome (v.writeTo (freshRoot d l)) (withScratch d l) with ⟨failure' | u, e'⟩
  · rw [hwrite] at hout
    obtain ⟨he, hchanged⟩ := (View.stays_writeTo hv hfiles hdirectories
      (freshRoot_text_ne_empty d l)).of_outcome hwrite h.enclosure
    obtain ⟨-, rfl⟩ := Prod.mk.inj hout
    rw [removeTree_after (he.opens.locate h.checkText_freshRoot)]
    exact Disk.sameTree_eraseTree (fun k hk => h.absent hk) hchanged
  · rw [hwrite] at hout
    cases hout

/-- A view whose files have canonical names is materialized just if no file of it is one of its
directories and the system takes the paths of its files and directories below the new directory.
Then the directory holds the files with their bytes and with their permissions, where these are
recorded, the directories with the recorded permissions and those of the owner, and nothing else;
outside of it nothing has changed. If the view is not materialized, nothing has changed at all. -/
theorem materialize_faithful (h : TakesScratch d l) (hv : v.Arises)
    (hnames : ∀ name, v.contains name → IsCanonicalName name) :
    ((∃ p e, outcome v.materialize d = (.ok p, e)) ↔ v.IsApart ∧ v.FitsBelow (freshRoot d l)) ∧
      (∀ p e, outcome v.materialize d = (.ok p, e) →
        p = freshRoot d l ∧ v.MaterializedAt d p (freshPlace d l) e) ∧
      ∀ failure e, outcome v.materialize d = (.error failure, e) → d.SameTree e := by
  have hcanonical := hv.isCanonical hnames
  have hfiles := hv.assembled.isAscending
  have hdirectories := hv.assembled.isAscending_directories
  refine ⟨⟨?_, ?_⟩, fun p e hout => ?_, fun failure e hout =>
    sameTree_of_materialize h hcanonical hfiles hdirectories hout⟩
  · rintro ⟨p, e, hout⟩
    exact of_materialize h hcanonical hfiles hout
  · rintro ⟨hapart, hfits⟩
    obtain ⟨e, hout, -⟩ := exists_materialize h hcanonical hfiles hdirectories hapart hfits
    exact ⟨_, e, hout⟩
  · obtain ⟨hapart, hfits⟩ := of_materialize h hcanonical hfiles hout
    obtain ⟨e', hout', hview⟩ := exists_materialize h hcanonical hfiles hdirectories hapart hfits
    obtain ⟨rfl, rfl⟩ : freshRoot d l = p ∧ e' = e := by simpa [hout'] using hout
    exact ⟨rfl, hview⟩

/-- A directory with a script in a directory that is closed to writing, beside the directory for
private directories. -/
def scriptDisk : Disk where
  entries := [(["s"], .directory 0o755), (["s", "lib"], .directory 0o500),
    (["s", "lib", "t"], .file (.bytes [7]) 0o750), (["tmp"], .directory 0o1777)]
  workingDirectory := []

theorem freshSandbox_scriptDisk : freshSandbox scriptDisk ["tmp"] = "protoc-sandbox-000000" := by cbv

theorem scriptDisk_takesScratch : TakesScratch scriptDisk ["tmp"] where
  proper := Disk.isProper_of_entries (by decide) (by decide)
  leads := by cbv
  directory := ⟨0o1777, by decide⟩
  short := by
    rw [freshSandbox_scriptDisk]
    decide

/-- A view with a file where a directory must be. -/
def clashingView : View := (({} : View).insert "a" [1]).insert "a/b" [2]

/-- The script is materialized with its permissions, in a directory that its owner can write to. A
file that is also a directory is refused, and nothing is left. -/
theorem scriptDisk_materializes :
    TakesScratch scriptDisk ["tmp"] ∧
      (∃ s e, stage scriptDisk ⟨[⟨"/s"⟩]⟩ .empty [] = .ok s ∧ s.view.Arises ∧
        (∀ name, s.view.contains name → IsCanonicalName name) ∧
        outcome s.view.materialize scriptDisk = (.ok (freshRoot scriptDisk ["tmp"]), e) ∧
        e.get? ["tmp", "protoc-sandbox-000000", "lib"] = some (.directory 0o700) ∧
        e.get? ["tmp", "protoc-sandbox-000000", "lib", "t"] = some (.file (.bytes [7]) 0o750)) ∧
      clashingView.Arises ∧ (∀ name, clashingView.contains name → IsCanonicalName name) ∧
      ∃ failure e, outcome clashingView.materialize scriptDisk = (.error failure, e) ∧
        scriptDisk.SameTree e := by
  have hscratch := scriptDisk_takesScratch
  refine ⟨hscratch, ?_, ?_⟩
  · obtain ⟨s, hstage, hview⟩ : ∃ s, stage scriptDisk ⟨[⟨"/s"⟩]⟩ .empty [] = .ok s ∧
        s.view = ⟨[("lib/t", ⟨[7], some 0o750⟩)], [("lib", some 0o500)]⟩ := ⟨_, by cbv, by cbv⟩
    have harises : s.view.Arises := .staged hscratch.proper hstage
    have hnames : ∀ name, s.view.contains name → IsCanonicalName name := by
      intro name hname
      have hkeys : ∀ name ∈ s.view.files.keys, IsCanonicalName name := by rw [hview]; decide
      exact hkeys name (OrderedMap.mem_keys_iff.mpr hname)
    have hapart : s.view.IsApart := by
      intro name hname
      have hkeys : ∀ name ∈ s.view.files.keys, ¬ (s.view.directories.get? name).isSome := by
        rw [hview]
        decide
      exact hkeys name (OrderedMap.mem_keys_iff.mpr hname)
    obtain ⟨hiff, hfaithful, -⟩ := materialize_faithful hscratch harises hnames
    have hfits : s.view.FitsBelow (freshRoot scriptDisk ["tmp"]) := by
      intro name hname
      have hkeys : ∀ name ∈ s.view.files.keys ++ s.view.directories.keys, IsCanonicalName name ∧
          Disk.checkText ("/tmp" ++ "/" ++ "protoc-sandbox-000000" ++ "/" ++ name) = .ok () := by
        rw [hview]
        decide
      rw [View.IsStaged] at hname
      obtain ⟨hcanonical, htext⟩ := hkeys name (List.mem_append.mpr
        (hname.imp OrderedMap.mem_keys_iff.mpr OrderedMap.mem_keys_iff.mpr))
      rwa [hscratch.text_join hcanonical, freshSandbox_scriptDisk]
    obtain ⟨p, e, hout⟩ := hiff.mpr ⟨hapart, hfits⟩
    obtain ⟨rfl, hplaced⟩ := hfaithful p e hout
    have hplace : freshPlace scriptDisk ["tmp"] = ["tmp", "protoc-sandbox-000000"] := by
      rw [freshPlace, freshSandbox_scriptDisk]
      rfl
    rw [hplace] at hplaced
    refine ⟨s, e, hstage, harises, hnames, hout, ?_, ?_⟩
    · exact (hplaced.view ["lib"] (by decide) _).mpr
        (Or.inr ⟨"lib", some 0o500, by rw [hview]; decide, by decide, rfl⟩)
    · exact (hplaced.view ["lib", "t"] (by decide) _).mpr
        (Or.inl ⟨"lib/t", ⟨[7], some 0o750⟩, by rw [hview]; decide, by decide, rfl⟩)
  · have harises : clashingView.Arises := .insert "a/b" [2] (.insert "a" [1] .empty)
    have hview : clashingView = ⟨[("a", ⟨[1], none⟩), ("a/b", ⟨[2], none⟩)], [("a", none)]⟩ := by cbv
    have hnames : ∀ name, clashingView.contains name → IsCanonicalName name := by
      intro name hname
      have hkeys : ∀ name ∈ clashingView.files.keys, IsCanonicalName name := by rw [hview]; decide
      exact hkeys name (OrderedMap.mem_keys_iff.mpr hname)
    obtain ⟨hiff, -, hfailed⟩ := materialize_faithful hscratch harises hnames
    refine ⟨harises, hnames, ?_⟩
    rcases hout : outcome clashingView.materialize scriptDisk with ⟨failure | p, e⟩
    · exact ⟨failure, e, rfl, hfailed failure e hout⟩
    · obtain ⟨hapart, -⟩ := hiff.mp ⟨p, e, hout⟩
      exact absurd (by rw [hview]; decide) (hapart "a" (by rw [hview]; decide))

/-- A name of many equal letters. -/
def letters (n : ℕ) : String := String.ofList (List.replicate n 'x')

theorem textSize_letters (n : ℕ) : Bytes.textSize (letters n) = n := by
  have hletter : String.utf8EncodeChar 'x' = [120] := by decide
  rw [Bytes.textSize, Bytes.ofText, letters, String.toList_ofList, List.flatMap_replicate, hletter]
  simp

theorem isFileName_letters {n : ℕ} (hn : 0 < n) (hshort : n ≤ Disk.maxName) :
    Disk.IsFileName (letters n) := by
  have hlist : (letters n).toList = List.replicate n 'x' := String.toList_ofList
  refine ⟨isOrdinary_of_head (c := 'x') ?_ (by decide) fun hslash => ?_, by rwa [textSize_letters]⟩
  · rw [hlist, List.head?_replicate, if_neg hn.ne']
  · rw [hlist] at hslash
    exact absurd (List.eq_of_mem_replicate hslash) (by decide)

theorem textSize_ofPieces_replicate (s : String) (n : ℕ) :
    Bytes.textSize (ofPieces (List.replicate (n + 1) s)) = (n + 1) * Bytes.textSize s + n := by
  induction n with
  | zero => simp [ofPieces]
  | succ n ih =>
    have hslash : Bytes.textSize "/" = 1 := by decide
    rw [List.replicate_succ, ← List.singleton_append,
      Generation.ofPieces_append (List.cons_ne_nil _ _) (by simp), Bytes.textSize_append,
      Bytes.textSize_append, ih, hslash]
    simp only [ofPieces, String.intercalate_singleton]
    ring

theorem get?_insert_empty {other : String} :
    ((({} : View).insert name b).get? other).isSome ↔ other = name := by
  rw [View.insert, View.get?_addFile]
  split_ifs with heq
  · simp [heq]
  · simp [heq, View.get?, OrderedMap.get?]

/-- A view with one file is a tree. -/
theorem isApart_insert_empty (hname : IsCanonicalName name) : (({} : View).insert name b).IsApart := by
  intro other hfile hdir
  rw [get?_insert_empty] at hfile
  rw [View.insert, View.isSome_directories_addFile, hname.mem_parentNames_iff, hfile] at hdir
  rcases hdir with hdir | hdir
  · simp [OrderedMap.get?] at hdir
  · exact Generation.not_liesBelow_self hdir

/-- A name that the system takes only where it is relative. -/
def longName : String := ofPieces (List.replicate 16 (letters 255))

/-- A view with one file, whose name is long. -/
def longView : View := ({} : View).insert longName [120]

theorem isCanonicalName_longName : IsCanonicalName longName :=
  isCanonicalName_ofPieces (by simp) fun s hs => by
    rw [List.eq_of_mem_replicate hs]
    exact isFileName_letters (by decide) (by decide)

/-- A view whose file names are canonical and none of its directories need not be materialized: the
name of its file can be so long that the system does not take the path of the file. -/
theorem longView_not_materialized :
    TakesScratch scriptDisk ["tmp"] ∧ longView.Arises ∧
      (∀ name, longView.contains name → IsCanonicalName name) ∧ longView.IsApart ∧
      ∀ p e, outcome longView.materialize scriptDisk ≠ (.ok p, e) := by
  have hscratch := scriptDisk_takesScratch
  have harises : longView.Arises := .insert longName [120] .empty
  have hfile : ∀ name, (longView.get? name).isSome ↔ name = longName := fun _ => get?_insert_empty
  have hnames : ∀ name, longView.contains name → IsCanonicalName name := fun name hname =>
    (hfile name).mp hname ▸ isCanonicalName_longName
  refine ⟨hscratch, harises, hnames, isApart_insert_empty isCanonicalName_longName, ?_⟩
  intro p e hout
  obtain ⟨-, hfits⟩ :=
    of_materialize hscratch (harises.isCanonical hnames) harises.assembled.isAscending hout
  have htext := hfits longName (Or.inl ((hfile longName).mpr rfl))
  have hsize : Bytes.textSize longName = 4095 := by
    rw [longName, textSize_ofPieces_replicate, textSize_letters]
  obtain ⟨-, -, hshort⟩ := Disk.checkText_eq_ok_iff.mp htext
  rw [hscratch.text_join isCanonicalName_longName, Bytes.textSize_append, Bytes.textSize_append, hsize,
    Disk.maxPath] at hshort
  have hslash : Bytes.textSize "/" = 1 := by decide
  omega

end Staging

end ProtoForge
