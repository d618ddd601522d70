import ProtoForge.Proofs.Files.CanonicalTexts
import ProtoForge.Proofs.Files.Making
import ProtoForge.Proofs.Pipeline.StagedRoots
import ProtoForge.Proofs.Sources.ExtractionDirectories
import ProtoForge.Proofs.Sources.Untouched

/-!
# Repeated runs

A run that has been prepared can be prepared once more, with the same roots and
the same view, unless what it extracts comes among the files that it collects.
In that case the second run may find files that the first one has left.
-/
namespace ProtoForge.Pipeline

open Files Disk Generation Settings Sources Staging

variable {ε : Type} {c : Config} {packages : List Package.Resolved}
  {registered : List (HostGenerator ε)} {v w w' : World ε} {run : Prepared ε}

/-- The same is staged from disks on which the same things lie at the same places. -/
theorem stage_eq {d e : Disk} (h : d.SameTree e) (hd : d.IsProper) (he : e.IsProper)
    (includes imports : IncludeDirectories) (roots : List SchemaFile) :
    stage e includes imports roots = stage d includes imports roots := by
  have hoverlay : Staged.overlay e = Staged.overlay d := by
    funext s dir
    rw [Staged.overlay, Staged.overlay, h.walk_eq hd he]
  have hroot : Staged.addRoot e includes = Staged.addRoot d includes := by
    funext s root
    simp only [Staged.addRoot, Staged.addStray, h.read_eq]
  rw [stage, stage, hoverlay, hroot]

/-- Directories that can be walked and roots in them can be staged. -/
theorem exists_stage {d : Disk} {includes imports : IncludeDirectories} {roots : List SchemaFile}
    (hdirs : ∀ dir ∈ includes.dirs ++ imports.dirs, ∃ entries, d.walk dir = .ok entries)
    (hroots : ∀ root ∈ roots, (includes.containing? root.source).isSome) :
    ∃ s, stage d includes imports roots = .ok s := by
  have hadd : ∀ s : Staged, ∃ s', roots.foldlM (Staged.addRoot d includes) s = .ok s' := by
    intro s
    induction roots generalizing s with
    | nil => exact ⟨s, rfl⟩
    | cons root roots ih =>
      obtain ⟨dir, hdir⟩ := Option.isSome_iff_exists.mp (hroots root List.mem_cons_self)
      obtain ⟨s', hs'⟩ := ih (fun r hr => hroots r (List.mem_cons_of_mem root hr))
        (s.addRootName (Staged.nameBelow dir root.source))
      refine ⟨s', ?_⟩
      rw [List.foldlM_cons, Staged.addRoot, hdir]
      exact hs'
  obtain ⟨s', hs'⟩ := hadd _
  exact ⟨s', Disk.bind_eq_ok.mpr ⟨_, (overlays_eq_ok {}).mpr ⟨hdirs, rfl⟩, hs'⟩⟩

/-- A run that finds in the end what it has looked at as it was in its turn is prepared once more
with the same result, by the same process or another one, and changes nothing on disk. -/
theorem prepare_again (hd : w.disk.IsProper)
    (h : outcome (prepare c packages registered) w = (.ok (some run), w'))
    (hsame : Undisturbed c packages w.disk w'.disk) (hdisk : v.disk = w'.disk)
    (himages : v.images = w.images ∨ v.images = w'.images) :
    ∃ v', outcome (prepare c packages registered) v = (.ok (some run), v') ∧
      w'.disk.SameTree v'.disk := by
  obtain ⟨hskip, hvalid, plan, found, d, hplan, hfound, hroots, generators, staged, hbuild, hstaged,
    hrun⟩ := prepare_eq_ok_iff.mp h
  have hloads := (respects_buildGenerators c plan).of_outcome hbuild
  obtain rfl : w'.disk = d := hloads.disk
  obtain ⟨e, hfound', htree, hd', he⟩ := collect_again hd hfound hsame
  have hkept := hloads.kept
  have hrecalls : Recalls w'.images { w with disk := w'.disk } { v with disk := e } := by
    rcases himages with himages | himages
    · exact ⟨htree, himages ▸ .refl _, himages ▸ hkept⟩
    · exact ⟨htree, himages ▸ hkept, himages ▸ .refl _⟩
  obtain ⟨v', hbuild', hdisk', -⟩ := buildGenerators_again hbuild (.refl _) hrecalls
  refine ⟨v', ?_, hdisk' ▸ htree⟩
  refine prepare_eq_ok_iff.mpr ⟨hskip, hvalid, plan, found, e, hplan, hdisk ▸ hfound', hroots,
    generators, staged, hbuild', ?_, hrun⟩
  rw [hdisk', stage_eq htree hd' he, hstaged]

/-! ### A run that extracts an archive -/

/-- A disk with a schema file of the project, a directory of work files and an archive. -/
def libraryDisk : Disk where
  entries := [(["s"], .directory 0o755), (["s", "o.proto"], .file (.bytes [1]) 0o644),
    (["w"], .directory 0o755), (["t"], .file (.archive [⟨"e.proto", [2]⟩]) 0o644)]
  workingDirectory := []

/-- A package with one schema file. -/
def library : Package.Resolved := ⟨{ group := "g", artifact := "a" }, .archive ⟨"/t"⟩⟩

/-- A configuration under which imports are extracted below a directory of the root. -/
def libraryConfig (work : String) : Config where
  paths := { sourceDir := ⟨"/s"⟩, workDir := ⟨"/" ++ work⟩, outDir := ⟨"/out"⟩ }
  scan := { imports := .everything }
  generators := { enabled := [] }

/-- The name of the directory for what is extracted. -/
def libraryName : String := "7e5c922b2a2cc75cce0a3f7daf374bb749266d7a5dafb76eb0d4c41696c9a086"

/-- The directory for what is extracted. -/
def libraryDir (work : String) : Path := ⟨"/" ++ work ++ "/proto-imports/" ++ libraryName⟩

/-- What a run finds. -/
def libraryFound (work : String) : Collected where
  roots := [⟨⟨"/s/o.proto"⟩, ⟨"/s"⟩, .project⟩]
  includes := ⟨[⟨"/s"⟩]⟩
  imports := ⟨[libraryDir work]⟩

theorem libraryDisk_isProper : libraryDisk.IsProper := isProper_of_entries (by decide) (by decide)

variable {work : String}

theorem sourceDir_library (work : String) (d : Disk) : (libraryConfig work).sourceDir d = ⟨"/s"⟩ :=
  absolutize_pathOf d ["s"]

/-- The extracted file and the directories above it have names in order. -/
theorem isFileName_library (hwork : work = "s" ∨ work = "w") :
    ∀ n ∈ [work, "proto-imports", libraryName, "e.proto"], IsFileName n := by
  have hfirst : IsFileName work := by rcases hwork with rfl | rfl <;> decide
  have hlibrary : IsFileName libraryName := by decide
  simp only [List.forall_mem_cons]
  exact ⟨hfirst, by decide, hlibrary, by decide, by simp⟩

theorem isOrdinary_library (hwork : work = "s" ∨ work = "w") {names : List String}
    (hnames : names ⊆ [work, "proto-imports", libraryName, "e.proto"]) :
    ∀ n ∈ names, Path.IsOrdinary n :=
  fun n hn => (isFileName_library hwork n (hnames hn)).toIsOrdinary

theorem libraryDir_eq (work : String) :
    libraryDir work = pathOf [work, "proto-imports", libraryName] := by
  have hmiddle : "/proto-imports/" = "/" ++ "proto-imports" ++ "/" := rfl
  change Path.mk ("/" ++ work ++ "/proto-imports/" ++ libraryName) =
    ⟨"/" ++ (work ++ "/" ++ "proto-imports" ++ "/" ++ libraryName)⟩
  simp only [hmiddle, String.append_assoc]

theorem join_libraryDir (hwork : work = "s" ∨ work = "w") :
    (libraryDir work).join ⟨"e.proto"⟩ = pathOf [work, "proto-imports", libraryName, "e.proto"] := by
  rw [libraryDir_eq, join_pathOf (isOrdinary_library hwork (by simp))
    (isOrdinary_library hwork (List.Subset.refl _) _ (by simp))]
  rfl

theorem checkText_library (hwork : work = "s" ∨ work = "w") :
    checkText (pathOf [work, "proto-imports", libraryName, "e.proto"]).text = .ok () := by
  rcases hwork with rfl | rfl <;> decide

theorem checkText_libraryDir (hwork : work = "s" ∨ work = "w") :
    checkText (libraryDir work).text = .ok () := by
  rcases hwork with rfl | rfl <;> decide

theorem digest_library : Digest.ofText "g:a" = libraryName := digest_plain

theorem directoryFor_library (hwork : work = "s" ∨ work = "w") :
    directoryFor (libraryConfig work) .importOnly library libraryDisk = libraryDir work := by
  have hname : library.coordinate.uniqueName = "g:a" := by decide
  have hroot : (libraryConfig work).workDir libraryDisk = pathOf [work] :=
    absolutize_pathOf libraryDisk [work]
  have hordinary := isOrdinary_library hwork (List.Subset.refl _)
  have hkind : (pathOf [work]).join ⟨"proto-imports"⟩ = pathOf [work, "proto-imports"] :=
    join_pathOf (isOrdinary_library hwork (by simp)) (hordinary "proto-imports" (by simp))
  have hpackage : (pathOf [work, "proto-imports"]).join ⟨libraryName⟩ =
      pathOf [work, "proto-imports", libraryName] :=
    join_pathOf (isOrdinary_library hwork (by simp)) (hordinary libraryName (by simp))
  rw [directoryFor, extractionDirectory, hroot, hname, digest_library, libraryDir_eq, ← hpackage, ← hkind]
  rfl

/-- The schema file of the package is found in its archive. -/
theorem walk_library {d : Disk} (h : d.read ⟨"/t"⟩ = .ok (.archive [⟨"e.proto", [2]⟩])) :
    library.walk d .allowAll = .ok ([.archived ⟨"/t"⟩ ⟨"e.proto"⟩], []) := by
  change Package.walkArchive d ⟨"/t"⟩ .allowAll library.coordinate = _
  rw [Package.walkArchive, Package.openArchive, h]
  cbv

theorem read_library : libraryDisk.read ⟨"/t"⟩ = .ok (.archive [⟨"e.proto", [2]⟩]) := by cbv

/-- The directory for what is extracted can be made, and nothing else changes. -/
theorem makeDirectories_library (hwork : work = "s" ∨ work = "w") :
    ∃ d, outcome (makeDirectories (libraryDir work)) libraryDisk = (.ok (), d) ∧
      d.Opens (libraryDir work) [work, "proto-imports", libraryName] ∧
        ∀ k, d.get? k = libraryDisk.get? k ∨ [work] <+: k ∧ k.length ≤ 3 := by
  have hopens : libraryDisk.Opens ⟨"/" ++ work⟩ [work] := by
    rcases hwork with rfl | rfl
    · exact .of_locate (by cbv) ⟨_, rfl⟩
    · exact .of_locate (by cbv) ⟨_, rfl⟩
  have hcomponents : (libraryDir work).components =
      (Path.mk ("/" ++ work)).components ++ ["proto-imports", libraryName].map .name := by
    have hwork' : Path.mk ("/" ++ work) = pathOf [work] := rfl
    rw [libraryDir_eq, hwork', components_pathOf (isOrdinary_library hwork (by simp)),
      components_pathOf (isOrdinary_library hwork (by simp))]
    rfl
  have hnames : ∀ n ∈ ["proto-imports", libraryName], IsFileName n := fun n hn =>
    isFileName_library hwork n (List.mem_cons_of_mem work (List.mem_append_left ["e.proto"] hn))
  have hlast : ∀ n ∈ ["proto-imports", libraryName].getLast?,
      (Path.pieces (libraryDir work).text).getLast? = some n := by
    rw [libraryDir_eq, pieces_pathOf (isOrdinary_library hwork (by simp)) (by simp)]
    exact fun n hn => hn
  have hfree : ∀ ps, ps <+: ["proto-imports", libraryName] →
      libraryDisk.get? ([work] ++ ps) = none ∨ libraryDisk.HasDirectory ([work] ++ ps) := by
    intro ps hps
    rw [← List.mem_inits] at hps
    simp only [List.inits, List.map_cons, List.map_nil, List.mem_cons, List.not_mem_nil,
      or_false] at hps
    rcases hps with rfl | rfl | rfl
    · exact Or.inr hopens.directory
    · rcases hwork with rfl | rfl <;> exact Or.inl rfl
    · rcases hwork with rfl | rfl <;> exact Or.inl rfl
  obtain ⟨d, hmake, hmade⟩ :=
    makeDirectories_ok libraryDisk_isProper.rooted hopens hcomponents hnames hlast
      (checkText_libraryDir hwork) hfree
  have hgrown := (grows_makeDirectories (libraryDir work)).of_outcome hmake
  refine ⟨d, hmake, (hgrown.opens hopens).below hcomponents hnames hmade.directories, fun k => ?_⟩
  rcases hmade.frame k with heq | ⟨-, ps, hps, rfl⟩
  · exact Or.inl heq
  · exact Or.inr ⟨⟨ps, rfl⟩, Nat.succ_le_succ hps.length_le⟩

/-- The run extracts the schema file of the package, and changes nothing else on disk. -/
theorem outcome_collect_library (hwork : work = "s" ∨ work = "w") :
    ∃ d, outcome (collect (libraryConfig work) [library]) libraryDisk =
        (.ok (libraryFound work), d) ∧
      d.Opens (libraryDir work) [work, "proto-imports", libraryName] ∧
        View.HasFile d.get? [work, "proto-imports", libraryName, "e.proto"] ∧
          ∀ k, d.get? k = libraryDisk.get? k ∨ [work] <+: k := by
  obtain ⟨d, hmake, hopens, hframe⟩ := makeDirectories_library hwork
  have hnamed : d.Names ((libraryDir work).join ⟨"e.proto"⟩)
      [work, "proto-imports", libraryName, "e.proto"] false := by
    refine hopens.names_join (by rw [libraryDir_eq]; simp [pathOf])
      (isFileName_library hwork _ (by simp)) ?_
    rw [join_libraryDir hwork]
    exact checkText_library hwork
  have hnone : d.get? [work, "proto-imports", libraryName, "e.proto"] = none := by
    rcases hframe [work, "proto-imports", libraryName, "e.proto"] with heq | ⟨-, hlength⟩
    · rw [heq]
      rcases hwork with rfl | rfl <;> rfl
    · simp at hlength
  have hwrite := writeFile_ok [2] hnamed (Or.inl hnone)
  have hgrown := (grows_writeFile ((libraryDir work).join ⟨"e.proto"⟩) [2]).of_outcome hwrite
  have hspot : [work, "proto-imports", libraryName, "e.proto"] ≠ [] := by simp
  refine ⟨_, ?_, hgrown.opens hopens, ⟨_, _, get?_put d _ _ hspot⟩, fun k => ?_⟩
  · have hown : collectLocal libraryDisk ((libraryConfig work).sourceDir libraryDisk) =
        .ok { roots := (libraryFound work).roots, includes := (libraryFound work).includes } := by
      rw [sourceDir_library]
      cbv
    have hscans : scans (libraryConfig work) [library] = [(.importOnly, library)] := rfl
    have hfilter : filterFor (libraryConfig work).scan .importOnly library.coordinate.packageId =
        .ok .allowAll := rfl
    have hread : Package.readEntry libraryDisk ⟨"/t"⟩ ⟨"e.proto"⟩ = .ok [2] := by cbv
    have hparent : ((libraryDir work).join ⟨"e.proto"⟩).parent? = some (libraryDir work) := by
      rw [join_libraryDir hwork, libraryDir_eq]
      exact parent?_pathOf (l := [work, "proto-imports", libraryName]) (s := "e.proto")
        (isOrdinary_library hwork (List.Subset.refl _))
    rw [outcome_collect, hown, hscans]
    dsimp only
    rw [collectScans, List.foldlM_cons]
    refine outcome_bind_eq_ok.mpr ⟨libraryFound work, _, ?_, rfl⟩
    rw [outcome_collectPackage, hfilter]
    dsimp only
    rw [walk_library read_library]
    dsimp only
    rw [directoryFor_library hwork, List.foldlM_cons]
    refine outcome_bind_eq_ok.mpr ⟨libraryFound work, _, ?_, rfl⟩
    rw [collectEntry]
    exact outcome_bind_eq_ok.mpr ⟨_, _, extract_ok hread hparent hmake hwrite, rfl⟩
  · by_cases hk : k = [work, "proto-imports", libraryName, "e.proto"]
    · right
      rw [hk]
      exact ⟨["proto-imports", libraryName, "e.proto"], rfl⟩
    · rw [get?_put_eq hspot, Function.update_of_ne hk]
      exact (hframe k).imp_right And.left

/-- The run is prepared once the schema file is extracted. -/
theorem exists_prepare_library {d : Disk}
    (hcollect : outcome (collect (libraryConfig work) [library]) libraryDisk =
      (.ok (libraryFound work), d))
    (hopens : d.Opens (libraryDir work) [work, "proto-imports", libraryName])
    (htext : checkText (libraryDir work).text = .ok ())
    (hvalid : (libraryConfig work).validate = .ok ()) :
    ∃ run, outcome (prepare (libraryConfig work) [library] []) (World.mk libraryDisk [] ()) =
      (.ok (some run), ⟨d, [], ()⟩) := by
  obtain ⟨_, -, hadvances⟩ := collect_advances libraryDisk_isProper hcollect
  have hlocate : d.locate ⟨"/s"⟩ true = .ok ["s"] := hadvances.grown.locate (by cbv)
  obtain ⟨m, hm⟩ := hadvances.grown.directories ["s"] ⟨_, rfl⟩
  obtain ⟨k, hk⟩ := hopens.directory
  obtain ⟨staged, hstaged⟩ : ∃ s, stage d (libraryFound work).includes (libraryFound work).imports
      (libraryFound work).roots = .ok s := by
    apply exists_stage
    · intro dir hmem
      simp only [libraryFound, List.mem_append, List.mem_singleton] at hmem
      rcases hmem with rfl | rfl
      · exact exists_walk hlocate (by simp [hm])
      · exact exists_walk (hopens.locate htext) (by simp [hk])
    · intro root hroot
      obtain rfl := List.mem_singleton.mp hroot
      change ((IncludeDirectories.mk [⟨"/s"⟩]).containing? ⟨"/s/o.proto"⟩).isSome
      cbv
  exact ⟨_, prepare_eq_ok_iff.mpr ⟨rfl, hvalid, [], libraryFound work, d, rfl, hcollect, rfl, [],
    staged, rfl, hstaged, rfl⟩⟩

/-- What is extracted into a directory of its own is not found by the next run. -/
theorem library_found_again : ∃ run w' v', libraryDisk.IsProper ∧
    outcome (prepare (libraryConfig "w") [library] []) (World.mk libraryDisk [] ()) =
      (.ok (some run), w') ∧
    Undisturbed (libraryConfig "w") [library] libraryDisk w'.disk ∧
    outcome (prepare (libraryConfig "w") [library] []) w' = (.ok (some run), v') ∧
      w'.disk.SameTree v'.disk := by
  obtain ⟨d, hcollect, hopens, -, hframe⟩ := outcome_collect_library (Or.inr rfl : "w" = "s" ∨ _)
  obtain ⟨run, hrun⟩ := exists_prepare_library hcollect hopens (checkText_libraryDir (by simp)) (by decide)
  obtain ⟨_, -, hadvances⟩ := collect_advances libraryDisk_isProper hcollect
  have hown : libraryDisk.LeavesAlone d ⟨"/s"⟩ ["s"] :=
    ⟨by cbv, ⟨_, rfl⟩, by decide, fun _ => (hframe _).resolve_right (by simp)⟩
  have hread : d.read ⟨"/t"⟩ = .ok (.archive [⟨"e.proto", [2]⟩]) :=
    read_eq_ok_iff.mpr ⟨["t"], _, hadvances.grown.locate (by cbv),
      ((hframe ["t"]).resolve_right (by simp)).trans rfl⟩
  have hundisturbed : Undisturbed (libraryConfig "w") [library] libraryDisk d := by
    refine undisturbed_of_leftAlone libraryDisk_isProper hcollect (sourceDir_library "w" _ ▸ hown) fun s hs => ?_
    obtain rfl := List.mem_singleton.mp hs
    exact ⟨_, read_library, hread⟩
  obtain ⟨v', hagain, htree⟩ :=
    prepare_again libraryDisk_isProper hrun hundisturbed rfl (Or.inr rfl)
  exact ⟨run, _, v', libraryDisk_isProper, hrun, hundisturbed, hagain, htree⟩

/-- The extracted file, taken for one of the project. -/
def nestedFile : SchemaFile where
  source := (pathOf ["s"]).below ["proto-imports", libraryName, "e.proto"]
  owner := pathOf ["s"]
  provenance := .project

theorem components_nestedFile : nestedFile.source.components =
    [.root, .name "s", .name "proto-imports", .name libraryName, .name "e.proto"] := by
  have hordinary := isOrdinary_library (Or.inl rfl : "s" = "s" ∨ _) (List.Subset.refl _)
  rw [nestedFile, below_pathOf (by exact hordinary), components_pathOf (by exact hordinary)]
  rfl

/-- Once it has been extracted into the project's own directory, the file is one of the project. -/
theorem mem_localFiles_nested {d : Disk} (hd : d.IsProper) (hgrown : libraryDisk.Grown d)
    (hfile : View.HasFile d.get? ["s", "proto-imports", libraryName, "e.proto"]) :
    ∃ files, localFiles d ⟨"/s"⟩ = .ok files ∧ nestedFile ∈ files ∧
      ∀ file ∈ files, file.owner = nestedFile.owner := by
  obtain ⟨b, m, hb⟩ := hfile
  refine ⟨_, localFiles_of_directory hd (hgrown.locate (by cbv))
    (hgrown.directories ["s"] ⟨_, rfl⟩) (by decide), ?_, fun file hfile => ?_⟩
  · have hschema : isSchemaFile nestedFile.source = true := by
      rw [isSchemaFile, Path.extension?, Path.fileName?, components_nestedFile]
      cbv
    rw [walkBelow_eq]
    refine List.mem_map.mpr ⟨⟨nestedFile.source, .file b m⟩,
      List.mem_filter.mpr ⟨?_, hschema⟩, rfl⟩
    exact List.mem_map.mpr ⟨(_, .file b m), hd.mem_below.mpr ⟨by simp, hb⟩, rfl⟩
  · obtain ⟨_, -, rfl⟩ := List.mem_map.mp hfile
    rfl

/-- What is extracted into the project's own directory is found by the next run. -/
theorem nested_run_finds_more : libraryDisk.IsProper ∧ ∃ run w',
    outcome (prepare (libraryConfig "s") [library] []) (World.mk libraryDisk [] ()) =
      (.ok (some run), w') ∧
    ¬ ∃ run' w'', outcome (prepare (libraryConfig "s") [library] []) w' = (.ok (some run'), w'') ∧
      run'.staged.rootNames = run.staged.rootNames ∧
        run'.staged.view.digest = run.staged.view.digest := by
  obtain ⟨d, hcollect, hopens, hfile, -⟩ := outcome_collect_library (Or.inl rfl : "s" = "s" ∨ _)
  obtain ⟨run, hrun⟩ := exists_prepare_library hcollect hopens (checkText_libraryDir (by simp)) (by decide)
  refine ⟨libraryDisk_isProper, run, _, hrun, ?_⟩
  obtain ⟨_, -, hadvances⟩ := collect_advances libraryDisk_isProper hcollect
  have hd := hadvances.grown.proper libraryDisk_isProper
  rintro ⟨run', w'', hsecond, hnames, -⟩
  obtain ⟨found, hcollect', hstaged'⟩ := eq_of_prepare hsecond
  obtain ⟨own, hown, hadvances'⟩ := collect_advances hd hcollect'
  obtain ⟨files, hfiles, hmem, howners⟩ := mem_localFiles_nested hd hadvances.grown hfile
  rw [sourceDir_library, collectLocal, hfiles] at hown
  obtain rfl := Except.ok.inj hown
  obtain ⟨rest, hrest⟩ := head_insertAll (List.ne_nil_of_mem (List.mem_map_of_mem hmem))
    (fun p hp => by
      obtain ⟨file, hfile, rfl⟩ := List.mem_map.mp hp
      exact howners file hfile)
  obtain ⟨more, hmore⟩ := hadvances'.includes
  dsimp only at hmore
  rw [hrest, List.cons_append] at hmore
  -- the extracted file is named by its path below the project's directory
  have hcontaining : found.includes.containing? nestedFile.source = some nestedFile.owner := by
    have hstart : nestedFile.source.startsWith nestedFile.owner = true := by
      rw [Path.startsWith_iff, components_nestedFile]
      decide
    rw [IncludeDirectories.containing?, ← hmore, List.find?_cons_of_pos hstart]
  have hroot := (stage_rootNames (hadvances'.grown.proper hd) hstaged').mpr
    ⟨_, hadvances'.roots.subset hmem, rfl⟩
  obtain ⟨found₁, hcollect₁, hstaged⟩ := eq_of_prepare hrun
  obtain rfl := Except.ok.inj (Prod.mk.inj (hcollect.symm.trans hcollect₁)).1
  rw [hnames, stage_rootNames hd hstaged] at hroot
  obtain ⟨root, hfirst, heq⟩ := hroot
  obtain rfl := List.mem_singleton.mp hfirst
  have hfound : rootName (libraryFound "s").includes ⟨⟨"/s/o.proto"⟩, ⟨"/s"⟩, .project⟩ = "o.proto" := by
    cbv
  have hcomponents : nestedFile.source.components = nestedFile.owner.components ++
      ["proto-imports", libraryName, "e.proto"].map .name := components_nestedFile
  rw [rootName, hcontaining, hfound] at heq
  exact absurd ((Staged.nameBelow_of_components hcomponents).symm.trans heq) (by decide)

end ProtoForge.Pipeline
