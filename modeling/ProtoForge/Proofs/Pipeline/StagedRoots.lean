import ProtoForge.Proofs.Generation.Dispatch
import ProtoForge.Proofs.Pipeline.Images
import ProtoForge.Proofs.Staging.Roots

/-!
# The roots of a run

A run hands names to the compiler, and the compiler sees the staged view. Files
of the project and of package directories are staged under their names; those
of archives are if their paths go straight down from an include directory.
-/
namespace ProtoForge.Pipeline

open Files Generation Settings Sources Staging

variable {ε : Type} {c : Config} {packages : List Package.Resolved}
  {registered : List (HostGenerator ε)} {plan : List (Planned (HostGenerator ε))}
  {planned : Planned (HostGenerator ε)} {generators : List (Generator ε)} {g : Generator ε}
  {w w' : World ε} {run : Prepared ε} {path : Path} {image : Guest.Image}

/-- A run is prepared, its files being collected and staged on the disk that is left, if the
configuration passes and there is anything to compile. -/
theorem prepare_eq_ok_iff :
    outcome (prepare c packages registered) w = (.ok (some run), w') ↔
      c.skip = false ∧ c.validate = .ok () ∧
        ∃ plan found d, planGenerators c (·.id) c.generators.enabled registered = .ok plan ∧
          outcome (collect c packages) w.disk = (.ok found, d) ∧ found.roots.isEmpty = false ∧
            ∃ generators staged,
              outcome (plan.mapM (buildGenerator c)) { w with disk := d } = (.ok generators, w') ∧
              stage w'.disk found.includes found.imports found.roots = .ok staged ∧
                run = ⟨c, generators, staged, found.diagnostics ++ staged.diagnostics⟩ := by
  rw [prepare]
  by_cases hskip : c.skip = true
  · simp [hskip]
  rw [if_neg hskip]
  dsimp only
  cases hvalid : c.validate with
  | error f => simp
  | ok u =>
    simp only [Bool.not_eq_true] at hskip
    simp only [hskip, true_and]
    constructor
    · intro h
      obtain ⟨plan, w₁, hplan, h⟩ := outcome_bind_eq_ok.mp h
      obtain ⟨hchosen, rfl⟩ := Prod.mk.inj hplan
      obtain ⟨found, w₁, hcollect, h⟩ := outcome_bind_eq_ok.mp h
      obtain ⟨d, hfound, rfl⟩ := outcome_worldOnDisk_eq_ok hcollect
      by_cases hempty : found.roots.isEmpty = true
      · rw [if_pos hempty] at h
        cases h
      rw [if_neg hempty] at h
      obtain ⟨generators, w₂, hbuild, h⟩ := outcome_bind_eq_ok.mp h
      obtain ⟨staged, w₃, hstage, h⟩ := outcome_bind_eq_ok.mp h
      obtain ⟨e, hview, rfl⟩ := outcome_worldOnDisk_eq_ok hstage
      rw [outcome_runInspect] at hview
      obtain ⟨hstaged, rfl⟩ := Prod.mk.inj hview
      obtain ⟨hrun, rfl⟩ := Prod.mk.inj h
      obtain rfl := Option.some.inj (Except.ok.inj hrun)
      exact ⟨plan, found, d, hchosen, hfound, by simpa using hempty, generators, staged, hbuild, hstaged,
        rfl⟩
    · rintro ⟨plan, found, d, hplan, hfound, hempty, generators, staged, hbuild, hstaged, rfl⟩
      refine outcome_bind_eq_ok.mpr ⟨plan, w, by rw [hplan]; rfl, ?_⟩
      refine outcome_bind_eq_ok.mpr ⟨found, { w with disk := d }, ?_, ?_⟩
      · rw [outcome_worldOnDisk, hfound]
      rw [if_neg (by simp [hempty])]
      refine outcome_bind_eq_ok.mpr ⟨generators, w', hbuild, ?_⟩
      refine outcome_bind_eq_ok.mpr ⟨staged, w', ?_, rfl⟩
      rw [outcome_worldOnDisk, outcome_runInspect, hstaged]

/-- A run that is prepared has collected its files and staged them on the disk it leaves. -/
theorem eq_of_prepare (h : outcome (prepare c packages registered) w = (.ok (some run), w')) :
    ∃ found, outcome (collect c packages) w.disk = (.ok found, w'.disk) ∧
      stage w'.disk found.includes found.imports found.roots = .ok run.staged := by
  obtain ⟨-, -, plan, found, d, -, hfound, -, generators, staged, hbuild, hstaged, rfl⟩ :=
    prepare_eq_ok_iff.mp h
  have hdisk : w'.disk = d := ((respects_buildGenerators c plan).of_outcome hbuild).disk
  exact ⟨found, by rw [hfound, hdisk], hstaged⟩

/-- The names that a run hands to the compiler are staged, just if the source directory is no
schema file itself and every file of an archive lies under its name below one of the directories;
it does if its path goes straight down from the directory that contains it. -/
theorem prepare_stages_roots_iff (hd : w.disk.IsProper)
    (h : outcome (prepare c packages registered) w = (.ok (some run), w')) :
    ∃ found, outcome (collect c packages) w.disk = (.ok found, w'.disk) ∧
      ((∀ name ∈ run.staged.rootNames, run.staged.view.contains name = true) ↔
        ¬ LeadsToSchemaFile w.disk (c.sourceDir w.disk) ∧
          ∀ root ∈ found.roots, root.isExtracted = true →
            ProvidesFile w'.disk found.includes found.imports found.roots
              (rootName found.includes root)) ∧
      (¬ LeadsToSchemaFile w.disk (c.sourceDir w.disk) → ∀ root ∈ found.roots,
        root.isExtracted = true → IsStraight w'.disk found.includes root →
          ProvidesFile w'.disk found.includes found.imports found.roots
            (rootName found.includes root)) := by
  obtain ⟨found, hcollect, hstage⟩ := eq_of_prepare h
  obtain ⟨own, hown, hadvances⟩ := collect_advances hd hcollect
  have hd' := hadvances.grown.proper hd
  refine ⟨found, hcollect, ?_, ?_⟩
  · rw [stage_roots_staged_iff hd' hstage]
    rcases collectLocal_cases hd hown with ⟨hsource, hgathered⟩ | ⟨hsource, top, htop, hroot⟩
    · have hall := hadvances.gathered hgathered
      refine ⟨fun hprovides => ⟨hsource, fun root hroot _ => hprovides root hroot⟩, ?_⟩
      rintro ⟨-, hextracted⟩ root hroot
      by_cases hext : root.isExtracted = true
      · exact hextracted root hroot hext
      · obtain ⟨howner, hbelow⟩ := hall.owned root hroot
        obtain ⟨dir, hdir⟩ := Option.isSome_iff_exists.mp
          (IncludeDirectories.containing?_isSome howner hbelow)
        have hmem : dir ∈ found.includes.dirs := List.mem_of_find?_eq_some hdir
        obtain ⟨l, hlocate⟩ := stage_locates hd' hstage (List.mem_append_left _ hmem)
        exact providesFile_of_isCanonicalFile hd' (hall.canonical root hroot (by simpa using hext))
          hdir hlocate (hall.directories dir hmem)
    · -- the directory of the only file is the file itself, so its name is empty
      have hname : rootName found.includes ⟨top, top, .project⟩ = "" := by
        obtain ⟨rest, hrest⟩ := hadvances.includes
        rw [htop, List.singleton_append] at hrest
        have hself : top.startsWith top = true := Path.startsWith_iff.mpr List.prefix_rfl
        have hcontaining : found.includes.containing? top = some top := by
          rw [IncludeDirectories.containing?, ← hrest, List.find?_cons_of_pos hself]
        rw [rootName, hcontaining]
        exact Staged.nameBelow_self top
      refine ⟨fun hprovides => ?_, fun hnot => absurd hsource hnot.1⟩
      have hempty := hprovides _ (hadvances.roots.subset hroot)
      rw [hname] at hempty
      exact absurd hempty (not_providesFile_empty hd')
  · intro hsource root hroot hext hstraight
    rcases collectLocal_cases hd hown with ⟨-, hgathered⟩ | ⟨hleads, -⟩
    · have hall := hadvances.gathered hgathered
      exact hstraight.providesFile (hall.extracted root hroot hext) hall.directories
    · exact absurd hleads hsource

/-- A disk with one schema file. -/
def orderDisk : Disk where
  entries := [(["src"], .directory 0o755), (["src", "o.proto"], .file (.bytes [1]) 0o644)]
  workingDirectory := []

theorem orderDisk_isProper : orderDisk.IsProper := Disk.isProper_of_entries (by decide) (by decide)

/-- A configuration without generators whose schema files are looked for at a path. -/
def configFor (source : Path) : Config where
  paths := { sourceDir := source, workDir := ⟨"/w"⟩, outDir := ⟨"/out"⟩ }
  generators := { enabled := [] }

/-- The file of the project is staged. -/
theorem order_is_staged :
    orderDisk.IsProper ∧ ∃ run w',
      outcome (prepare (configFor ⟨"/src"⟩) [] []) (World.mk orderDisk [] ()) = (.ok (some run), w') ∧
        ∀ name ∈ run.staged.rootNames, run.staged.view.contains name = true := by
  obtain ⟨run, w', hrun⟩ : ∃ run w', outcome (prepare (configFor ⟨"/src"⟩) [] [])
      (World.mk orderDisk [] ()) = (.ok (some run), w') := ⟨_, _, by cbv⟩
  have hcollect : outcome (collect (configFor ⟨"/src"⟩) []) orderDisk =
      (.ok { roots := [⟨⟨"/src/o.proto"⟩, ⟨"/src"⟩, .project⟩], includes := ⟨[⟨"/src"⟩]⟩ }, orderDisk) := by
    cbv
  have hdirectory : orderDisk.isFile ((configFor ⟨"/src"⟩).sourceDir orderDisk) = false := by cbv
  obtain ⟨found, hfound, hiff, -⟩ := prepare_stages_roots_iff orderDisk_isProper hrun
  rw [hcollect] at hfound
  obtain rfl := Except.ok.inj (Prod.mk.inj hfound).1
  refine ⟨orderDisk_isProper, run, w', hrun, hiff.mpr ⟨fun hleads => ?_, fun root hroot hext => ?_⟩⟩
  · exact absurd hleads.1 (by simp [hdirectory])
  · obtain rfl := List.mem_singleton.mp hroot
    cases hext

/-- A schema file in place of the source directory is handed to the compiler under no name. -/
theorem lone_file_not_staged :
    ∃ run w', outcome (prepare (configFor ⟨"/src/o.proto"⟩) [] []) (World.mk orderDisk [] ()) =
        (.ok (some run), w') ∧
      ¬ ∀ name ∈ run.staged.rootNames, run.staged.view.contains name = true := by
  obtain ⟨run, w', hrun, hnames, hview⟩ : ∃ run w',
      outcome (prepare (configFor ⟨"/src/o.proto"⟩) [] []) (World.mk orderDisk [] ()) =
        (.ok (some run), w') ∧ run.staged.rootNames = [""] ∧ run.staged.view.contains "" = false :=
    ⟨_, _, by cbv, by cbv, by cbv⟩
  refine ⟨run, w', hrun, fun hall => ?_⟩
  have hstaged := hall "" (by rw [hnames]; exact List.mem_singleton_self "")
  rw [hview] at hstaged
  cases hstaged

end ProtoForge.Pipeline
