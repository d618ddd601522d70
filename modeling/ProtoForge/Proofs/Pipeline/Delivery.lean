import ProtoForge.Pipeline
import ProtoForge.Proofs.Generation.Dispatch
import ProtoForge.Proofs.Generation.Location
import ProtoForge.Proofs.Output.RootFiles
import ProtoForge.Proofs.Output.Written
import ProtoForge.Proofs.Resolution.Roots

/-!
# What a run delivers

The generated files are checked against each other, and the descriptor set
joins them only when they are staged. So a run that succeeds delivers all that
was generated, unless a generated file lies where the descriptor set goes.
-/
namespace ProtoForge.Pipeline

open Files Generation Resolution

variable {ε : Type}

namespace Prepared

/-- Where a generated file goes. -/
def outputPath (p : Prepared ε) (d : Disk) (f : GeneratedFile) : Path :=
  (p.config.outDir d).join ⟨f.path⟩

/-- No output of a run has a name that scratch files take. -/
structure OrdinaryOutputs (p : Prepared ε) (batch : Batch) (d : Disk) : Prop where
  generated : ∀ f ∈ batch.files, Output.IsOrdinary (p.outputPath d f)
  descriptorSet : ∀ path, p.descriptorSetPath? d = some path → Output.IsOrdinary path

/-- All that was generated is on disk after a run, and the report lists each generated file once. -/
structure Delivered (p : Prepared ε) (request : CompilationRequest) (batch : Batch)
    (report : Report) (d : Disk) : Prop where
  generated : ∀ f ∈ batch.files, d.read (p.outputPath d f) = .ok (.bytes f.content)
  descriptorSet : ∀ path, p.descriptorSetPath? d = some path →
    d.read path = .ok (.bytes request.encodeDescriptorSet)
  listed : report.written = batch.files.map (p.outputPath d)
  once : report.written.Pairwise fun a b => a.same b = false

/-- No generated file lies where the descriptor set goes, unless it says the same and its path has
other components. -/
def LeavesRoom (p : Prepared ε) (request : CompilationRequest) (batch : Batch) (d : Disk) : Prop :=
  ∀ path, p.descriptorSetPath? d = some path → ∀ f ∈ batch.files,
    d.locate (p.outputPath d f) true = d.locate path true →
      f.content = request.encodeDescriptorSet ∧ path.same (p.outputPath d f) = false

/-- The outputs of a run, the descriptor set last. -/
def outputs (p : Prepared ε) (request : CompilationRequest) (batch : Batch) (d : Disk) :
    List (Path × Bytes) :=
  (batch.files.map fun f => (p.outputPath d f, f.content)) ++
    (p.descriptorSetPath? d).toList.map fun path => (path, request.encodeDescriptorSet)

variable {p : Prepared ε} {source : DescriptorSource (World ε)} {depth : ℕ} {w w' : World ε}
  {report : Report} {request : CompilationRequest} {batch : Batch} {d e : Disk} {path : Path}
  {f g : GeneratedFile}

/-- Where outputs go depends on the working directory only. -/
theorem absolutize_congr (h : e.workingDirectory = d.workingDirectory) (path : Path) :
    e.absolutize path = d.absolutize path := by
  rw [Disk.absolutize, Disk.absolutize, h]

theorem outputPath_congr (h : e.workingDirectory = d.workingDirectory) (f : GeneratedFile) :
    p.outputPath e f = p.outputPath d f := by
  rw [outputPath, outputPath, Settings.Config.outDir, Settings.Config.outDir, absolutize_congr h]

theorem descriptorSetPath?_congr (h : e.workingDirectory = d.workingDirectory) :
    p.descriptorSetPath? e = p.descriptorSetPath? d := by
  simp only [descriptorSetPath?, Settings.Config.descriptorSetPath, Settings.Config.outDir,
    Settings.Config.workDir, absolutize_congr h]

theorem outputs_congr (h : e.workingDirectory = d.workingDirectory) :
    p.outputs request batch e = p.outputs request batch d := by
  simp only [outputs, outputPath_congr h, descriptorSetPath?_congr h]

/-- What a run reports that wrote its outputs. -/
def reportOf (p : Prepared ε) (request : CompilationRequest) (written : List Path) (d : Disk) :
    Report where
  processed := true
  roots := request.roots
  requestFiles := request.files.length
  requestChecksum := some request.checksum
  written := written.filter fun path => !(p.descriptorSetPath? d).any (·.same path)
  descriptorSet := p.descriptorSetPath? d
  diagnostics := p.diagnostics

/-- A run compiles, generates and writes, and stops at the first of these that fails. -/
theorem outcome_finish (p : Prepared ε) (source : DescriptorSource (World ε)) (depth : ℕ)
    (w : World ε) :
    outcome (p.finish source depth) w =
      match outcome (CompilationRequest.build source depth p.staged.rootNames) w with
      | (.error e, w₁) => (.error e, w₁)
      | (.ok request, w₁) =>
          match outcome (dispatch p.generators request p.staged.view) w₁ with
          | (.error e, w₂) => (.error e, w₂)
          | (.ok batch, w₂) =>
              match outcome (Output.writeAll (p.outputs request batch w₂.disk)) w₂.disk with
              | (.error e, d) => (.error e, { w₂ with disk := d })
              | (.ok written, d) =>
                  (.ok (p.reportOf request written w₂.disk), { w₂ with disk := d }) := by
  rw [finish, outcome_bind]
  rcases outcome (CompilationRequest.build source depth p.staged.rootNames) w with ⟨e | request, w₁⟩
  · rfl
  dsimp only
  rw [outcome_bind]
  rcases outcome (dispatch p.generators request p.staged.view) w₁ with ⟨e | batch, w₂⟩
  · rfl
  dsimp only
  rw [outcome_bind, outcome_get]
  dsimp only
  rw [outcome_bind, outcome_worldOnDisk]
  have houtputs : batch.outputs (p.config.outDir w₂.disk) ++
      ((p.descriptorSetPath? w₂.disk).toList.map fun path => (path, request.encodeDescriptorSet)) =
        p.outputs request batch w₂.disk := rfl
  rw [houtputs]
  rcases outcome (Output.writeAll (p.outputs request batch w₂.disk)) w₂.disk with ⟨e | written, d⟩
  · rfl
  · rfl

/-- The parts of a run that succeeds. -/
theorem eq_of_finish (h : outcome (p.finish source depth) w = (.ok report, w')) :
    ∃ request w₁ batch w₂ written,
      outcome (CompilationRequest.build source depth p.staged.rootNames) w = (.ok request, w₁) ∧
      outcome (dispatch p.generators request p.staged.view) w₁ = (.ok batch, w₂) ∧
      outcome (Output.writeAll (p.outputs request batch w₂.disk)) w₂.disk =
        (.ok written, w'.disk) ∧
      report = p.reportOf request written w₂.disk := by
  rw [outcome_finish] at h
  rcases hbuild : outcome (CompilationRequest.build source depth p.staged.rootNames) w with
    ⟨e | request, w₁⟩
  · simp [hbuild] at h
  rw [hbuild] at h
  dsimp only at h
  rcases hdispatch : outcome (dispatch p.generators request p.staged.view) w₁ with ⟨e | batch, w₂⟩
  · simp [hdispatch] at h
  rw [hdispatch] at h
  dsimp only at h
  rcases hwrite : outcome (Output.writeAll (p.outputs request batch w₂.disk)) w₂.disk with
    ⟨e | written, d⟩
  · simp [hwrite] at h
  rw [hwrite] at h
  obtain ⟨hreport, rfl⟩ := Prod.mk.inj h
  exact ⟨request, w₁, batch, w₂, written, rfl, hdispatch, hwrite, (Except.ok.inj hreport).symm⟩

section Stored

variable (hstored : Output.Stored (p.outputs request batch d) d) (hbatch : batch.Indexed)

include hstored

/-- The descriptor set is written last, so its place holds it. -/
theorem read_descriptorSet (hpath : p.descriptorSetPath? d = some path) :
    d.read path = .ok (.bytes request.encodeDescriptorSet) := by
  refine hstored.last (batch.files.map fun f => (p.outputPath d f, f.content))
    (path, request.encodeDescriptorSet) [] ?_ (by simp)
  rw [outputs, hpath]
  rfl

theorem leads_generated (hf : f ∈ batch.files) : ∃ l, d.locate (p.outputPath d f) true = .ok l :=
  hstored.leads (p.outputPath d f, f.content)
    (List.mem_append_left _ (List.mem_map_of_mem hf))

theorem leads_descriptorSet (hpath : p.descriptorSetPath? d = some path) :
    ∃ l, d.locate path true = .ok l :=
  hstored.leads (path, request.encodeDescriptorSet)
    (List.mem_append_right _ (by simp [hpath]))

/-- Two paths with the same components lead to the same place. -/
theorem locate_eq_of_same (hpath : p.descriptorSetPath? d = some path) (hf : f ∈ batch.files)
    (hsame : path.same (p.outputPath d f) = true) :
    d.locate (p.outputPath d f) true = d.locate path true := by
  obtain ⟨l, hl⟩ := leads_descriptorSet hstored hpath
  obtain ⟨k, hk⟩ := leads_generated hstored hf
  rw [hl, hk, Disk.locate_of_same hstored.linkFree hsame hl hk]

include hbatch

/-- Different generated files lie in different places. -/
theorem locate_injective (hf : f ∈ batch.files) (hg : g ∈ batch.files)
    (h : d.locate (p.outputPath d f) true = d.locate (p.outputPath d g) true) :
    f.path = g.path := by
  obtain ⟨l, hl⟩ := leads_generated hstored hf
  exact locate_join_injective hstored.linkFree (hbatch.normal f hf) (hbatch.normal g hg) hl
    (h.symm.trans hl)

/-- A generated file away from the descriptor set is on disk. -/
theorem read_generated (hf : f ∈ batch.files)
    (haway : ∀ path, p.descriptorSetPath? d = some path →
      d.locate (p.outputPath d f) true ≠ d.locate path true) :
    d.read (p.outputPath d f) = .ok (.bytes f.content) := by
  obtain ⟨before, after, hsplit⟩ := List.append_of_mem hf
  refine hstored.last (before.map fun f => (p.outputPath d f, f.content))
    (p.outputPath d f, f.content)
    ((after.map fun f => (p.outputPath d f, f.content)) ++
      (p.descriptorSetPath? d).toList.map fun path => (path, request.encodeDescriptorSet)) ?_ ?_
  · rw [outputs, hsplit, List.map_append, List.map_cons, List.append_assoc, List.cons_append]
  · intro x hx
    rcases List.mem_append.mp hx with hx | hx
    · obtain ⟨g, hg, rfl⟩ := List.mem_map.mp hx
      have hgb : g ∈ batch.files := by
        rw [hsplit]
        exact List.mem_append_right _ (List.mem_cons_of_mem f hg)
      intro heq
      have hpath := locate_injective hstored hbatch hgb hf heq
      have hdistinct := hbatch.distinct
      rw [hsplit, List.map_append, List.map_cons] at hdistinct
      have hnot := (List.nodup_cons.mp (List.nodup_append.mp hdistinct).2.1).1
      exact hnot (hpath ▸ List.mem_map_of_mem hg)
    · obtain ⟨path, hpath, rfl⟩ := List.mem_map.mp hx
      exact (haway path (by simpa using hpath)).symm

/-- No two generated files have paths with the same components. -/
theorem pairwise_outputPath :
    (batch.files.map (p.outputPath d)).Pairwise fun a b => a.same b = false := by
  rw [List.pairwise_map]
  have hdistinct := List.pairwise_map.mp hbatch.distinct
  refine hdistinct.imp_of_mem fun {f g} hf hg hne => ?_
  by_contra hsame
  obtain ⟨l, hl⟩ := leads_generated hstored hf
  obtain ⟨k, hk⟩ := leads_generated hstored hg
  refine hne (locate_injective hstored hbatch hf hg ?_)
  rw [hl, hk, Disk.locate_of_same hstored.linkFree (by simpa using hsame) hl hk]

end Stored

theorem read_congr {q : Path} (h : d.locate path true = d.locate q true) :
    d.read path = d.read q := by
  simp only [Disk.read, Disk.status, h]

/-- What is left of all outputs when those at the descriptor set's path are not listed. -/
theorem filter_outputs :
    (((p.outputs request batch d).map Prod.fst).filter fun path =>
        !(p.descriptorSetPath? d).any (·.same path)) =
      (batch.files.map (p.outputPath d)).filter fun path =>
        !(p.descriptorSetPath? d).any (·.same path) := by
  have hself : ∀ path : Path, path.same path = true := fun path => by simp [Path.same]
  rw [outputs, List.map_append, List.map_map, List.map_map, List.filter_append]
  cases hpath : p.descriptorSetPath? d with
  | none => simp [Function.comp_def]
  | some path => simp [Function.comp_def, hself]

/-- When the outputs are stored and all but those at the descriptor set's path are listed, the
delivery is full exactly when the generated files leave room for the set. -/
theorem delivered_iff (hstored : Output.Stored (p.outputs request batch d) d)
    (hbatch : batch.Indexed)
    (hreport : report.written = ((p.outputs request batch d).map Prod.fst).filter fun path =>
      !(p.descriptorSetPath? d).any (·.same path)) :
    p.Delivered request batch report d ↔ p.LeavesRoom request batch d := by
  rw [filter_outputs] at hreport
  constructor
  · intro h path hpath f hf hlocate
    constructor
    · have hread := (h.generated f hf).symm.trans
        ((read_congr hlocate).trans (h.descriptorSet path hpath))
      simpa using hread
    · have hmem : p.outputPath d f ∈ report.written := by
        rw [h.listed]
        exact List.mem_map_of_mem hf
      rw [hreport, List.mem_filter] at hmem
      simpa [hpath] using hmem.2
  · intro h
    have hlisted : report.written = batch.files.map (p.outputPath d) := by
      rw [hreport, List.filter_eq_self]
      intro x hx
      obtain ⟨f, hf, rfl⟩ := List.mem_map.mp hx
      cases hpath : p.descriptorSetPath? d with
      | none => rfl
      | some path =>
        by_contra hsame
        have hsame' : path.same (p.outputPath d f) = true := by simpa using hsame
        simpa [hsame'] using
          (h path hpath f hf (locate_eq_of_same hstored hpath hf hsame')).2
    constructor
    · intro f hf
      by_cases haway : ∀ path, p.descriptorSetPath? d = some path →
          d.locate (p.outputPath d f) true ≠ d.locate path true
      · exact read_generated hstored hbatch hf haway
      · simp only [not_forall, not_not] at haway
        obtain ⟨path, hpath, hlocate⟩ := haway
        rw [read_congr hlocate, (h path hpath f hf hlocate).1]
        exact read_descriptorSet hstored hpath
    · exact fun path hpath => read_descriptorSet hstored hpath
    · exact hlisted
    · rw [hlisted]
      exact pairwise_outputPath hstored hbatch

theorem ordinary_outputs (h : p.OrdinaryOutputs batch d) :
    ∀ f ∈ p.outputs request batch d, Output.IsOrdinary f.1 := by
  intro f hf
  rcases List.mem_append.mp hf with hf | hf
  · obtain ⟨g, hg, rfl⟩ := List.mem_map.mp hf
    exact h.generated g hg
  · obtain ⟨path, hpath, rfl⟩ := List.mem_map.mp hf
    exact h.descriptorSet path (by simpa using hpath)

/-- A run that succeeds on a tree, with generators that are no guests, delivers all that was
generated exactly when no generated file takes the place of the descriptor set. -/
theorem finish_delivers_iff (hd : w.disk.IsTree) (hsource : source.Preserves fun w => w.disk.IsTree)
    (hhost : ∀ g ∈ p.generators, g.IsHost)
    (hfinish : outcome (p.finish source depth) w = (.ok report, w')) :
    ∃ request w₁ batch w₂,
      outcome (CompilationRequest.build source depth p.staged.rootNames) w = (.ok request, w₁) ∧
      outcome (dispatch p.generators request p.staged.view) w₁ = (.ok batch, w₂) ∧
      (p.OrdinaryOutputs batch w₂.disk →
        (p.Delivered request batch report w'.disk ↔ p.LeavesRoom request batch w'.disk)) := by
  obtain ⟨request, w₁, batch, w₂, written, hbuild, hdispatch, hwrite, hreport⟩ :=
    eq_of_finish hfinish
  refine ⟨request, w₁, batch, w₂, hbuild, hdispatch, fun hord => ?_⟩
  have hd₁ : w₁.disk.IsTree :=
    CompilationRequest.build_preserves (P := fun w => w.disk.IsTree) hsource hbuild hd
  obtain ⟨hdisk, hbatch⟩ := dispatch_host hhost hdispatch
  obtain ⟨rfl, hworking, hstored⟩ :=
    Output.writeAll_ok (hdisk ▸ hd₁) (ordinary_outputs hord) hwrite
  rw [← outputs_congr hworking] at hstored
  refine delivered_iff hstored hbatch ?_
  rw [hreport, outputs_congr hworking, descriptorSetPath?_congr hworking]
  rfl

end Prepared

open Output in
theorem isEntryName_x : IsEntryName "x" := by decide

open Output in
theorem isEntryName_z : IsEntryName "z" := by decide

open Output in
/-- Writing twice to one place of an empty disk. -/
theorem outcome_writeTwice (b c : Bytes) :
    outcome (writeAll [(rootPath "x", b), (rootPath "x", c)]) ⟨[], []⟩ =
      (.ok [rootPath "x", rootPath "x"], ⟨[(["x"], scratchEntry c)], []⟩) := by
  have hfresh : (Disk.mk [] []).freshName [] scratchStem = scratch₀ := by cbv
  have hfresh' : ((Disk.mk [] []).put [scratch₀] (scratchEntry b)).freshName [] scratchStem =
      scratch₁ := by cbv
  rw [writeAll, outcome_bind, outcome_stage_two isEntryName_x isEntryName_x hfresh b c hfresh']
  dsimp only
  have hstaged : ((Disk.mk [] []).put [scratch₀] (scratchEntry b)).put [scratch₁] (scratchEntry c) =
      ⟨[([scratch₀], scratchEntry b), ([scratch₁], scratchEntry c)], []⟩ := rfl
  rw [hstaged, outcome_commit, outcome_placeAll_cons]
  have hfree : (Disk.mk [([scratch₀], scratchEntry b), ([scratch₁], scratchEntry c)] []).get?
      ["x"] = none := rfl
  rw [outcome_place_root isEntryName_x isEntryName_scratch₀ (by decide)
    (isEntryName_x.isFile_of_absent hfree)
    (b := b) rfl (Disk.not_hasDirectory_of_absent hfree)]
  dsimp only
  have hplaced : ((Disk.mk [([scratch₀], scratchEntry b), ([scratch₁], scratchEntry c)] []).erase
      [scratch₀]).put ["x"] (scratchEntry b) =
        ⟨[([scratch₁], scratchEntry c), (["x"], scratchEntry b)], []⟩ := rfl
  have hagain : (Disk.mk [([scratch₁], scratchEntry c), (["x"], scratchEntry b)] []).freshName []
      scratchStem = scratch₀ := by cbv
  rw [hplaced, outcome_placeAll_cons, outcome_place_over_root isEntryName_x isEntryName_scratch₁
    isEntryName_scratch₀ (by decide) (by decide) (by decide) hagain (b := c)
    (x := scratchEntry b) rfl rfl (isEntryName_x.isFile_of_file rfl) rfl]
  dsimp only
  rw [placeAll, outcome_pure]
  dsimp only [List.filterMap_cons, List.filterMap_nil]
  set d := ((((Disk.mk [([scratch₁], scratchEntry c), (["x"], scratchEntry b)] []).put [scratch₀]
    (scratchEntry [])).erase ["x"]).put [scratch₀] (scratchEntry b)).erase
      [scratch₁] |>.put ["x"] (scratchEntry c) with hd
  have hbackup : View.HasFile d.get? [scratch₀] := ⟨.bytes b, scratchMode, rfl⟩
  have hgone : discardAll [rootPath scratch₀] d = d.erase [scratch₀] :=
    removeFile_after (isEntryName_scratch₀.names d) hbackup
  rw [hgone]
  rfl

open Output in
/-- Writing to two places of an empty disk. -/
theorem outcome_writeApart (b c : Bytes) :
    outcome (writeAll [(rootPath "z", b), (rootPath "x", c)]) ⟨[], []⟩ =
      (.ok [rootPath "z", rootPath "x"],
        ⟨[(["z"], scratchEntry b), (["x"], scratchEntry c)], []⟩) := by
  have hfresh : (Disk.mk [] []).freshName [] scratchStem = scratch₀ := by cbv
  have hfresh' : ((Disk.mk [] []).put [scratch₀] (scratchEntry b)).freshName [] scratchStem =
      scratch₁ := by cbv
  rw [writeAll, outcome_bind, outcome_stage_two isEntryName_z isEntryName_x hfresh b c hfresh']
  dsimp only
  have hstaged : ((Disk.mk [] []).put [scratch₀] (scratchEntry b)).put [scratch₁] (scratchEntry c) =
      ⟨[([scratch₀], scratchEntry b), ([scratch₁], scratchEntry c)], []⟩ := rfl
  rw [hstaged, outcome_commit, outcome_placeAll_cons]
  have hfree : (Disk.mk [([scratch₀], scratchEntry b), ([scratch₁], scratchEntry c)] []).get?
      ["z"] = none := rfl
  rw [outcome_place_root isEntryName_z isEntryName_scratch₀ (by decide)
    (isEntryName_z.isFile_of_absent hfree) (b := b) rfl (Disk.not_hasDirectory_of_absent hfree)]
  dsimp only
  have hplaced : ((Disk.mk [([scratch₀], scratchEntry b), ([scratch₁], scratchEntry c)] []).erase
      [scratch₀]).put ["z"] (scratchEntry b) =
        ⟨[([scratch₁], scratchEntry c), (["z"], scratchEntry b)], []⟩ := rfl
  have hfree' : (Disk.mk [([scratch₁], scratchEntry c), (["z"], scratchEntry b)] []).get?
      ["x"] = none := rfl
  rw [hplaced, outcome_placeAll_cons, outcome_place_root isEntryName_x isEntryName_scratch₁
    (by decide) (isEntryName_x.isFile_of_absent hfree') (b := c) rfl
    (Disk.not_hasDirectory_of_absent hfree')]
  rfl

/-- A run that wants the descriptor set at `/x` and whose generator puts a file directly below the
root. -/
def rootRun (name : String) : Prepared Unit where
  config := { paths := { outDir := ⟨"/"⟩ }, descriptorSet := { generate := true, name := "x" } }
  generators :=
    [.host ⟨"gen", fun _ => pure { files := [{ name := some name, content := some "y" }] }⟩]
  staged := ⟨{}, ["a"], []⟩
  diagnostics := []

/-- The compiler that gives each name a file without imports. -/
def plainSource : DescriptorSource (World Unit) where
  locate _ := pure true
  compile names := pure (names.map fun n => .ofImports n [])

/-- A world with an empty disk. -/
def emptyWorld : World Unit := ⟨⟨[], []⟩, [], ()⟩

/-- What such a run compiles. -/
def rootRequest : CompilationRequest := ⟨[.ofImports "a" []], ["a"]⟩

/-- What such a run generates. -/
def rootBatch (name : String) : Batch := Batch.empty.push ⟨name, Bytes.ofText "y", "gen"⟩

variable {name : String}

theorem outcome_build_rootRun (name : String) :
    outcome (CompilationRequest.build plainSource 1 (rootRun name).staged.rootNames) emptyWorld =
      (.ok rootRequest, emptyWorld) := rfl

theorem outcome_dispatch_rootRun (hne : name ≠ "") (hpath : normalizePath? name = some name) :
    outcome (dispatch (rootRun name).generators rootRequest (rootRun name).staged.view)
      emptyWorld = (.ok (rootBatch name), emptyWorld) := by
  have hadd : Batch.empty.add "gen" { files := [{ name := some name, content := some "y" }] } =
      (.ok (), rootBatch name) := by
    have hentry : Batch.addEntry "gen" false .empty { name := some name, content := some "y" } =
        .ok (rootBatch name) := by
      rw [Batch.addEntry, if_neg (by simp [Batch.textOf]),
        if_neg (by simpa [Batch.textOf] using hne),
        Batch.addNamed]
      have hfree : Batch.empty.overlappingOwner? name = none := by
        simp [Batch.overlappingOwner?, Batch.empty]
      simp only [Batch.textOf, Option.getD_some, hpath, hfree]
      rfl
    rw [Batch.add, if_neg (by simp [Batch.textOf]), Batch.addEntries, hentry]
    rfl
  rw [dispatch, rootRun, outcome_foldlM_cons, addAnswer, outcome_bind, Generator.generate,
    outcome_worldOnExtra, outcome_pure]
  dsimp only
  rw [Generator.id]
  dsimp only
  rw [hadd]
  rfl

theorem outputPath_rootRun (hname : Output.IsEntryName name) (d : Disk) (content : Bytes)
    (generator : String) :
    (rootRun name).outputPath d ⟨name, content, generator⟩ = Output.rootPath name :=
  hname.join d

theorem descriptorSetPath?_rootRun (name : String) (d : Disk) :
    (rootRun name).descriptorSetPath? d = some (Output.rootPath "x") :=
  congrArg some (isEntryName_x.join d)

theorem outputs_rootRun (hname : Output.IsEntryName name) (d : Disk) :
    (rootRun name).outputs rootRequest (rootBatch name) d =
      [(Output.rootPath name, Bytes.ofText "y"),
        (Output.rootPath "x", rootRequest.encodeDescriptorSet)] := by
  simp [Prepared.outputs, descriptorSetPath?_rootRun, rootBatch, Batch.push, Batch.empty,
    outputPath_rootRun hname]

/-- Such a run succeeds if its outputs can be written. -/
theorem outcome_finish_rootRun (hname : Output.IsEntryName name) (hne : name ≠ "")
    (hpath : normalizePath? name = some name) {written : List Path} {d : Disk}
    (hwrite : outcome (Output.writeAll [(Output.rootPath name, Bytes.ofText "y"),
      (Output.rootPath "x", rootRequest.encodeDescriptorSet)]) ⟨[], []⟩ = (.ok written, d)) :
    outcome ((rootRun name).finish plainSource 1) emptyWorld =
      (.ok ((rootRun name).reportOf rootRequest written emptyWorld.disk),
        { emptyWorld with disk := d }) := by
  rw [Prepared.outcome_finish, outcome_build_rootRun]
  dsimp only
  rw [outcome_dispatch_rootRun hne hpath]
  dsimp only
  rw [outputs_rootRun hname]
  change outcome _ emptyWorld.disk = _ at hwrite
  rw [hwrite]

theorem rootRun_z_delivered :
    ∃ report w', outcome ((rootRun "z").finish plainSource 1) emptyWorld = (.ok report, w') ∧
      emptyWorld.disk.IsTree ∧ (plainSource.Preserves fun w => w.disk.IsTree) ∧
      (∀ g ∈ (rootRun "z").generators, g.IsHost) ∧
      (rootRun "z").OrdinaryOutputs (rootBatch "z") emptyWorld.disk ∧
      (rootRun "z").LeavesRoom rootRequest (rootBatch "z") w'.disk ∧
      (rootRun "z").Delivered rootRequest (rootBatch "z") report w'.disk := by
  have hfinish := outcome_finish_rootRun isEntryName_z (by decide) (by cbv)
    (outcome_writeApart (Bytes.ofText "y") rootRequest.encodeDescriptorSet)
  have htree : emptyWorld.disk.IsTree := Disk.isTree_of_entries (by decide)
  have hsource : plainSource.Preserves fun w => w.disk.IsTree :=
    ⟨fun _ _ h => h, fun _ _ h => h⟩
  have hhost : ∀ g ∈ (rootRun "z").generators, g.IsHost := by
    simp [rootRun, Generator.IsHost]
  have hord : (rootRun "z").OrdinaryOutputs (rootBatch "z") emptyWorld.disk := by
    constructor
    · intro f hf
      obtain rfl : f = ⟨"z", Bytes.ofText "y", "gen"⟩ := by
        simpa [rootBatch, Batch.push, Batch.empty] using hf
      rw [outputPath_rootRun isEntryName_z]
      exact isEntryName_z.isOrdinary (by decide)
    · intro path hpath
      rw [descriptorSetPath?_rootRun] at hpath
      obtain rfl := Option.some.inj hpath
      exact isEntryName_x.isOrdinary (by decide)
  have hroom : (rootRun "z").LeavesRoom rootRequest (rootBatch "z")
      ⟨[(["z"], Output.scratchEntry (Bytes.ofText "y")),
        (["x"], Output.scratchEntry rootRequest.encodeDescriptorSet)], []⟩ := by
    intro path hpath f hf hlocate
    rw [descriptorSetPath?_rootRun] at hpath
    obtain rfl := Option.some.inj hpath
    obtain rfl : f = ⟨"z", Bytes.ofText "y", "gen"⟩ := by
      simpa [rootBatch, Batch.push, Batch.empty] using hf
    rw [outputPath_rootRun isEntryName_z, isEntryName_z.locate_file rfl,
      isEntryName_x.locate_file rfl] at hlocate
    exact absurd hlocate (by decide)
  obtain ⟨request, w₁, batch, w₂, hbuild, hdispatch, h⟩ :=
    Prepared.finish_delivers_iff htree hsource hhost hfinish
  rw [outcome_build_rootRun] at hbuild
  cases hbuild
  rw [outcome_dispatch_rootRun (by decide) (by cbv)] at hdispatch
  cases hdispatch
  exact ⟨_, _, hfinish, htree, hsource, hhost, hord, hroom, (h hord).mpr hroom⟩

/-- A run may succeed and lose what was generated: the set takes the place of the file, which is
not listed either. -/
theorem finish_loses_output :
    ∃ report w', outcome ((rootRun "x").finish plainSource 1) emptyWorld = (.ok report, w') ∧
      outcome (dispatch (rootRun "x").generators rootRequest (rootRun "x").staged.view)
        emptyWorld = (.ok (rootBatch "x"), emptyWorld) ∧
      report.written = [] ∧ w'.disk.read ⟨"/x"⟩ = .ok (.bytes rootRequest.encodeDescriptorSet) ∧
      ¬ (rootRun "x").Delivered rootRequest (rootBatch "x") report w'.disk := by
  have hfinish := outcome_finish_rootRun isEntryName_x (by decide) (by cbv)
    (outcome_writeTwice (Bytes.ofText "y") rootRequest.encodeDescriptorSet)
  have hwritten : ((rootRun "x").reportOf rootRequest [Output.rootPath "x", Output.rootPath "x"]
      emptyWorld.disk).written = [] := by
    simp [Prepared.reportOf, descriptorSetPath?_rootRun, Path.same]
  refine ⟨_, _, hfinish, outcome_dispatch_rootRun (by decide) (by cbv), hwritten, ?_, fun h => ?_⟩
  · exact Output.read_of_locate (isEntryName_x.locate_file rfl) rfl
  · have hlisted := h.listed
    rw [hwritten] at hlisted
    simp [rootBatch, Batch.push] at hlisted

end ProtoForge.Pipeline
