import ProtoForge.Guest.Executor
import ProtoForge.Proofs.Files.Operations

/-!
# Imported memories

A guest may leave it to its host to create its memory. The host takes the
bounds that the guest states together with those of the settings. They fit
together just if the guest does not need more pages than the settings allow; a
guest that does ends the host with it.
-/
namespace ProtoForge

namespace Settings

variable {c : Config}

/-- Settings that are accepted order the bounds of memories, and keep to what can be addressed. -/
theorem Config.pages_of_validate (h : c.validate = .ok ()) :
    c.sandbox.minMemoryPages ≤ c.sandbox.maxMemoryPages ∧
      c.sandbox.maxMemoryPages.toNat ≤ Settings.maxPages := by
  rw [validate] at h
  refine ⟨?_, ?_⟩
  · by_contra hmin
    have hbelow : c.sandbox.maxMemoryPages < c.sandbox.minMemoryPages := UInt32.not_le.mp hmin
    simp only [if_pos hbelow] at h
    cases h
  · by_contra hmax
    simp only [if_pos (not_le.mp hmax)] at h
    split_ifs at h <;> cases h

end Settings

namespace Guest

/-- A memory of some pages, with room to grow to some more, that has what an import asks for and
stays within a cap. -/
structure Serves (r : PageRange) (cap minimum maximum : ℕ) : Prop where
  enough : r.minimum ≤ minimum
  ordered : minimum ≤ maximum
  bounded : ∀ m ∈ r.maximum, maximum ≤ m
  capped : maximum ≤ cap

variable {l : Limits} {r : PageRange} {n minimum maximum : ℕ} {image : Image} {m : Module}

theorem checkRange_iff : Module.checkRange r = true ↔
    r.minimum ≤ Module.pageLimit ∧ ∀ m ∈ r.maximum, r.minimum ≤ m ∧ m ≤ Module.pageLimit := by
  simp [Module.checkRange, Option.all_eq_true]

/-- The memory that a valid module wants from its host has bounds that make sense. -/
theorem checkRange_of_isValid (hm : m.isValid = true) (hr : hostMemory? m = some r) :
    Module.checkRange r = true := by
  obtain ⟨⟨i, r'⟩, hfound, rfl⟩ := Option.map_eq_some_iff.mp hr
  have hmem : (i, r') ∈ m.importedMemories := List.mem_of_find?_eq_some hfound
  have hall : (m.importedMemories.map (·.2) ++ m.memories).all Module.checkRange = true := by
    simp only [Module.isValid, Bool.and_eq_true] at hm
    tauto
  exact List.all_eq_true.mp hall r' (List.mem_append_left _ (List.mem_map.mpr ⟨_, hmem, rfl⟩))

theorem pagesOf_eq (h : n ≤ Module.pageLimit) : pagesOf n = n := by
  have hsize : Module.pageLimit ≤ Width.size 32 - 1 := by decide
  exact min_eq_left (h.trans hsize)

theorem importedPages_spec (hr : Module.checkRange r = true) :
    ∃ minimum maximum, l.importedPages r = (minimum, maximum) ∧
      r.minimum ≤ minimum ∧ (∀ m ∈ r.maximum, maximum ≤ m) ∧ maximum ≤ l.maxPages.toNat ∧
      (minimum ≤ maximum ↔ r.minimum ≤ l.maxPages.toNat) := by
  obtain ⟨hlimit, hbound⟩ := checkRange_iff.mp hr
  obtain ⟨least, most⟩ := r
  cases most with
  | none =>
    refine ⟨_, _, rfl, ?_, by simp, le_rfl, ?_⟩
    · simp [pagesOf_eq hlimit]
    · simp [pagesOf_eq hlimit]
  | some m =>
    obtain ⟨hleast, hmost⟩ := hbound m rfl
    refine ⟨_, _, rfl, ?_, ?_, ?_, ?_⟩
    · simp [pagesOf_eq hlimit]
    · simp [pagesOf_eq hmost]
    · simp
    · simp [pagesOf_eq hlimit, pagesOf_eq hmost, hleast]

/-- A guest that imports its memory ends its host if the bounds cross. Otherwise it fails for want
of its files or of what else it imports, or it runs. -/
theorem outcome_executeIn (hr : hostMemory? image.module = some r)
    (hpages : l.importedPages r = (minimum, maximum)) (args : List String) (stdin : Bytes)
    (root : Path) (d : Files.Disk) :
    outcome (executeIn l image args stdin root) d =
      if maximum < minimum then (.error (.memoryBounds minimum maximum), d)
      else
        match d.locate root true with
        | .error f => (.error (.staging root f), d)
        | .ok place =>
            match launch l image.module args stdin d place with
            | some e => (.ok e, d)
            | none => (.error (.instantiation (programName image args)), d) := by
  rw [executeIn, hr]
  simp only [hpages]
  split_ifs with hcross
  · rfl
  · simp only [outcome_bind, outcome_get, Files.outcome_orFail, Files.outcome_inspect]
    cases d.locate root true with
    | error f => rfl
    | ok place =>
      dsimp only
      cases launch l image.module args stdin d place <;> rfl

/-- The host ends just if the bounds cross. -/
theorem memoryBounds_iff (hr : hostMemory? image.module = some r)
    (hpages : l.importedPages r = (minimum, maximum)) (args : List String) (stdin : Bytes)
    (root : Path) (d : Files.Disk) :
    (∃ least most d', outcome (executeIn l image args stdin root) d =
      (.error (.memoryBounds least most), d')) ↔ maximum < minimum := by
  rw [outcome_executeIn hr hpages]
  split_ifs with hcross
  · simp [hcross]
  · simp only [hcross, iff_false]
    cases d.locate root true with
    | error f => simp
    | ok place =>
      dsimp only
      cases launch l image.module args stdin d place <;> simp

theorem initialMemory_of_host (hr : hostMemory? m = some r)
    (hpages : l.importedPages r = (minimum, maximum)) :
    initialMemory l m = some (.ofPages minimum maximum) := by
  rw [initialMemory, hr]
  simp only [hpages]

/-- Under settings that are accepted, the memory created for an import of a valid module never has
less than the import asks for, and never may grow beyond what the import or the settings allow. It
can be created just if the import asks for no more than the settings allow; then the guest starts
with it. If the import asks for more, the bounds cross, and the host ends before the guest runs. -/
theorem imported_memory_serves_iff {c : Settings.Config} {r : PageRange} (hc : c.validate = .ok ())
    (hr : Module.checkRange r = true) :
    ∃ minimum maximum, (Limits.ofConfig c.sandbox).importedPages r = (minimum, maximum) ∧
      (r.minimum ≤ minimum ∧ (∀ m ∈ r.maximum, maximum ≤ m) ∧
        maximum ≤ c.sandbox.maxMemoryPages.toNat) ∧
      (Serves r c.sandbox.maxMemoryPages.toNat minimum maximum ↔
        r.minimum ≤ c.sandbox.maxMemoryPages.toNat) ∧
      (Module.checkRange ⟨minimum, some maximum⟩ = true ↔
        r.minimum ≤ c.sandbox.maxMemoryPages.toNat) ∧
      ∀ image, hostMemory? image.module = some r → ∀ args stdin root d,
        ((∃ least most d', outcome (executeIn (.ofConfig c.sandbox) image args stdin root) d =
            (.error (.memoryBounds least most), d')) ↔
          c.sandbox.maxMemoryPages.toNat < r.minimum) ∧
        initialMemory (.ofConfig c.sandbox) image.module = some (.ofPages minimum maximum) := by
  have hlimit : c.sandbox.maxMemoryPages.toNat ≤ Module.pageLimit :=
    (Settings.Config.pages_of_validate hc).2
  obtain ⟨minimum, maximum, hpages, henough, hbounded, hcapped, hordered⟩ :=
    importedPages_spec (l := Limits.ofConfig c.sandbox) hr
  change maximum ≤ c.sandbox.maxMemoryPages.toNat at hcapped
  change minimum ≤ maximum ↔ r.minimum ≤ c.sandbox.maxMemoryPages.toNat at hordered
  refine ⟨minimum, maximum, hpages, ⟨henough, hbounded, hcapped⟩, ?_, ?_, ?_⟩
  · rw [← hordered]
    exact ⟨fun h => h.ordered, fun h => ⟨henough, h, hbounded, hcapped⟩⟩
  · rw [← hordered, checkRange_iff]
    simp
    omega
  · intro image himage args stdin root d
    refine ⟨?_, initialMemory_of_host himage hpages⟩
    rw [memoryBounds_iff himage hpages, ← not_le, ← not_le, hordered]

/-- Settings that allow memories of fifty pages. -/
def fiftyPages : Settings.Config := { sandbox := { maxMemoryPages := 50 } }

/-- A guest that leaves a memory of some size to its host, and does nothing. -/
def importingGuest (r : PageRange) : Module where
  imports := [⟨"env", "memory", .memory r⟩]
  functions := [⟨⟨[], []⟩, [], []⟩]
  exports := [("_start", .function 0)]

/-- An import of one page is served, and its guest is not the end of the host. -/
theorem one_page_served :
    fiftyPages.validate = .ok () ∧ (importingGuest ⟨1, none⟩).isValid = true ∧
      (∃ minimum maximum, (Limits.ofConfig fiftyPages.sandbox).importedPages ⟨1, none⟩ =
        (minimum, maximum) ∧ Serves ⟨1, none⟩ 50 minimum maximum) ∧
      ∀ args stdin root d, ¬ ∃ least most d', outcome (executeIn (.ofConfig fiftyPages.sandbox)
        ⟨"guest", importingGuest ⟨1, none⟩⟩ args stdin root) d =
          (.error (.memoryBounds least most), d') := by
  have hc : fiftyPages.validate = .ok () := by decide
  have hm : (importingGuest ⟨1, none⟩).isValid = true := by cbv
  have hhost : hostMemory? (importingGuest ⟨1, none⟩) = some ⟨1, none⟩ := by decide
  obtain ⟨minimum, maximum, hpages, -, hserves, -, hruns⟩ :=
    imported_memory_serves_iff hc (checkRange_of_isValid hm hhost)
  refine ⟨hc, hm, ⟨minimum, maximum, hpages, hserves.mpr (by decide)⟩, ?_⟩
  intro args stdin root d hends
  exact absurd ((hruns ⟨"guest", importingGuest ⟨1, none⟩⟩ hhost args stdin root d).1.mp hends)
    (by decide)

/-- A valid guest that asks for a hundred pages where fifty are allowed ends its host, instead of
being refused. -/
theorem hundred_pages_end_host :
    fiftyPages.validate = .ok () ∧ (importingGuest ⟨100, none⟩).isValid = true ∧
      hostMemory? (importingGuest ⟨100, none⟩) = some ⟨100, none⟩ ∧
      (Limits.ofConfig fiftyPages.sandbox).importedPages ⟨100, none⟩ = (100, 50) ∧
      ¬ Serves ⟨100, none⟩ 50 100 50 ∧
      ∀ args stdin root d, outcome (executeIn (.ofConfig fiftyPages.sandbox)
        ⟨"guest", importingGuest ⟨100, none⟩⟩ args stdin root) d = (.error (.memoryBounds 100 50), d) := by
  have hpages : (Limits.ofConfig fiftyPages.sandbox).importedPages ⟨100, none⟩ = (100, 50) := by
    decide
  have hhost : hostMemory? (importingGuest ⟨100, none⟩) = some ⟨100, none⟩ := by decide
  refine ⟨by decide, by cbv, hhost, hpages, fun h => absurd h.ordered (by decide), ?_⟩
  intro args stdin root d
  rw [outcome_executeIn hhost hpages, if_pos (by decide)]

end Guest

end ProtoForge
