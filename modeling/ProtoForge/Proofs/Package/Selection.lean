import ProtoForge.Proofs.Package.Confinement

/-!
# Entries that are selected

An archive whose schema files have plain names, each its own, gives just the
entries that pass the filter, in the order of their paths, and each is read
back with its bytes.
-/
namespace ProtoForge.Package

open Files

/-- The schema files of an archive have names that only lead down by single steps, and no two of
them have the same one. -/
structure HasPlainNames (listed : List ArchiveEntry) : Prop where
  distinct : ((listed.filter fun x => isSchemaName x.name).map (·.name)).Nodup
  ordinary : ∀ x ∈ listed, isSchemaName x.name = true → ∀ s ∈ Path.pieces x.name, Path.IsOrdinary s

/-- A schema file with a safe name that passes a filter. -/
def IsSelected (filter : Scan.Filter) (x : ArchiveEntry) : Prop :=
  isSchemaName x.name = true ∧ ¬ IsUnsafe x.name ∧ filter.passes x.name = true

instance (filter : Scan.Filter) : DecidablePred (IsSelected filter) := fun _ =>
  inferInstanceAs (Decidable (_ ∧ _ ∧ _))

/-- The entries of an archive that are selected, in the order of their paths. -/
def selectedEntries (filter : Scan.Filter) (listed : List ArchiveEntry) : List ArchiveEntry :=
  (listed.filter (IsSelected filter ·)).mergeSort fun x y => Path.le ⟨x.name⟩ ⟨y.name⟩

/-- The findings about the schema files of an archive that have unsafe names. -/
def unsafeFindings (package : Coordinate) (listed : List ArchiveEntry) : Diagnostics :=
  (((listed.map (·.name)).filter isSchemaName).filter (IsUnsafe ·)).map
    (.unsafeArchiveEntry · package.uniqueName)

variable {d : Disk} {archive dir : Path} {filter : Scan.Filter} {c : Coordinate}
  {listed : List ArchiveEntry} {x y : ArchiveEntry} {entries : List SchemaEntry} {findings : Diagnostics}

theorem mem_selectedEntries : x ∈ selectedEntries filter listed ↔ x ∈ listed ∧ IsSelected filter x := by
  rw [selectedEntries, List.mem_mergeSort, List.mem_filter, decide_eq_true_iff]

/-- The paths that a walk through an archive keeps are those of the selected entries. -/
theorem filter_enclosed_eq (filter : Scan.Filter) (c : Coordinate) (listed : List ArchiveEntry) :
    ((((listed.map (·.name)).filter isSchemaName).map (enclosed c)).filterMap (·.toOption)).filter
        (fun p => filter.passes p.text) =
      (listed.filter (IsSelected filter ·)).map fun x => ⟨x.name⟩ := by
  induction listed with
  | nil => rfl
  | cons x listed ih =>
    by_cases hschema : isSchemaName x.name = true
    · by_cases hunsafe : IsUnsafe x.name
      · have hnot : ¬ IsSelected filter x := fun h => h.2.1 hunsafe
        simpa [hschema, hnot, enclosed_eq, hunsafe, Except.toOption] using ih
      · by_cases hpasses : filter.passes x.name = true
        · have hselected : IsSelected filter x := ⟨hschema, hunsafe, hpasses⟩
          simpa [hschema, hselected, enclosed_eq, hunsafe, Except.toOption, hpasses] using ih
        · have hnot : ¬ IsSelected filter x := fun h => hpasses h.2.2
          simpa [hschema, hnot, enclosed_eq, hunsafe, Except.toOption, hpasses] using ih
    · have hnot : ¬ IsSelected filter x := fun h => hschema h.1
      simpa [hschema, hnot] using ih

/-- The walk through an archive gives its selected entries and reports its unsafe names. -/
theorem walkArchive_selected (h : walkArchive d archive filter c = .ok (entries, findings)) :
    ∃ listed, openArchive d archive = .ok listed ∧
      entries = (selectedEntries filter listed).map (fun x => .archived archive ⟨x.name⟩) ∧
      findings = unsafeFindings c listed := by
  obtain ⟨listed, hlisted, hfindings, -⟩ := walkArchive_eq_ok h
  refine ⟨listed, hlisted, ?_, hfindings⟩
  have hsorted : ((listed.filter (IsSelected filter ·)).map fun x => Path.mk x.name).mergeSort Path.le =
      (selectedEntries filter listed).map fun x => ⟨x.name⟩ := by
    rw [selectedEntries]
    refine (List.map_mergeSort ?_).symm
    exact fun _ _ _ _ => rfl
  obtain ⟨listed', hlisted', h⟩ := Disk.bind_eq_ok.mp h
  obtain rfl := Except.ok.inj (hlisted.symm.trans (Disk.mapError_eq_ok.mp hlisted'))
  obtain ⟨rfl, -⟩ := Prod.mk.inj (Except.ok.inj h)
  rw [filter_enclosed_eq, hsorted, List.map_map]
  rfl

/-- Among schema files of different names, each is found under its own. -/
theorem HasPlainNames.find? (h : HasPlainNames listed) (hx : x ∈ listed)
    (hschema : isSchemaName x.name = true) : listed.find? (·.name = x.name) = some x := by
  have hfound := find?_name h.distinct (List.mem_filter.mpr ⟨hx, hschema⟩)
  rw [List.find?_filter] at hfound
  rw [← hfound]
  congr 1
  funext y
  by_cases hy : y.name = x.name
  · simp [hy, hschema]
  · simp [hy]

/-- A selected entry is read back. -/
theorem HasPlainNames.readEntry_eq (h : HasPlainNames listed)
    (hopen : openArchive d archive = .ok listed) (hx : x ∈ listed) (hselected : IsSelected filter x) :
    readEntry d archive ⟨x.name⟩ = .ok x.data := by
  obtain ⟨hschema, hsafe, -⟩ := hselected
  have hneat : IsNeat x.name := fun s hs =>
    (h.ordinary x hx hschema s (List.mem_of_mem_tail hs)).moves
  rw [Package.readEntry_eq hopen, (entryName_eq_iff hsafe).mpr hneat, h.find? hx hschema]

/-- The path at which a selected entry is extracted. -/
theorem HasPlainNames.components_join (h : HasPlainNames listed) (hx : x ∈ listed)
    (hselected : IsSelected filter x) (hdir : dir.text ≠ "") :
    (dir.join ⟨x.name⟩).components = dir.components ++ (Path.pieces x.name).map .name := by
  obtain ⟨hschema, hsafe, -⟩ := hselected
  have hordinary := h.ordinary x hx hschema
  rw [Path.components_join hdir (isAbsolute_of_not_isUnsafe hsafe), Path.moving_eq_self hordinary,
    Path.map_step_names hordinary]

theorem HasPlainNames.nodup_selectedEntries (h : HasPlainNames listed) (filter : Scan.Filter) :
    (selectedEntries filter listed).Nodup := by
  rw [selectedEntries, (List.mergeSort_perm _ _).nodup_iff]
  refine (List.Nodup.of_map _ h.distinct).sublist ?_
  refine List.monotone_filter_right listed fun x hx => ?_
  exact (of_decide_eq_true hx).1

/-- Schema files of the same name are the same. -/
theorem HasPlainNames.eq_of_name_eq (h : HasPlainNames listed) (hx : x ∈ listed) (hy : y ∈ listed)
    (hschema : isSchemaName x.name = true) (heq : x.name = y.name) : x = y := by
  have hfound := h.find? hx hschema
  have hfound' := h.find? hy (heq ▸ hschema)
  rw [heq, hfound'] at hfound
  exact (Option.some.inj hfound).symm

end ProtoForge.Package
