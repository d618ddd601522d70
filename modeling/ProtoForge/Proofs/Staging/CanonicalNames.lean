import ProtoForge.Proofs.Files.CanonicalPaths
import ProtoForge.Proofs.Staging.Digest

/-!
# Views with canonical names

A name is canonical if it joins legal file names by slashes. A view comes about
by staging directories and by adding files; if its files have canonical names,
so have its directories, and the directories that hold a name are recorded.
-/
namespace ProtoForge

namespace Path

theorem head_pieces_of_isAbsolute {p : Path} (h : p.isAbsolute = true) :
    (pieces p.text).head? = some "" := by
  rw [isAbsolute, String.startsWith_string_iff] at h
  obtain ⟨rest, hrest⟩ := h
  have htext : p.text = "" ++ "/" ++ String.ofList rest := by
    rw [← String.toList_inj, ← hrest]
    simp
  rw [htext, pieces_append, pieces_empty]
  rfl

end Path

namespace OrderedMap

variable {α : Type} {m : OrderedMap α} {k : String} {v : α}

theorem IsAscending.nodup_keys (h : m.IsAscending) : m.keys.Nodup :=
  (List.pairwise_map.mpr h).imp fun hlt => hlt.ne

theorem IsAscending.insertNew (h : m.IsAscending) (k : String) (v : α) :
    (m.insertNew k v).IsAscending := by
  rw [OrderedMap.insertNew]
  split_ifs
  · exact h
  · exact h.insert k v

theorem IsAscending.get?_eq_some_iff (h : m.IsAscending) : m.get? k = some v ↔ (k, v) ∈ m := by
  have hkeys : (m.map Prod.fst).Nodup := h.nodup_keys
  refine ⟨fun hk => ?_, Files.Disk.lookup_eq_some_of_mem hkeys⟩
  obtain ⟨before, after, rfl, -⟩ := List.lookup_eq_some_iff.mp hk
  simp

theorem IsAscending.isSome_of_mem {e : String × α} (h : m.IsAscending) (he : e ∈ m) :
    (m.get? e.1).isSome := by
  rw [h.get?_eq_some_iff.mpr he]
  rfl

theorem IsAscending.nodup_map {β : Type} {f : String → β} (h : m.IsAscending)
    (hf : Function.Injective f) : (m.map fun e => f e.1).Nodup := by
  have hkeys := h.nodup_keys.map hf
  rwa [keys, List.map_map] at hkeys

theorem mem_keys_iff : k ∈ m.keys ↔ (m.get? k).isSome := by
  rw [keys, get?, Option.isSome_iff_ne_none, ne_eq, List.lookup_eq_none_iff, List.mem_map]
  constructor
  · rintro ⟨e, he, rfl⟩ hnone
    simpa using hnone e he
  · intro hsome
    by_contra hnot
    refine hsome fun e he => ?_
    rw [bne_iff_ne]
    rintro rfl
    exact hnot ⟨e, he, rfl⟩

end OrderedMap

namespace Staging

open Files Sources Generation ProtoForge.Path

/-- A relative name that joins legal file names by single slashes. -/
def IsCanonicalName (name : String) : Prop := ∀ s ∈ pieces name, Disk.IsFileName s

instance : DecidablePred IsCanonicalName := fun name =>
  inferInstanceAs (Decidable (∀ s ∈ pieces name, Disk.IsFileName s))

variable {name parent : String} {root : Path} {names ps : List String} {v : View} {file : StagedFile}

theorem isCanonicalName_ofPieces (hne : names ≠ []) (hnames : ∀ s ∈ names, Disk.IsFileName s) :
    IsCanonicalName (ofPieces names) := by
  rwa [IsCanonicalName, pieces_ofPieces (fun s hs => (hnames s hs).no_slash) hne]

namespace IsCanonicalName

theorem isOrdinary (h : IsCanonicalName name) : ∀ s ∈ pieces name, IsOrdinary s :=
  fun s hs => (h s hs).toIsOrdinary

theorem isAbsolute (h : IsCanonicalName name) : (Path.mk name).isAbsolute = false := by
  rw [Bool.eq_false_iff]
  intro habsolute
  have hempty : "" ∈ pieces name := List.mem_of_head? (head_pieces_of_isAbsolute habsolute)
  exact (h "" hempty).ne_empty rfl

theorem of_liesBelow (h : IsCanonicalName name) (hbelow : LiesBelow parent name) :
    IsCanonicalName parent := by
  obtain ⟨rest, -, hpieces⟩ := liesBelow_iff.mp hbelow
  intro s hs
  exact h s (by simp [hpieces, hs])

theorem components_join (h : IsCanonicalName name) (hroot : root.text ≠ "") :
    (root.join ⟨name⟩).components = root.components ++ (pieces name).map .name := by
  rw [Path.components_join hroot h.isAbsolute, moving_eq_self h.isOrdinary,
    map_step_names h.isOrdinary]

theorem getLast?_pieces_join (h : IsCanonicalName name) (hroot : root.text ≠ "") :
    (pieces (root.join ⟨name⟩).text).getLast? = (pieces name).getLast? := by
  obtain ⟨before, idle, -, -, -, -, hjoin⟩ := pieces_join_eq hroot h.isAbsolute
  rw [hjoin, List.getLast?_append_of_ne_nil _ (pieces_ne_nil name)]

/-- The path of a canonical name below a directory has a parent, with all its names but the last. -/
theorem exists_parent (h : IsCanonicalName name) (hroot : root.text ≠ "") :
    ∃ q before s, pieces name = before ++ [s] ∧ (root.join ⟨name⟩).parent? = some q ∧
      q.components = root.components ++ before.map .name := by
  obtain ⟨before, s, hsplit⟩ := (List.eq_nil_or_concat' (pieces name)).resolve_left (pieces_ne_nil name)
  have hcomponents := h.components_join hroot
  rw [hsplit] at hcomponents
  obtain ⟨q, hq, hparent⟩ := Path.exists_parent hcomponents
  exact ⟨q, before, s, hsplit, hq, hparent⟩

/-- The directories that hold a canonical name are those that it lies below. -/
theorem mem_parentNames_iff (h : IsCanonicalName name) :
    parent ∈ View.parentNames name ↔ LiesBelow parent name := by
  have hname : parent ∈ View.parentNames (ofPieces (pieces name)) ↔ _ :=
    View.mem_parentNames h.isOrdinary
  rw [ofPieces_pieces] at hname
  rw [hname, liesBelow_iff]
  constructor
  · rintro ⟨ps, rest, hps, hrest, heq, rfl⟩
    have hslash : ∀ s ∈ ps, '/' ∉ s.toList := fun s hs => (h s (by simp [heq, hs])).no_slash
    exact ⟨rest, hrest, by rw [pieces_ofPieces hslash hps, heq]⟩
  · rintro ⟨rest, hrest, heq⟩
    exact ⟨pieces parent, rest, pieces_ne_nil parent, hrest, heq, (ofPieces_pieces parent).symm⟩

/-- The first names of a canonical name are those of a name. -/
theorem exists_of_isPrefix (h : IsCanonicalName name) (hps : ps <+: pieces name) (hne : ps ≠ []) :
    ∃ above, pieces above = ps ∧ (above = name ∨ LiesBelow above name) := by
  have hslash : ∀ s ∈ ps, '/' ∉ s.toList := fun s hs => (h s (hps.subset hs)).no_slash
  have hpieces := pieces_ofPieces hslash hne
  exact ⟨ofPieces ps, hpieces, pieces_isPrefix_iff.mp (hpieces.symm ▸ hps)⟩

end IsCanonicalName

theorem pieces_injective : Function.Injective pieces := by
  intro s t h
  rw [← ofPieces_pieces s, h, ofPieces_pieces]

namespace View

/-- A view that comes about: an empty one, one with a file added, or one that was staged. -/
inductive Arises : View → Prop
  | empty : Arises {}
  | insert {v : View} (name : String) (b : Bytes) : Arises v → Arises (v.insert name b)
  | staged {d : Disk} {includes imports : IncludeDirectories} {roots : List SchemaFile} {s : Staged} :
      d.IsProper → stage d includes imports roots = .ok s → Arises s.view

/-- All names of a view are canonical, and the directories that hold them are recorded. -/
structure IsCanonical (v : View) : Prop where
  names : ∀ name, v.IsStaged name → IsCanonicalName name
  closed : v.IsClosed

theorem Arises.assembled (h : v.Arises) : v.Assembled := by
  induction h with
  | empty => exact .empty
  | insert name b _ ih => exact ih.addFile name ⟨b, none⟩
  | staged _ hstage => exact stage_assembled hstage

theorem addDirectories_get? (v : View) (dirs : List String) (name : String) :
    ((dirs.foldl (fun v dir => v.addDirectory dir none) v).directories.get? name).isSome ↔
      (v.directories.get? name).isSome ∨ name ∈ dirs := by
  induction dirs generalizing v with
  | nil => simp
  | cons dir dirs ih =>
    rw [List.foldl_cons, ih, addDirectory, OrderedMap.get?_insertNew, List.mem_cons]
    by_cases hname : name = dir
    · simp [hname]
    · simp [hname]

theorem directories_addFile_eq : (v.addFile name file).directories =
    ((parentNames name).foldl (fun v dir => v.addDirectory dir none) v).directories := by
  rw [addFile]

/-- Adding a file records the directories that hold it. -/
theorem isSome_directories_addFile :
    ((v.addFile name file).directories.get? parent).isSome ↔
      (v.directories.get? parent).isSome ∨ parent ∈ parentNames name := by
  rw [directories_addFile_eq, addDirectories_get?]

/-- The directories of a view ascend by name, in whatever order they were added. -/
theorem Assembled.isAscending_directories (h : v.Assembled) : v.directories.IsAscending := by
  induction h with
  | empty => exact List.Pairwise.nil
  | addFile name file _ ih =>
    rw [directories_addFile_eq]
    exact List.foldlRecOn (motive := fun v : View => v.directories.IsAscending) (parentNames name) _ ih
      fun v hv dir _ => hv.insertNew dir none
  | addDirectory name mode _ ih => exact ih.insertNew name mode

namespace IsCanonical

theorem addFile (h : v.IsCanonical) (hname : IsCanonicalName name) (file : StagedFile) :
    (v.addFile name file).IsCanonical := by
  have hstaged : ∀ other, (v.addFile name file).IsStaged other →
      v.IsStaged other ∨ other = name ∨ LiesBelow other name := by
    rintro other (hfile | hdir)
    · rw [get?_addFile] at hfile
      split_ifs at hfile with heq
      · exact Or.inr (Or.inl heq)
      · exact Or.inl (Or.inl hfile)
    · rw [isSome_directories_addFile, hname.mem_parentNames_iff] at hdir
      exact hdir.imp Or.inr Or.inr
  refine ⟨fun other hother => ?_, fun parent other hother hbelow => ?_⟩
  · rcases hstaged other hother with hother | rfl | hother
    · exact h.names other hother
    · exact hname
    · exact hname.of_liesBelow hother
  · rw [isSome_directories_addFile, hname.mem_parentNames_iff]
    rcases hstaged other hother with hother | rfl | hother
    · exact Or.inl (h.closed parent other hother hbelow)
    · exact Or.inr hbelow
    · exact Or.inr (hbelow.trans hother)

/-- A directory on the way to a staged name is recorded. -/
theorem exists_of_isPrefix (h : v.IsCanonical) (hname : v.IsStaged name) (hps : ps <+: pieces name)
    (hne : ps ≠ []) :
    ∃ above, pieces above = ps ∧ (above = name ∨ (v.directories.get? above).isSome) := by
  obtain ⟨above, hpieces, habove⟩ := (h.names name hname).exists_of_isPrefix hps hne
  exact ⟨above, hpieces, habove.imp_right (h.closed above name hname)⟩

end IsCanonical

/-- What is staged from directories has canonical names. -/
theorem isCanonicalName_of_entryBelow {d : Disk} {dir : Path} {x : Entry} (hd : d.IsProper)
    (h : entryBelow? d dir name = some x) : IsCanonicalName name := by
  rw [entryBelow?] at h
  cases hlocate : d.locate dir true with
  | error f => simp [hlocate] at h
  | ok l =>
    simp only [hlocate] at h
    exact hd.isFileName_of_below h

/-- If the files of a view have canonical names, so have its directories. -/
theorem Arises.isCanonical (h : v.Arises) (hnames : ∀ name, v.contains name → IsCanonicalName name) :
    v.IsCanonical := by
  induction h with
  | empty => exact ⟨fun name h => by simp [IsStaged, get?, OrderedMap.get?] at h,
      fun _ name h => by simp [IsStaged, get?, OrderedMap.get?] at h⟩
  | @insert v name b _ ih =>
    have hadded : ∀ other, (v.insert name b).contains other = true ↔
        other = name ∨ v.contains other = true := by
      intro other
      change ((v.addFile name ⟨b, none⟩).get? other).isSome ↔ other = name ∨ (v.get? other).isSome
      rw [get?_addFile]
      split_ifs with heq
      · simp [heq]
      · simp [heq]
    have hbefore := ih fun other hother => hnames other ((hadded other).mpr (Or.inr hother))
    exact hbefore.addFile (hnames name ((hadded name).mpr (Or.inl rfl))) ⟨b, none⟩
  | staged hd hstage =>
    obtain ⟨-, hdirectories, hclosed⟩ := stage_isStaged hd hstage
    refine ⟨fun name hname => ?_, hclosed⟩
    rcases hname with hfile | hdir
    · exact hnames name hfile
    · obtain ⟨dir, -, m, hx⟩ := firstMode?_isSome_iff.mp ((hdirectories name).mp hdir)
      exact isCanonicalName_of_entryBelow hd hx

end View

end Staging

end ProtoForge
