import Mathlib
import ProtoForge.Package.Content
import ProtoForge.Proofs.Files.Opening

/-!
# Names in archives

Which entries of an archive are selected, and what is found when a selected one
is looked up again. The name for the look-up is put together from the steps of
the path, so it is the entry's own name only if every piece of that after the
first is a step.
-/
namespace ProtoForge.Package

open Files

/-- How many of some components lead up. -/
def ups (cs : List Component) : ℕ := cs.countP (· = .up)

/-- How many of some components lead down to a name. -/
def downs (cs : List Component) : ℕ :=
  cs.countP fun
    | .name _ => true
    | _ => false

/-- From some depth, some first components lead further up than there is room. -/
def Climbs (depth : ℕ) (cs : List Component) : Prop :=
  ∃ first, first <+: cs ∧ depth + downs first < ups first

/-- A name is absolute, has a zero character or climbs above its start. -/
def IsUnsafe (name : String) : Prop :=
  (Path.mk name).isAbsolute = true ∨ '\x00' ∈ name.toList ∨ Climbs 0 (Path.mk name).components

/-- After the first piece of a name every piece is a step. -/
def IsNeat (name : String) : Prop := ∀ s ∈ (Path.pieces name).tail, Path.isIdle s = false

variable {name : String} {cs cs' : List Component} {k : Component} {depth : ℕ} {d : Disk}
  {archive relative : Path} {filter : Scan.Filter} {c : Coordinate} {entries : List SchemaEntry}
  {findings : Diagnostics} {listed : List ArchiveEntry} {x : ArchiveEntry}

theorem climbs_cons (hk : depth = 0 → k ≠ .up) :
    Climbs depth (k :: cs) ↔ Climbs (depth + downs [k] - ups [k]) cs := by
  constructor
  · rintro ⟨first, hfirst, hlt⟩
    cases first with
    | nil => simp [downs, ups] at hlt
    | cons k' first =>
      obtain ⟨rfl, hrest⟩ := List.cons_prefix_cons.mp hfirst
      refine ⟨first, hrest, ?_⟩
      cases k' <;> simp [downs, ups] at hlt hk ⊢ <;> omega
  · rintro ⟨first, hfirst, hlt⟩
    refine ⟨k :: first, List.cons_prefix_cons.mpr ⟨rfl, hfirst⟩, ?_⟩
    cases k <;> simp [downs, ups] at hlt hk ⊢ <;> omega

/-- The running check fails at a root and where the components climb. -/
theorem depthFrom_eq_none_iff : depthFrom depth cs = none ↔ .root ∈ cs ∨ Climbs depth cs := by
  induction cs generalizing depth with
  | nil => simp [depthFrom, Climbs, downs, ups]
  | cons k rest ih =>
    cases k with
    | root => simp [depthFrom]
    | here =>
      rw [depthFrom, ih, climbs_cons (by simp)]
      simp [downs, ups]
    | up =>
      rw [depthFrom]
      by_cases hdepth : depth = 0
      · rw [if_pos hdepth]
        have hclimbs : Climbs depth (.up :: rest) :=
          ⟨[.up], by simp, by simp [downs, ups, hdepth]⟩
        exact iff_of_true rfl (Or.inr hclimbs)
      · rw [if_neg hdepth, ih, climbs_cons fun h => absurd h hdepth]
        simp [downs, ups]
    | name s =>
      rw [depthFrom, ih, climbs_cons (by simp)]
      simp [downs, ups]

theorem depthFrom_append :
    depthFrom depth (cs ++ cs') = (depthFrom depth cs).bind (depthFrom · cs') := by
  induction cs generalizing depth with
  | nil => rfl
  | cons k rest ih =>
    cases k with
    | root => rfl
    | here => exact ih
    | up =>
      rw [List.cons_append, depthFrom, depthFrom]
      split_ifs
      · rfl
      · exact ih
    | name s => exact ih

theorem text_step (s : String) : (Path.step s).text = s := by
  rw [Path.step]
  split_ifs with hup
  · exact hup.symm
  · rfl

/-- A relative name begins with the text of its first component, a dot or a step; after it, pieces
that move are the steps. -/
theorem components_of_relative (h : (Path.mk name).isAbsolute = false) (hne : name ≠ "") :
    ∃ k rest, Path.pieces name = k.text :: rest ∧
      (k = .here ∨ Path.isIdle k.text = false ∧ Path.step k.text = k) ∧
      (Path.mk name).components = k :: (Path.moving rest).map Path.step := by
  obtain ⟨s, rest, hpieces⟩ := List.exists_cons_of_ne_nil (Path.pieces_ne_nil name)
  have hs : s ≠ "" := by
    rintro rfl
    cases rest with
    | nil => exact hne (Path.pieces_eq_empty_iff.mp hpieces)
    | cons b rest =>
      -- a piece after an empty first one makes the name absolute
      have hstart := Disk.startOf_of_relative h []
      rw [Disk.startOf, hpieces] at hstart
      have hlength := congrArg (fun start => start.2.length) hstart
      simp at hlength
  by_cases hdot : s = "."
  · subst hdot
    have hsplit : Path.startAndBody (Path.pieces name) = (.here, rest) := by
      rw [hpieces]
      rfl
    exact ⟨.here, rest, hpieces, Or.inl rfl, Path.components_of_pieces hsplit⟩
  · have hsplit : Path.startAndBody (Path.pieces name) = (.plain, s :: rest) := by
      rw [hpieces, Path.startAndBody_of_ne hs hdot]
    have hmoves : Path.isIdle s = false := by simp [Path.isIdle, hs, hdot]
    have htext := text_step s
    refine ⟨Path.step s, rest, by rw [htext, hpieces], Or.inr ⟨?_, ?_⟩, ?_⟩
    · rw [htext, hmoves]
    · rw [htext]
    · rw [Path.components_of_pieces hsplit, Path.moving_cons_of_not_idle hmoves]
      rfl

/-- A relative name has the steps of its pieces as components, and perhaps a dot in front. -/
theorem components_eq_or_here (h : (Path.mk name).isAbsolute = false) :
    (Path.mk name).components = (Path.moving (Path.pieces name)).map Path.step ∨
      (Path.mk name).components =
        .here :: (Path.moving (Path.pieces name)).map Path.step := by
  by_cases hne : name = ""
  · subst hne
    exact Or.inl (by rw [Path.components_eq_nil_iff.mpr rfl, Path.pieces_empty]; rfl)
  obtain ⟨k, rest, hpieces, hk, hcomponents⟩ := components_of_relative h hne
  rw [hcomponents, hpieces]
  rcases hk with rfl | ⟨hmoves, hstep⟩
  · exact Or.inr (by rw [Path.moving_cons_of_idle (by decide)])
  · exact Or.inl (by rw [Path.moving_cons_of_not_idle hmoves, List.map_cons, hstep])

/-- A name is absolute if the root is one of its components. -/
theorem isAbsolute_iff_root_mem :
    (Path.mk name).isAbsolute = true ↔ .root ∈ (Path.mk name).components := by
  constructor
  · intro h
    exact List.mem_of_mem_head? (Path.head_of_isAbsolute h)
  · intro h
    by_contra habsolute
    have hsteps : .root ∉ (Path.moving (Path.pieces name)).map Path.step := by
      intro hmem
      obtain ⟨s, -, hs⟩ := List.mem_map.mp hmem
      exact Path.step_ne_root s hs
    rcases components_eq_or_here (by simpa using habsolute) with heq | heq
    · exact hsteps (heq ▸ h)
    · rw [heq] at h
      exact hsteps ((List.mem_cons.mp h).resolve_left nofun)

theorem isAbsolute_of_not_isUnsafe (h : ¬ IsUnsafe name) : (Path.mk name).isAbsolute = false := by
  rw [Bool.eq_false_iff]
  exact fun habsolute => h (Or.inl habsolute)

/-- An entry name is refused if it is unsafe, and is a path of its own otherwise. -/
theorem enclosedPath?_eq (name : String) [Decidable (IsUnsafe name)] :
    enclosedPath? name = if IsUnsafe name then none else some ⟨name⟩ := by
  have hdepth : depthFrom 0 (Path.mk name).components = none ↔
      (Path.mk name).isAbsolute = true ∨ Climbs 0 (Path.mk name).components := by
    rw [depthFrom_eq_none_iff, isAbsolute_iff_root_mem]
  rw [enclosedPath?]
  by_cases hnul : '\x00' ∈ name.toList
  · have hunsafe : IsUnsafe name := Or.inr (Or.inl hnul)
    rw [if_pos (by simpa [String.contains_char_eq] using hnul), if_pos hunsafe]
  rw [if_neg (by simpa [String.contains_char_eq] using hnul)]
  by_cases hout : depthFrom 0 (Path.mk name).components = none
  · have hunsafe : IsUnsafe name := (hdepth.mp hout).imp_right Or.inr
    rw [if_neg (by simp [hout]), if_pos hunsafe]
  · have hsafe : ¬ IsUnsafe name := by
      rintro (habsolute | hmem | hclimbs)
      · exact hout (hdepth.mpr (Or.inl habsolute))
      · exact hnul hmem
      · exact hout (hdepth.mpr (Or.inr hclimbs))
    rw [if_pos (by simpa [Option.isSome_iff_ne_none] using hout), if_neg hsafe]

instance (name : String) : Decidable (IsUnsafe name) :=
  decidable_of_iff (enclosedPath? name = none) (by classical simp [enclosedPath?_eq])

theorem enclosed_eq (c : Coordinate) (name : String) :
    enclosed c name =
      if IsUnsafe name then .error (.unsafeArchiveEntry name c.uniqueName) else .ok ⟨name⟩ := by
  rw [enclosed, enclosedPath?_eq]
  split_ifs <;> rfl

/-- The walk through an archive selects the entries with a safe schema name that passes the filter,
and reports the unsafe schema names, each as often as it is listed. -/
theorem walkArchive_eq_ok (h : walkArchive d archive filter c = .ok (entries, findings)) :
    ∃ listed, openArchive d archive = .ok listed ∧
      findings = (((listed.map (·.name)).filter isSchemaName).filter (IsUnsafe ·)).map
        (.unsafeArchiveEntry · c.uniqueName) ∧
      ∀ e, e ∈ entries ↔ ∃ x ∈ listed, e = .archived archive ⟨x.name⟩ ∧
        isSchemaName x.name = true ∧ ¬ IsUnsafe x.name ∧ filter.passes x.name = true := by
  obtain ⟨listed, hlisted, h⟩ := Disk.bind_eq_ok.mp h
  obtain ⟨rfl, rfl⟩ := Prod.mk.inj (Except.ok.inj h)
  refine ⟨listed, Disk.mapError_eq_ok.mp hlisted, ?_, fun e => ?_⟩
  · generalize (listed.map (·.name)).filter isSchemaName = names
    induction names with
    | nil => rfl
    | cons n names ih =>
      by_cases hn : IsUnsafe n <;> simp [enclosed_eq, hn, ih]
  · constructor
    · intro he
      obtain ⟨p, hp, rfl⟩ := List.mem_map.mp he
      obtain ⟨hfound, hpasses⟩ := List.mem_filter.mp (List.mem_mergeSort.mp hp)
      obtain ⟨found, hmem, hok⟩ := List.mem_filterMap.mp hfound
      obtain ⟨n, hn, rfl⟩ := List.mem_map.mp hmem
      obtain ⟨hname, hschema⟩ := List.mem_filter.mp hn
      obtain ⟨x, hx, rfl⟩ := List.mem_map.mp hname
      rw [enclosed_eq] at hok
      by_cases hunsafe : IsUnsafe x.name
      · rw [if_pos hunsafe] at hok
        cases hok
      · rw [if_neg hunsafe] at hok
        obtain rfl := Option.some.inj hok
        exact ⟨x, hx, rfl, hschema, hunsafe, hpasses⟩
    · rintro ⟨x, hx, rfl, hschema, hsafe, hpasses⟩
      have henclosed : (enclosed c x.name).toOption = some ⟨x.name⟩ := by
        rw [enclosed_eq, if_neg hsafe]
        rfl
      have hname : x.name ∈ (listed.map (·.name)).filter isSchemaName :=
        List.mem_filter.mpr ⟨List.mem_map_of_mem hx, hschema⟩
      have hfound := List.mem_filterMap.mpr ⟨_, List.mem_map_of_mem hname, henclosed⟩
      exact List.mem_map_of_mem (List.mem_mergeSort.mpr (List.mem_filter.mpr ⟨hfound, hpasses⟩))

/-- The name for the look-up is that of the entry if the name is neat. -/
theorem entryName_eq_iff (h : ¬ IsUnsafe name) : entryName ⟨name⟩ = name ↔ IsNeat name := by
  by_cases hne : name = ""
  · subst hne
    exact iff_of_true rfl (by rw [IsNeat, Path.pieces_empty]; simp)
  obtain ⟨k, rest, hpieces, -, hcomponents⟩ :=
    components_of_relative (isAbsolute_of_not_isUnsafe h) hne
  have htexts : (Path.mk name).components.map Component.text = k.text :: Path.moving rest := by
    rw [hcomponents, List.map_cons, List.map_map]
    simp [Function.comp_def, text_step]
  have hslash : ∀ s ∈ k.text :: rest, '/' ∉ s.toList := by
    intro s hs
    exact Path.not_mem_of_mem_pieces (t := name) (by rwa [hpieces])
  have hneat : IsNeat name ↔ Path.moving rest = rest := by
    rw [IsNeat, hpieces, Path.moving, List.filter_eq_self]
    simp
  rw [hneat, entryName, htexts]
  constructor
  · intro heq
    -- both texts are cut into the pieces that they were put together from
    have hcut := congrArg Path.pieces heq
    rw [hpieces] at hcut
    change Path.pieces (Path.ofPieces (k.text :: Path.moving rest)) = _ at hcut
    have hsub : k.text :: Path.moving rest ⊆ k.text :: rest :=
      List.cons_subset_cons k.text (List.filter_subset_self rest)
    rw [Path.pieces_ofPieces (fun s hs => hslash s (hsub hs)) (List.cons_ne_nil _ _)] at hcut
    exact (List.cons_eq_cons.mp hcut).2
  · intro hmoving
    rw [hmoving, ← hpieces]
    exact Generation.ofPieces_pieces name

theorem readEntry_eq (h : openArchive d archive = .ok listed) (relative : Path) :
    readEntry d archive relative =
      match listed.find? (·.name = entryName relative) with
      | some x => .ok x.data
      | none => .error .noArchiveEntry := by
  rw [readEntry, h]
  change (match listed.find? (·.name = entryName relative) with
    | some x => pure x.data
    | none => throw .noArchiveEntry : Except Fault Bytes) = _
  cases listed.find? (·.name = entryName relative) <;> rfl

/-- Among entries of different names, each is found under its own. -/
theorem find?_name (hd : (listed.map (·.name)).Nodup) (hx : x ∈ listed) :
    listed.find? (·.name = x.name) = some x := by
  induction listed with
  | nil => simp at hx
  | cons y rest ih =>
    obtain ⟨hy, hrest⟩ := List.nodup_cons.mp hd
    rcases List.mem_cons.mp hx with rfl | hx
    · exact List.find?_cons_of_pos (by simp)
    · have hne : y.name ≠ x.name := by
        intro heq
        exact hy (List.mem_map.mpr ⟨x, hx, heq.symm⟩)
      rw [List.find?_cons_of_neg (by simpa using hne)]
      exact ih hrest hx

/-- A selected entry is found again, with its bytes, if its name is neat. Otherwise the look-up
finds nothing, or another entry. -/
theorem selected_entry_found_iff (hlisted : openArchive d archive = .ok listed)
    (hd : (listed.map (·.name)).Nodup)
    (h : walkArchive d archive filter c = .ok (entries, findings)) :
    ∀ e ∈ entries, ∃ x ∈ listed, e = .archived archive ⟨x.name⟩ ∧
      (listed.find? (·.name = entryName ⟨x.name⟩) = some x ↔ IsNeat x.name) ∧
      (IsNeat x.name → readEntry d archive ⟨x.name⟩ = .ok x.data) ∧
      (¬ IsNeat x.name → readEntry d archive ⟨x.name⟩ = .error .noArchiveEntry ∨
        ∃ y ∈ listed, y.name ≠ x.name ∧ readEntry d archive ⟨x.name⟩ = .ok y.data) := by
  obtain ⟨listed', hopened, -, hentries⟩ := walkArchive_eq_ok h
  obtain rfl : listed = listed' := Except.ok.inj (hlisted.symm.trans hopened)
  intro e he
  obtain ⟨x, hx, rfl, -, hsafe, -⟩ := (hentries e).mp he
  have hname := entryName_eq_iff hsafe
  have hneat : IsNeat x.name → listed.find? (·.name = entryName ⟨x.name⟩) = some x := by
    intro hneat
    rw [hname.mpr hneat]
    exact find?_name hd hx
  refine ⟨x, hx, rfl, ⟨fun hfound => ?_, hneat⟩, fun h => ?_, fun h => ?_⟩
  · have hsame : x.name = entryName ⟨x.name⟩ := by simpa using List.find?_some hfound
    exact hname.mp hsame.symm
  · rw [readEntry_eq hlisted, hneat h]
  · rw [readEntry_eq hlisted]
    rcases hfound : listed.find? (·.name = entryName ⟨x.name⟩) with _ | y
    · exact Or.inl (by rw [hfound])
    · have hother : y.name = entryName ⟨x.name⟩ := by simpa using List.find?_some hfound
      have hne : y.name ≠ x.name := fun heq => h (hname.mp (hother.symm.trans heq))
      exact Or.inr ⟨y, List.mem_of_find?_eq_some hfound, hne, by rw [hfound]⟩

/-- A disk with one archive in its root directory. -/
def archiveDisk (listed : List ArchiveEntry) : Disk := ⟨[(["t"], .file (.archive listed) 0o644)], []⟩

/-- What the walk through such an archive gives, for a package and no filter. -/
def walkListed (listed : List ArchiveEntry) : Except Failure (List SchemaEntry × Diagnostics) :=
  walkArchive (archiveDisk listed) ⟨"/t"⟩ ⟨none, none⟩ ⟨"g", "a", none, none⟩

/-- An entry whose name has a leading dot and a step up is read back. -/
theorem dotted_entry_read_back :
    openArchive (archiveDisk [⟨"./c/../b.proto", [7]⟩]) ⟨"/t"⟩ = .ok [⟨"./c/../b.proto", [7]⟩] ∧
      walkListed [⟨"./c/../b.proto", [7]⟩] = .ok ([.archived ⟨"/t"⟩ ⟨"./c/../b.proto"⟩], []) ∧
      IsNeat "./c/../b.proto" ∧
      readEntry (archiveDisk [⟨"./c/../b.proto", [7]⟩]) ⟨"/t"⟩ ⟨"./c/../b.proto"⟩ = .ok [7] := by
  have hopen : openArchive (archiveDisk [⟨"./c/../b.proto", [7]⟩]) ⟨"/t"⟩ =
      .ok [⟨"./c/../b.proto", [7]⟩] := by cbv
  have hwalk : walkListed [⟨"./c/../b.proto", [7]⟩] =
      .ok ([.archived ⟨"/t"⟩ ⟨"./c/../b.proto"⟩], []) := by cbv
  have hneat : IsNeat "./c/../b.proto" := by
    have hpieces : Path.pieces "./c/../b.proto" = [".", "c", "..", "b.proto"] := by decide +kernel
    rw [IsNeat, hpieces]
    decide
  obtain ⟨x, hx, he, -, hread, -⟩ := selected_entry_found_iff hopen (by simp) hwalk _
    (List.mem_singleton_self _)
  obtain rfl := List.mem_singleton.mp hx
  exact ⟨hopen, hwalk, hneat, hread hneat⟩

/-- An entry is selected whose name has two slashes in a row. Looked up again it is not found, or
the bytes are those of an entry whose name has one slash. -/
theorem doubled_slash_not_read_back :
    (walkListed [⟨"a//b.proto", [1]⟩] = .ok ([.archived ⟨"/t"⟩ ⟨"a//b.proto"⟩], []) ∧
        readEntry (archiveDisk [⟨"a//b.proto", [1]⟩]) ⟨"/t"⟩ ⟨"a//b.proto"⟩ =
          .error .noArchiveEntry) ∧
      walkListed [⟨"a//b.proto", [1]⟩, ⟨"a/b.proto", [2]⟩] =
          .ok ([.archived ⟨"/t"⟩ ⟨"a//b.proto"⟩, .archived ⟨"/t"⟩ ⟨"a/b.proto"⟩], []) ∧
        readEntry (archiveDisk [⟨"a//b.proto", [1]⟩, ⟨"a/b.proto", [2]⟩]) ⟨"/t"⟩ ⟨"a//b.proto"⟩ =
          .ok [2] := by
  refine ⟨⟨?_, ?_⟩, ?_, ?_⟩ <;> cbv

end ProtoForge.Package
