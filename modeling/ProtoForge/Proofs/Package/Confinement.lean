import ProtoForge.Proofs.Files.Building
import ProtoForge.Proofs.Package.ArchiveNames

/-!
# Safe names below a directory

A path that is joined from a directory and a safe entry name, and each of its
parents beyond the directory, leads into the directory as long as no link lies
there: the check of the name counts how deep below the directory one is.
-/
namespace ProtoForge

namespace Files.Disk

/-- Somewhere below a location, but not there itself. -/
def StrictlyBelow (top l : Location) : Prop := top <+: l ∧ l ≠ top

variable {d : Disk} {links : ℕ} {top l m stack : Location} {dir q : Path} {names steps : List String}
  {depth : ℕ}

/-- Steps that go up no further than they went down stay below where they start. -/
theorem Follows.confined (h : d.Follows links l steps m) (hl : l = top ++ stack)
    (hfree : d.LinkFreeBelow top)
    (hdepth : Package.depthFrom stack.length ((Path.moving steps).map Path.step) = some depth) :
    ∃ rest, m = top ++ rest ∧ rest.length = depth := by
  induction h generalizing stack with
  | done links l => exact ⟨stack, hl, by simpa [Package.depthFrom] using hdepth⟩
  | idle hdir hs more ih =>
    rw [Path.moving_cons_of_idle hs] at hdepth
    exact ih hl hdepth
  | up hdir more ih =>
    rw [Path.moving_cons_of_not_idle (by decide), List.map_cons] at hdepth
    change Package.depthFrom stack.length (.up :: _) = some depth at hdepth
    rw [Package.depthFrom] at hdepth
    split_ifs at hdepth with hempty
    have hne : stack ≠ [] := fun hnil => hempty (by rw [hnil]; rfl)
    apply @ih stack.dropLast
    · rw [hl, List.dropLast_append_of_ne_nil hne]
    · rwa [List.length_dropLast]
  | @entry links l s rest k x hdir hs hx hlink more ih =>
    rw [Path.moving_cons_of_not_idle hs.moves, List.map_cons, Path.step, if_neg hs.ne_up,
      Package.depthFrom] at hdepth
    apply @ih (stack ++ [s])
    · rw [hl, List.append_assoc]
    · rwa [List.length_append]
  | @link links l s rest k t hdir hs ht more ih =>
    refine absurd ht (hfree (l ++ [s]) t ?_ ?_)
    · rw [hl, List.append_assoc]
      exact List.prefix_append top _
    · intro heq
      have hlength := congrArg List.length heq
      rw [hl] at hlength
      simp at hlength

/-- A path with more steps than a directory leads on from where the directory leads. -/
theorem Leads.of_append (h : d.Leads q l) (hq : q.components = dir.components ++ steps.map Path.step)
    (hsteps : steps ≠ []) :
    ∃ top n ys, d.Leads dir top ∧ Path.moving ys = steps ∧ d.Follows n top ys l := by
  obtain ⟨n, hn⟩ := h
  obtain ⟨top, xs, ys, hfirst, hxs, hys, hrest⟩ := hn.split_of_append hq
  have hne : ys ≠ [] := by
    rintro rfl
    exact hsteps hys.symm
  have htop := hrest.hasDirectory_of_ne_nil hne
  exact ⟨top, n, ys, ⟨n, hfirst.of_moving htop hxs.symm⟩, hys, hrest⟩

/-- Below a directory without links names lead straight down. -/
theorem Leads.eq_append_names {names : List String} (h : d.Leads q l)
    (hq : q.components = dir.components ++ names.map .name) (hne : names ≠ [])
    (hnames : ∀ s ∈ names, Path.IsOrdinary s)
    (hfree : ∀ top, d.Leads dir top → d.LinkFreeBelow top) :
    ∃ top, d.Leads dir top ∧ l = top ++ names := by
  have hsteps : q.components = dir.components ++ names.map Path.step := by
    rw [Path.map_step_names hnames, hq]
  obtain ⟨top, n, ys, hdir, hys, hrest⟩ := h.of_append hsteps hne
  refine ⟨top, hdir, Leads.below hdir h hq hnames fun ps t hps ht => ?_⟩
  by_cases hnil : ps = []
  · have hys' : ys ≠ [] := by
      rintro rfl
      exact hne hys.symm
    obtain ⟨m, hm⟩ := hrest.hasDirectory_of_ne_nil hys'
    rw [hnil, List.append_nil, hm] at ht
    cases ht
  · exact hfree top hdir (top ++ ps) t (List.prefix_append top ps) (by simpa using hnil) ht

end Files.Disk

namespace Package

open Files Disk

variable {d : Disk} {name : String} {dir q : Path} {l : Location} {steps : List String} {depth : ℕ}

/-- The check of a relative name counts the pieces that move. -/
theorem depthFrom_of_relative (h : (Path.mk name).isAbsolute = false) (depth : ℕ) :
    depthFrom depth (Path.mk name).components =
      depthFrom depth ((Path.moving (Path.pieces name)).map Path.step) := by
  rcases components_eq_or_here h with heq | heq
  · rw [heq]
  · rw [heq]
    rfl

/-- The last piece of a schema name ends in the extension, since that has no slash. -/
theorem pieces_of_isSchemaName (h : isSchemaName name = true) :
    ∃ before last, Path.pieces name = before ++ [last] ∧ ".proto".toList <:+ last.toList := by
  obtain ⟨u, hu⟩ := endsWith_iff.mp h
  have hname : ".proto".toList <:+ name.toList := by
    rw [hu, String.toList_append]
    exact List.suffix_append _ _
  obtain ⟨before, last, hpieces⟩ : ∃ before last, Path.pieces name = before ++ [last] := by
    obtain ⟨before, last, h⟩ := (List.eq_nil_or_concat (Path.pieces name)).resolve_left
      (Path.pieces_ne_nil name)
    exact ⟨before, last, by rw [h, List.concat_eq_append]⟩
  refine ⟨before, last, hpieces, ?_⟩
  have htext := Generation.ofPieces_pieces name
  rw [hpieces] at htext
  by_cases hbefore : before = []
  · subst hbefore
    rwa [← htext] at hname
  · rw [Generation.ofPieces_append hbefore (List.cons_ne_nil _ _)] at htext
    have hlast : '/' :: last.toList <:+ name.toList := by
      rw [← htext]
      exact ⟨(Path.ofPieces before).toList, by simp [Path.ofPieces]⟩
    rcases List.suffix_or_suffix_of_suffix hname hlast with hshort | hlong
    · rcases List.suffix_cons_iff.mp hshort with heq | hsuffix
      · exact absurd heq (by simp)
      · exact hsuffix
    · exact absurd (hlong.subset List.mem_cons_self) (by decide)

/-- A safe schema name leads at least one step down. -/
theorem depthFrom_schemaName (hsafe : ¬ IsUnsafe name) (hschema : isSchemaName name = true) :
    ∃ depth, depthFrom 0 ((Path.moving (Path.pieces name)).map Path.step) = some (depth + 1) := by
  have hrelative := isAbsolute_of_not_isUnsafe hsafe
  have hsome : depthFrom 0 ((Path.moving (Path.pieces name)).map Path.step) ≠ none := by
    rw [← depthFrom_of_relative hrelative, ne_eq, depthFrom_eq_none_iff]
    rintro (hroot | hclimbs)
    · exact hsafe (Or.inl (isAbsolute_iff_root_mem.mpr hroot))
    · exact hsafe (Or.inr (Or.inr hclimbs))
  obtain ⟨before, last, hpieces, hlast⟩ := pieces_of_isSchemaName hschema
  have hlong : 6 ≤ last.toList.length := hlast.length_le
  have hmoves : Path.isIdle last = false := by
    rw [Bool.eq_false_iff]
    intro hidle
    rw [Path.isIdle, Bool.or_eq_true, beq_iff_eq, beq_iff_eq] at hidle
    rcases hidle with rfl | rfl
    · exact absurd hlong (by decide)
    · exact absurd hlong (by decide)
  have hup : last ≠ ".." := by
    rintro rfl
    exact absurd hlong (by decide)
  rw [hpieces, Path.moving_append, Path.moving_cons_of_not_idle hmoves, Path.moving_nil,
    List.map_append, depthFrom_append, List.map_singleton, Path.step, if_neg hup] at hsome ⊢
  cases hdepth : depthFrom 0 ((Path.moving before).map Path.step) with
  | none =>
    rw [hdepth] at hsome
    exact absurd rfl hsome
  | some depth => exact ⟨depth, rfl⟩

/-- What leads on from a directory by steps that never leave it lies as deep as the steps say. -/
theorem leads_at_depth (hfree : ∀ top, d.Leads dir top → d.LinkFreeBelow top)
    (hq : q.components = dir.components ++ steps.map Path.step) (hsteps : steps ≠ [])
    (hdepth : depthFrom 0 (steps.map Path.step) = some depth) (hl : d.Leads q l) :
    ∃ top rest, d.Leads dir top ∧ l = top ++ rest ∧ rest.length = depth := by
  obtain ⟨top, n, ys, hdir, hys, hfollows⟩ := hl.of_append hq hsteps
  rw [← hys] at hdepth
  have hstart : top = top ++ [] := (List.append_nil top).symm
  obtain ⟨rest, hrest, hlength⟩ := hfollows.confined hstart (hfree top hdir) hdepth
  exact ⟨top, rest, hdir, hrest, hlength⟩

/-- A path to an entry with a safe schema name leads below the directory that it is joined to. -/
theorem leads_below (hsafe : ¬ IsUnsafe name) (hschema : isSchemaName name = true)
    (hdir : dir.text ≠ "") (hfree : ∀ top, d.Leads dir top → d.LinkFreeBelow top)
    (hl : d.Leads (dir.join ⟨name⟩) l) : ∃ top, d.Leads dir top ∧ StrictlyBelow top l := by
  obtain ⟨depth, hdepth⟩ := depthFrom_schemaName hsafe hschema
  have hsteps : Path.moving (Path.pieces name) ≠ [] := by
    intro hnil
    rw [hnil] at hdepth
    simp [depthFrom] at hdepth
  have hjoin := Path.components_join hdir (isAbsolute_of_not_isUnsafe hsafe)
  obtain ⟨top, rest, htop, rfl, hlength⟩ := leads_at_depth hfree hjoin hsteps hdepth hl
  have hne : rest ≠ [] := by
    rintro rfl
    simp at hlength
  exact ⟨top, htop, List.prefix_append top rest, by simpa using hne⟩

/-- A parent of such a path is a parent of the directory or leads into it. -/
theorem leads_into (hsafe : ¬ IsUnsafe name) (hschema : isSchemaName name = true)
    (hdir : dir.text ≠ "") (hfree : ∀ top, d.Leads dir top → d.LinkFreeBelow top)
    (hq : q.components <+: (dir.join ⟨name⟩).components) (hl : d.Leads q l) :
    q.components <+: dir.components ∨ ∃ top, d.Leads dir top ∧ top <+: l := by
  rw [Path.components_join hdir (isAbsolute_of_not_isUnsafe hsafe)] at hq
  rcases List.prefix_or_prefix_of_prefix hq (List.prefix_append _ _) with habove | hbelow
  · exact Or.inl habove
  obtain ⟨more, hmore⟩ := hbelow
  rw [← hmore, List.prefix_append_right_inj] at hq
  have hsteps : more = ((Path.moving (Path.pieces name)).take more.length).map Path.step := by
    rw [List.map_take]
    exact List.prefix_iff_eq_take.mp hq
  by_cases hnone : (Path.moving (Path.pieces name)).take more.length = []
  · rw [hnone, List.map_nil] at hsteps
    left
    rw [← hmore, hsteps, List.append_nil]
  right
  -- the check went through the first steps before the others
  obtain ⟨depth, hdepth⟩ := depthFrom_schemaName hsafe hschema
  obtain ⟨after, hafter⟩ := hq
  rw [← hafter, depthFrom_append, Option.bind_eq_some_iff] at hdepth
  obtain ⟨first, hfirst, -⟩ := hdepth
  rw [hsteps] at hmore hfirst
  obtain ⟨top, rest, htop, rfl, -⟩ := leads_at_depth hfree hmore.symm hnone hfirst hl
  exact ⟨top, htop, List.prefix_append top rest⟩

end Package

end ProtoForge
