import ProtoForge.Proofs.Generation.Writing
import ProtoForge.Proofs.Package.ArchiveNames

/-!
# Which names of generated files are accepted

A name is refused if it could lead out of the output directory, or if it leads
nowhere at all. An accepted name comes down to its ordinary components, so two
names have one normal form just if they name the same components, and these
are all that the normal form adds to a directory.
-/
namespace ProtoForge.Generation

/-- The ordinary components of a name: what stands between its slashes, but for nothing at all, a
dot and two dots. -/
def ordinaryComponents (name : String) : List String :=
  (Path.pieces name).filter fun s => s ≠ "" ∧ s ≠ "." ∧ s ≠ ".."

variable {name other path path' s : String} {names ps : List String} {cs : List Component}

theorem mem_ordinaryComponents :
    s ∈ ordinaryComponents name ↔ s ∈ Path.pieces name ∧ s ≠ "" ∧ s ≠ "." ∧ s ≠ ".." := by
  simp [ordinaryComponents]

/-- The ordinary components are the steps that do not lead up. -/
theorem ordinaryComponents_eq (name : String) :
    ordinaryComponents name = (Path.moving (Path.pieces name)).filter (· ≠ "..") := by
  rw [ordinaryComponents, Path.moving, List.filter_filter]
  refine List.filter_congr fun s _ => ?_
  rw [Bool.eq_iff_iff]
  simp [Path.isIdle, and_comm, and_assoc]

/-- Components have ordinary names if nothing but these is left when dots are passed over. -/
theorem ordinaryNames?_eq_some_iff :
    ordinaryNames? cs = some names ↔ cs.filter (· ≠ .here) = names.map .name := by
  induction cs generalizing names with
  | nil => simp [ordinaryNames?, eq_comm]
  | cons c cs ih =>
    cases c with
    | root => cases names <;> simp [ordinaryNames?]
    | up => cases names <;> simp [ordinaryNames?]
    | here => simpa [ordinaryNames?] using ih
    | name t => cases names <;> simp [ordinaryNames?, ih, and_comm]

/-- Steps are ordinary names if none of them leads up. -/
theorem map_step_eq_iff (ps : List String) :
    ps.map Path.step = names.map .name ↔ ".." ∉ ps ∧ names = ps.filter (· ≠ "..") := by
  induction ps generalizing names with
  | nil => simp [eq_comm]
  | cons p ps ih =>
    by_cases hup : p = ".."
    · cases names <;> simp [Path.step, hup]
    · cases names with
      | nil => simp [hup]
      | cons n names => simp [Path.step, hup, Ne.symm hup, ih, and_left_comm, eq_comm]

/-- Without dots, the components of a relative name are the steps of its pieces. -/
theorem components_filter_here (h : (Path.mk name).isAbsolute = false) :
    (Path.mk name).components.filter (· ≠ .here) = (Path.moving (Path.pieces name)).map Path.step := by
  have hsteps : ((Path.moving (Path.pieces name)).map Path.step).filter (· ≠ .here) =
      (Path.moving (Path.pieces name)).map Path.step := by
    refine List.filter_eq_self.mpr fun c hc => ?_
    obtain ⟨s, -, rfl⟩ := List.mem_map.mp hc
    rw [Path.step]
    split_ifs <;> simp
  rcases Package.components_eq_or_here h with heq | heq
  · rw [heq, hsteps]
  · rw [heq, List.filter_cons_of_neg (by simp), hsteps]

theorem ordinaryNames?_components : ordinaryNames? (Path.mk name).components = some names ↔
    name.startsWith "/" = false ∧ ".." ∉ Path.pieces name ∧ names = ordinaryComponents name := by
  rw [ordinaryNames?_eq_some_iff]
  cases habsolute : (Path.mk name).isAbsolute with
  | true =>
    have hroot : .root ∈ (Path.mk name).components := Package.isAbsolute_iff_root_mem.mp habsolute
    constructor
    · intro h
      have hmem : .root ∈ names.map Component.name := by
        rw [← h]
        exact List.mem_filter.mpr ⟨hroot, by decide⟩
      simp at hmem
    · rintro ⟨hrelative, -⟩
      rw [Path.isAbsolute, hrelative] at habsolute
      cases habsolute
  | false =>
    have hrelative : name.startsWith "/" = false := habsolute
    have hup : ".." ∈ Path.moving (Path.pieces name) ↔ ".." ∈ Path.pieces name := by
      simp [Path.moving, Path.isIdle]
    rw [components_filter_here habsolute, map_step_eq_iff, hup, ordinaryComponents_eq]
    simp [hrelative]

theorem normalizePath?_cases : normalizePath? name = some path ↔
    '\\' ∉ name.toList ∧ ∃ names, ordinaryNames? (Path.mk name).components = some names ∧
      names ≠ [] ∧ path = Path.ofPieces names := by
  rw [normalizePath?]
  split_ifs with hback
  · have hmem : '\\' ∈ name.toList := by simpa using hback
    simp [hmem]
  · have hmem : '\\' ∉ name.toList := by simpa using hback
    rcases ordinaryNames? (Path.mk name).components with _ | _ | ⟨n, ns⟩
    · simp
    · simp
    · simp [hmem, Path.ofPieces, eq_comm]

/-- What is accepted, and the normal form of it. -/
theorem normalizePath?_eq_some_iff :
    normalizePath? name = some path ↔
      '\\' ∉ name.toList ∧ name.startsWith "/" = false ∧ ".." ∉ Path.pieces name ∧
        ordinaryComponents name ≠ [] ∧ path = Path.ofPieces (ordinaryComponents name) := by
  rw [normalizePath?_cases]
  constructor
  · rintro ⟨hback, names, hnames, hne, rfl⟩
    obtain ⟨hrelative, hup, rfl⟩ := ordinaryNames?_components.mp hnames
    exact ⟨hback, hrelative, hup, hne, rfl⟩
  · rintro ⟨hback, hrelative, hup, hne, rfl⟩
    exact ⟨hback, _, ordinaryNames?_components.mpr ⟨hrelative, hup, rfl⟩, hne, rfl⟩

theorem normalizePath?_eq_none_iff :
    normalizePath? name = none ↔
      '\\' ∈ name.toList ∨ name.startsWith "/" = true ∨ ".." ∈ Path.pieces name ∨
        ordinaryComponents name = [] := by
  rw [Option.eq_none_iff_forall_ne_some]
  constructor
  · intro h
    by_contra hnot
    simp only [not_or, Bool.not_eq_true] at hnot
    exact h _ (normalizePath?_eq_some_iff.mpr ⟨hnot.1, hnot.2.1, hnot.2.2.1, hnot.2.2.2, rfl⟩)
  · intro hrefused path h
    obtain ⟨hback, hrelative, hup, hne, -⟩ := normalizePath?_eq_some_iff.mp h
    rcases hrefused with hmem | habsolute | hmem | hnil
    · exact hback hmem
    · rw [hrelative] at habsolute
      cases habsolute
    · exact hup hmem
    · exact hne hnil

/-- The pieces of a normal form are the ordinary components of the name. -/
theorem pieces_of_normalizePath (h : normalizePath? name = some path) :
    Path.pieces path = ordinaryComponents name := by
  obtain ⟨-, -, -, hne, rfl⟩ := normalizePath?_eq_some_iff.mp h
  refine Path.pieces_ofPieces (fun s hs => ?_) hne
  exact Path.not_mem_of_mem_pieces (mem_ordinaryComponents.mp hs).1

/-- Exactly the names with a backslash, a slash in front, two dots for a component, or no ordinary
component are refused. Any other name has its ordinary components as its normal form, joined by
single slashes, and these are its components apart from a dot in front. A normal form is its own
one, names have the same one just if their ordinary components are the same, and seen from any
directory it adds just these components. -/
theorem normalizePath_exact (name : String) :
    (normalizePath? name = none ↔
      '\\' ∈ name.toList ∨ name.startsWith "/" = true ∨ ".." ∈ Path.pieces name ∨
        ordinaryComponents name = []) ∧
    ∀ path, normalizePath? name = some path →
      path = "/".intercalate (ordinaryComponents name) ∧
      (Path.mk name).components.filter (· ≠ .here) = (ordinaryComponents name).map .name ∧
      normalizePath? path = some path ∧
      (∀ other path', normalizePath? other = some path' →
        (path = path' ↔ ordinaryComponents name = ordinaryComponents other)) ∧
      ∀ out : Path, (out.join ⟨path⟩).components =
        out.components ++ (ordinaryComponents name).map .name := by
  refine ⟨normalizePath?_eq_none_iff, fun path h => ?_⟩
  obtain ⟨-, hrelative, hup, hne, hpath⟩ := normalizePath?_eq_some_iff.mp h
  have hnormal : IsNormal path := isNormal_of_normalizePath h
  have hpieces : Path.pieces path = ordinaryComponents name := pieces_of_normalizePath h
  refine ⟨hpath, ?_, isNormal_iff.mp hnormal, fun other path' h' => ?_, fun out => ?_⟩
  · exact ordinaryNames?_eq_some_iff.mp (ordinaryNames?_components.mpr ⟨hrelative, hup, rfl⟩)
  · constructor
    · rintro rfl
      rw [← hpieces, pieces_of_normalizePath h']
    · intro heq
      rw [hpath, heq, ← (normalizePath?_eq_some_iff.mp h').2.2.2.2]
  · rw [components_join_of_isNormal hnormal, hpieces]

/-- A dot in front, a doubled slash and a dot at the end leave no trace, two dots are refused even
where they lead back into the directory. -/
theorem dotted_name_accepted :
    normalizePath? "./a//b/." = some "a/b" ∧
      (normalizePath? "a/b" = some "a/b" ∧ ordinaryComponents "./a//b/." = ordinaryComponents "a/b") ∧
      ((⟨"out"⟩ : Path).join ⟨"a/b"⟩).components = [.name "out", .name "a", .name "b"] ∧
      normalizePath? "a/../b" = none := by
  have h : normalizePath? "./a//b/." = some "a/b" := by cbv
  have hnames : ordinaryComponents "./a//b/." = ["a", "b"] := by cbv
  have hout : (Path.mk "out").components = [.name "out"] := by cbv
  obtain ⟨-, -, hfixed, hsame, hbelow⟩ := (normalizePath_exact "./a//b/.").2 _ h
  have hpieces : Path.pieces "a/../b" = ["a", "..", "b"] := by cbv
  have hup : normalizePath? "a/../b" = none :=
    (normalizePath_exact "a/../b").1.mpr (Or.inr (Or.inr (Or.inl (by simp [hpieces]))))
  refine ⟨h, ⟨hfixed, (hsame _ _ hfixed).mp rfl⟩, ?_, hup⟩
  rw [hbelow, hout, hnames]
  rfl

end ProtoForge.Generation
