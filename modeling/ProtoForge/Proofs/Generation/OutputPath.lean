import ProtoForge.Generation.OutputPath
import ProtoForge.Proofs.Files.Steps

/-!
# Normal output paths

A path in normal form joins ordinary names by single slashes, so cutting it at
its slashes gives the names back. The directories it lies in are the parts of
its text before a slash.
-/
namespace ProtoForge.Generation

/-- A name that leads one step down wherever it is followed. -/
structure IsPlainName (s : String) : Prop where
  ne_empty : s ≠ ""
  ne_dot : s ≠ "."
  ne_up : s ≠ ".."
  no_slash : '/' ∉ s.toList
  no_backslash : '\\' ∉ s.toList

/-- A path in normal relative form. -/
def IsNormal (path : String) : Prop :=
  ∃ names, names ≠ [] ∧ (∀ s ∈ names, IsPlainName s) ∧ path = Path.ofPieces names

/-- A path lies in or below a directory, as their texts say. -/
def LiesBelow (dir path : String) : Prop := ∃ rest, path = dir ++ "/" ++ rest

variable {dir path name p q s : String} {names ps qs : List String} {cs : List Component}

theorem ofPieces_pieces (s : String) : Path.ofPieces (Path.pieces s) = s :=
  Text.intercalate_pieces '/' s

theorem ofPieces_append (hp : ps ≠ []) (hq : qs ≠ []) :
    Path.ofPieces (ps ++ qs) = Path.ofPieces ps ++ "/" ++ Path.ofPieces qs :=
  String.intercalate_append_of_ne_nil hp hq

/-- What is written in joined names is written in one of them, or is a slash. -/
theorem mem_toList_ofPieces {c : Char} (h : c ∈ (Path.ofPieces ps).toList) :
    c = '/' ∨ ∃ s ∈ ps, c ∈ s.toList :=
  (Text.mem_intercalate h).imp_left List.mem_singleton.mp

theorem name_mem_of_ordinaryNames (h : ordinaryNames? cs = some names) (hs : s ∈ names) :
    .name s ∈ cs := by
  induction cs generalizing names with
  | nil =>
    obtain rfl : [] = names := by simpa [ordinaryNames?] using h
    simp at hs
  | cons c cs ih =>
    cases c with
    | root => simp [ordinaryNames?] at h
    | up => simp [ordinaryNames?] at h
    | here => exact List.mem_cons_of_mem _ (ih (by simpa [ordinaryNames?] using h) hs)
    | name t =>
      obtain ⟨ts, hts, rfl⟩ : ∃ ts, ordinaryNames? cs = some ts ∧ t :: ts = names := by
        simpa [ordinaryNames?] using h
      rcases List.mem_cons.mp hs with rfl | hs
      · exact List.mem_cons_self
      · exact List.mem_cons_of_mem _ (ih hts hs)

/-- A name among the components of a path is one of its pieces and is followed as a name. -/
theorem mem_pieces_of_name_mem {p : Path} (h : .name s ∈ p.components) :
    s ∈ Path.pieces p.text ∧ Path.isIdle s = false ∧ s ≠ ".." := by
  rw [Path.components_eq, List.mem_append] at h
  rcases h with h | h
  · cases hstart : p.split.1 <;> simp [hstart, PathStart.components] at h
  · obtain ⟨t, ht, hstep⟩ := List.mem_map.mp h
    obtain ⟨hmem, hidle⟩ := List.mem_filter.mp ht
    rw [Path.step] at hstep
    split_ifs at hstep with hup
    obtain rfl := Component.name.inj hstep
    exact ⟨Files.Disk.mem_pieces_of_mem_split hmem, by simpa using hidle, hup⟩

/-- What normalizing gives is in normal form. -/
theorem isNormal_of_normalizePath (h : normalizePath? name = some path) : IsNormal path := by
  rw [normalizePath?] at h
  split_ifs at h with hback
  cases hnames : ordinaryNames? (Path.mk name).components with
  | none => simp [hnames] at h
  | some ns =>
    cases ns with
    | nil => simp [hnames] at h
    | cons n ns =>
      obtain rfl : Path.ofPieces (n :: ns) = path := by simpa [hnames, Path.ofPieces] using h
      refine ⟨n :: ns, List.cons_ne_nil n ns, fun s hs => ?_, rfl⟩
      obtain ⟨hmem, hidle, hup⟩ := mem_pieces_of_name_mem (name_mem_of_ordinaryNames hnames hs)
      simp only [Path.isIdle, Bool.or_eq_false_iff, beq_eq_false_iff_ne] at hidle
      refine ⟨hidle.1, hidle.2, hup, Path.not_mem_of_mem_pieces hmem, fun hc => ?_⟩
      exact hback (by simpa using Text.mem_of_mem_pieces hmem hc)

/-- The components of a path in normal form are its names. -/
theorem components_ofPieces (hne : names ≠ []) (hnames : ∀ s ∈ names, IsPlainName s) :
    (Path.mk (Path.ofPieces names)).components = names.map .name := by
  have hpieces := Path.pieces_ofPieces (fun s hs => (hnames s hs).no_slash) hne
  have hsplit : (Path.mk (Path.ofPieces names)).split = (.plain, names) := by
    obtain ⟨n, ns, rfl⟩ := List.exists_cons_of_ne_nil hne
    have hn := hnames n List.mem_cons_self
    rw [Path.split, hpieces]
    split
    · rename_i heq
      exact absurd (List.cons_eq_cons.mp heq).1 hn.ne_empty
    · rename_i heq
      exact absurd (List.cons_eq_cons.mp heq).1 hn.ne_dot
    · rfl
  have hmoving : Path.moving names = names := by
    refine List.filter_eq_self.mpr fun s hs => ?_
    simp [Path.isIdle, (hnames s hs).ne_empty, (hnames s hs).ne_dot]
  rw [Path.components_eq, hsplit, hmoving]
  refine List.map_congr_left fun s hs => ?_
  rw [Path.step, if_neg (hnames s hs).ne_up]

theorem ordinaryNames?_names (names : List String) :
    ordinaryNames? (names.map .name) = some names := by
  induction names with
  | nil => rfl
  | cons n ns ih => simp [ordinaryNames?, ih]

/-- The normal forms are the texts that normalizing leaves as they are. -/
theorem isNormal_iff : IsNormal path ↔ normalizePath? path = some path := by
  refine ⟨?_, isNormal_of_normalizePath⟩
  rintro ⟨names, hne, hnames, rfl⟩
  have hback : (Path.ofPieces names).contains '\\' = false := by
    by_contra hmem
    rw [Bool.not_eq_false, String.contains_char_eq, decide_eq_true_iff] at hmem
    rcases mem_toList_ofPieces hmem with heq | ⟨s, hs, hc⟩
    · simp at heq
    · exact (hnames s hs).no_backslash hc
  obtain ⟨n, ns, rfl⟩ := List.exists_cons_of_ne_nil hne
  rw [normalizePath?, if_neg (by simp [hback]), components_ofPieces hne hnames,
    ordinaryNames?_names]
  rfl

theorem mem_properPrefixes {α : Type} {l p : List α} :
    p ∈ properPrefixes l ↔ p ≠ [] ∧ ∃ r, r ≠ [] ∧ l = p ++ r := by
  induction l using properPrefixes.induct generalizing p with
  | case1 => simp [properPrefixes]
  | case2 a =>
    have hnone : p ≠ [] → ∀ r, r ≠ [] → [a] ≠ p ++ r := by
      intro hp r hr heq
      have hlength := congrArg List.length heq
      have hp' := List.length_pos_iff.mpr hp
      have hr' := List.length_pos_iff.mpr hr
      simp at hlength
      omega
    simpa [properPrefixes] using hnone
  | case3 a b rest ih =>
    rw [properPrefixes, List.mem_cons, List.mem_map]
    constructor
    · rintro (rfl | ⟨q, hq, rfl⟩)
      · exact ⟨List.cons_ne_nil a [], b :: rest, List.cons_ne_nil b rest, rfl⟩
      · obtain ⟨-, r, hr, heq⟩ := ih.mp hq
        exact ⟨List.cons_ne_nil a q, r, hr, by rw [heq, List.cons_append]⟩
    · rintro ⟨hp, r, hr, heq⟩
      obtain ⟨c, q, rfl⟩ := List.exists_cons_of_ne_nil hp
      obtain ⟨rfl, hrest⟩ := List.cons_eq_cons.mp heq
      by_cases hq : q = []
      · exact Or.inl (by rw [hq])
      · exact Or.inr ⟨q, ih.mpr ⟨hq, r, hr, hrest⟩, rfl⟩

/-- The directories of a path are the parts of its text before a slash. -/
theorem mem_parentDirectories : dir ∈ parentDirectories path ↔ LiesBelow dir path := by
  rw [parentDirectories, List.mem_map]
  constructor
  · rintro ⟨ps, hps, rfl⟩
    obtain ⟨hps, qs, hqs, heq⟩ := mem_properPrefixes.mp hps
    refine ⟨Path.ofPieces qs, ?_⟩
    rw [← ofPieces_pieces path, Path.pieces, heq, ofPieces_append hps hqs]
    rfl
  · rintro ⟨rest, rfl⟩
    refine ⟨Path.pieces dir, mem_properPrefixes.mpr ⟨Text.pieces_ne_nil _ _, Path.pieces rest,
      Text.pieces_ne_nil _ _, Path.pieces_append dir rest⟩, ofPieces_pieces dir⟩

/-- What lies below a directory goes on from its names. -/
theorem liesBelow_iff : LiesBelow dir path ↔ ∃ r, r ≠ [] ∧ Path.pieces path = Path.pieces dir ++ r := by
  constructor
  · rintro ⟨rest, rfl⟩
    exact ⟨Path.pieces rest, Text.pieces_ne_nil '/' rest, Path.pieces_append dir rest⟩
  · rintro ⟨r, hr, hpieces⟩
    refine ⟨Path.ofPieces r, ?_⟩
    have hdir : Path.pieces dir ≠ [] := Text.pieces_ne_nil '/' dir
    rw [← ofPieces_pieces path, hpieces, ofPieces_append hdir hr, ofPieces_pieces]

/-- The names of a path begin those of another one if it is that path or a directory above it. -/
theorem pieces_isPrefix_iff : Path.pieces p <+: Path.pieces q ↔ p = q ∨ LiesBelow p q := by
  constructor
  · rintro ⟨r, hr⟩
    by_cases hnil : r = []
    · left
      rw [hnil, List.append_nil] at hr
      rw [← ofPieces_pieces p, hr, ofPieces_pieces]
    · exact Or.inr (liesBelow_iff.mpr ⟨r, hnil, hr.symm⟩)
  · rintro (rfl | hbelow)
    · exact List.prefix_rfl
    · obtain ⟨r, -, hr⟩ := liesBelow_iff.mp hbelow
      exact ⟨r, hr.symm⟩

theorem LiesBelow.trans (hp : LiesBelow p q) (hq : LiesBelow q path) : LiesBelow p path := by
  obtain ⟨r, rfl⟩ := hp
  obtain ⟨s, rfl⟩ := hq
  exact ⟨r ++ "/" ++ s, by simp [String.append_assoc]⟩

/-- No path lies below itself. -/
theorem not_liesBelow_self : ¬ LiesBelow path path := by
  rintro ⟨rest, hrest⟩
  have hlength := congrArg (fun s => s.toList.length) hrest
  simp at hlength

instance : Decidable (LiesBelow dir path) :=
  decidable_of_iff (dir ∈ parentDirectories path) mem_parentDirectories

end ProtoForge.Generation
