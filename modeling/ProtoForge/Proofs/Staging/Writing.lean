import ProtoForge.Proofs.Files.Enclosure
import ProtoForge.Proofs.Staging.CanonicalNames

/-!
# Views on disk

A view is written to a new directory in three rounds: its directories, its
files, and the permissions of its directories. Each round finds what the rounds
before it have made, so in the end the directory holds the view. A round that
fails has changed nothing outside the directory, which is then removed.
-/
namespace ProtoForge.Staging

open Files Generation ProtoForge.Path

/-- A staged file on disk. -/
def StagedFile.entry (f : StagedFile) : Entry := .file (.bytes f.bytes) (f.mode.getD fileMode)

namespace View

/-- A recorded directory on disk. -/
def directoryEntry (mode : Option Nat) : Entry := .directory ((mode.map withOwner).getD directoryMode)

/-- No file of a view is one of its directories. -/
def IsApart (v : View) : Prop :=
  ∀ name, (v.get? name).isSome → ¬ (v.directories.get? name).isSome

/-- The system takes the paths of all files and directories of a view below a root. -/
def FitsBelow (v : View) (root : Path) : Prop :=
  ∀ name, v.IsStaged name → Disk.checkText (root.join ⟨name⟩).text = .ok ()

/-- Below a location lie the files and the directories of a view, and nothing else. -/
def LiesAt (v : View) (top : Location) (e : Disk) : Prop :=
  ∀ k ≠ [], ∀ x, e.get? (top ++ k) = some x ↔
    (∃ name file, v.get? name = some file ∧ k = pieces name ∧ x = file.entry) ∨
      ∃ name mode, v.directories.get? name = some mode ∧ k = pieces name ∧ x = directoryEntry mode

/-- Gives a directory the permissions that are recorded for it. -/
def setRecorded (root : Path) (r : String × Option Nat) : RunAction Unit := do
  let p := root.join ⟨r.1⟩
  if let some mode := r.2 then (setMode p (withOwner mode)).orFail (.staging p)

/-- The directories of a view lie below a location. -/
structure Prepared (v : View) (root : Path) (top : Location) (d : Disk) : Prop where
  enclosure : Disk.Enclosure root top d
  directories : ∀ name, (v.directories.get? name).isSome → d.HasDirectory (top ++ pieces name)

variable {v : View} {root p : Path} {top k : Location} {d e : Disk} {name : String}
  {names ps : List String} {file : StagedFile} {mode : Option Nat} {u : Unit}

theorem writeTo_eq (v : View) (root : Path) :
    v.writeTo root = (do
      writeDirectories root v.directories.keys
      v.files.forM fun f => writeStaged root f.1 f.2
      v.directories.reverse.forM (setRecorded root)) := rfl

theorem stays_writeDirectories (hroot : root.text ≠ "") (hnames : ∀ name ∈ names, IsCanonicalName name) :
    Respects (Disk.Stays root top) (writeDirectories root names) := by
  refine .forM names fun name hname => respects_orFail ?_ _
  exact stays_makeDirectories ((hnames name hname).components_join hroot) (hnames name hname)

theorem stays_writeStaged (hroot : root.text ≠ "") (hname : IsCanonicalName name) (file : StagedFile) :
    Respects (Disk.Stays root top) (writeStaged root name file) := by
  have hcomponents := hname.components_join hroot
  obtain ⟨q, before, s, hsplit, hq, hparent⟩ := hname.exists_parent hroot
  have hlegal : ∀ t ∈ before, Disk.IsFileName t := fun t ht => hname t (by simp [hsplit, ht])
  rw [writeStaged]
  simp only [hq]
  refine .bind (respects_orFail (stays_makeDirectories hparent hlegal) _) fun _ => ?_
  refine .bind (respects_orFail (stays_writeFile file.bytes hcomponents hname) _) fun _ => ?_
  cases file.mode with
  | none => exact .pure _
  | some mode =>
    exact respects_orFail (stays_setMode mode hcomponents hname (pieces_ne_nil name)) _

theorem stays_setRecorded (hroot : root.text ≠ "") {r : String × Option Nat}
    (hname : IsCanonicalName r.1) : Respects (Disk.Stays root top) (setRecorded root r) := by
  obtain ⟨name, mode⟩ := r
  cases mode with
  | none => exact .pure _
  | some mode =>
    exact respects_orFail (stays_setMode (withOwner mode) (hname.components_join hroot) hname
      (pieces_ne_nil name)) _

/-- Writing a view changes nothing outside the directory that it is written to. -/
theorem stays_writeTo (hv : v.IsCanonical) (hfiles : v.files.IsAscending)
    (hdirectories : v.directories.IsAscending) (hroot : root.text ≠ "") :
    Respects (Disk.Stays root top) (v.writeTo root) := by
  rw [writeTo_eq]
  refine .bind (stays_writeDirectories hroot fun name hname => ?_) fun _ =>
    .bind (.forM _ fun f hf => stays_writeStaged hroot ?_ f.2) fun _ =>
      .forM _ fun r hr => stays_setRecorded hroot ?_
  · exact hv.names name (Or.inr (OrderedMap.mem_keys_iff.mp hname))
  · exact hv.names f.1 (Or.inl (hfiles.isSome_of_mem hf))
  · exact hv.names r.1 (Or.inr (hdirectories.isSome_of_mem (List.mem_reverse.mp hr)))

/-- Among bare directories a directory is made with those that hold it. -/
theorem exists_makeDirectories (hroot : root.text ≠ "") (hname : IsCanonicalName name)
    (htext : Disk.checkText (root.join ⟨name⟩).text = .ok ()) (h : Disk.Enclosure root top d)
    (hbare : d.BareBelow top) :
    ∃ e, outcome (makeDirectories (root.join ⟨name⟩)) d = (.ok (), e) ∧
      Disk.Enclosure root top e ∧ e.BareBelow top ∧
      ∀ k, e.get? (top ++ k) = none ↔ d.get? (top ++ k) = none ∧ ¬ k <+: pieces name := by
  have hcomponents := hname.components_join hroot
  have hlast : ∀ t ∈ (pieces name).getLast?, (pieces (root.join ⟨name⟩).text).getLast? = some t := by
    intro t ht
    rw [hname.getLast?_pieces_join hroot]
    exact ht
  have hfree : ∀ ps, ps <+: pieces name → d.get? (top ++ ps) = none ∨ d.HasDirectory (top ++ ps) := by
    intro ps _
    cases hx : d.get? (top ++ ps) with
    | none => exact Or.inl rfl
    | some x => exact Or.inr ⟨directoryMode, by rw [hx, hbare _ x (List.prefix_append top ps) hx]⟩
  obtain ⟨e, hout, hmade⟩ :=
    makeDirectories_ok h.proper.rooted h.opens hcomponents hname hlast htext hfree
  obtain ⟨he, hchanged⟩ := (stays_makeDirectories hcomponents hname).of_outcome hout h
  obtain ⟨hbare', -⟩ := (bareBelow_makeDirectories _ top).of_outcome hout ⟨hbare, h.opens.directory⟩
  refine ⟨e, hout, he, hbare', fun k => ⟨fun hnone => ?_, fun ⟨hnone, hk⟩ => ?_⟩⟩
  · refine ⟨hchanged.grown.absent hnone, fun hk => ?_⟩
    obtain ⟨m, hm⟩ := hmade.directories k hk
    simp [hnone] at hm
  · rcases hmade.frame (top ++ k) with heq | ⟨-, ps, hps, heq⟩
    · rw [heq, hnone]
    · exact absurd (List.append_cancel_left heq ▸ hps) hk

/-- The first round makes the directories and those that hold them. -/
theorem exists_writeDirectories (hroot : root.text ≠ "")
    (hnames : ∀ name ∈ names,
      IsCanonicalName name ∧ Disk.checkText (root.join ⟨name⟩).text = .ok ())
    (h : Disk.Enclosure root top d) (hbare : d.BareBelow top) :
    ∃ e, outcome (writeDirectories root names) d = (.ok (), e) ∧ Disk.Enclosure root top e ∧
      e.BareBelow top ∧
      ∀ k, e.get? (top ++ k) = none ↔
        d.get? (top ++ k) = none ∧ ∀ name ∈ names, ¬ k <+: pieces name := by
  induction names generalizing d with
  | nil => exact ⟨d, rfl, h, hbare, by simp⟩
  | cons name names ih =>
    obtain ⟨hname, htext⟩ := hnames name List.mem_cons_self
    obtain ⟨d₁, hfirst, h₁, hbare₁, hget₁⟩ := exists_makeDirectories hroot hname htext h hbare
    obtain ⟨e, hrest, he, hbare', hget⟩ :=
      ih (fun other hother => hnames other (List.mem_cons_of_mem name hother)) h₁ hbare₁
    refine ⟨e, ?_, he, hbare', fun k => ?_⟩
    · rw [writeDirectories, outcome_forM_cons]
      exact outcome_bind_eq_ok.mpr ⟨_, d₁, outcome_orFail_eq_ok.mpr hfirst, hrest⟩
    · rw [hget, hget₁, List.forall_mem_cons, and_assoc]

theorem Prepared.stays (h : v.Prepared root top d) (hstays : Disk.Stays root top d e) :
    v.Prepared root top e := by
  obtain ⟨he, hchanged⟩ := hstays h.enclosure
  exact ⟨he, fun name hname => hchanged.grown.directories _ (h.directories name hname)⟩

/-- The way to a staged name leads through directories. -/
theorem Prepared.opens (h : v.Prepared root top d) (hv : v.IsCanonical) (hname : v.IsStaged name)
    (hps : ps <+: pieces name) (hend : ps = pieces name → (v.directories.get? name).isSome)
    (hp : p.components = root.components ++ ps.map .name) : d.Opens p (top ++ ps) := by
  refine h.enclosure.opens.below hp (fun s hs => hv.names name hname s (hps.subset hs))
    fun qs hqs => ?_
  by_cases hnil : qs = []
  · rw [hnil, List.append_nil]
    exact h.enclosure.opens.directory
  obtain ⟨above, rfl, rfl | habove⟩ := hv.exists_of_isPrefix hname (hqs.trans hps) hnil
  · exact h.directories above (hend (hps.eq_of_length_le hqs.length_le))
  · exact h.directories above habove

/-- The directory of a staged file is there, and the path of the file names it ever after. -/
theorem Prepared.exists_parent (h : v.Prepared root top d) (hv : v.IsCanonical) (hroot : root.text ≠ "")
    (hname : v.IsStaged name) (htext : Disk.checkText (root.join ⟨name⟩).text = .ok ()) :
    ∃ q, (root.join ⟨name⟩).parent? = some q ∧ outcome (makeDirectories q) d = (.ok (), d) ∧
      ∀ d' : Disk, d.Grown d' → d'.Names (root.join ⟨name⟩) (top ++ pieces name) false := by
  have hcanonical := hv.names name hname
  obtain ⟨q, before, s, hsplit, hq, hparent⟩ := hcanonical.exists_parent hroot
  have hs : Disk.IsFileName s := hcanonical s (by simp [hsplit])
  have hcomponents := hcanonical.components_join hroot
  have hlast := hcanonical.getLast?_pieces_join hroot
  rw [hsplit] at hcomponents hlast
  rw [List.getLast?_concat] at hlast
  have hopens : d.Opens q (top ++ before) := by
    refine h.opens hv hname (hsplit ▸ List.prefix_append before [s]) (fun heq => ?_) hparent
    rw [hsplit] at heq
    simp at heq
  have hqtext : Disk.checkText q.text = .ok () := by
    obtain ⟨rest, hrest⟩ := text_parent hq
    refine Disk.checkText_of_append (hrest ▸ htext) fun hempty => ?_
    have hnil := components_eq_nil_iff.mpr hempty
    rw [hparent, List.append_eq_nil_iff] at hnil
    exact hroot (components_eq_nil_iff.mp hnil.1)
  refine ⟨q, hq, makeDirectories_of_opens hopens hqtext, fun d' hgrown => ?_⟩
  rw [hsplit, ← List.append_assoc]
  refine (hgrown.opens hopens).names_of ?_ hs hlast htext
  rw [hcomponents, hparent, List.map_append, List.append_assoc]
  rfl

/-- The second round writes a file where nothing is. -/
theorem exists_writeStaged (hv : v.IsCanonical) (hroot : root.text ≠ "") (hname : v.IsStaged name)
    (htext : Disk.checkText (root.join ⟨name⟩).text = .ok ()) (h : v.Prepared root top d)
    (hnone : d.get? (top ++ pieces name) = none) (file : StagedFile) :
    ∃ e, outcome (writeStaged root name file) d = (.ok (), e) ∧ v.Prepared root top e ∧
      e.get? = Function.update d.get? (top ++ pieces name) (some file.entry) := by
  obtain ⟨q, hq, hmake, hnames⟩ := h.exists_parent hv hroot hname htext
  have hne : top ++ pieces name ≠ [] := by simp [pieces_ne_nil]
  have hmode : d.modeAt (top ++ pieces name) = fileMode := by rw [Disk.modeAt, hnone]
  have hwrite := writeFile_ok file.bytes (hnames d (.refl d)) (Or.inl hnone)
  rw [hmode] at hwrite
  have hsteps : ∀ {rest : RunAction Unit} {e : Disk},
      outcome rest (d.put (top ++ pieces name) (.file (.bytes file.bytes) fileMode)) = (.ok (), e) →
      outcome ((makeDirectories q).orFail (.staging q) >>= fun _ =>
        (writeFile (root.join ⟨name⟩) file.bytes).orFail (.staging (root.join ⟨name⟩)) >>= fun _ =>
          rest) d = (.ok (), e) := fun hrest =>
    outcome_bind_eq_ok.mpr ⟨_, d, outcome_orFail_eq_ok.mpr hmake,
      outcome_bind_eq_ok.mpr ⟨_, _, outcome_orFail_eq_ok.mpr hwrite, hrest⟩⟩
  obtain ⟨e, hout, hget⟩ : ∃ e, outcome (writeStaged root name file) d = (.ok (), e) ∧
      e.get? = Function.update d.get? (top ++ pieces name) (some file.entry) := by
    rw [writeStaged, hq, StagedFile.entry]
    cases hfile : file.mode with
    | none => exact ⟨_, hsteps rfl, Disk.get?_put_eq hne _⟩
    | some mode =>
      have hset := setMode_file mode (hnames _ ((grows_writeFile _ file.bytes).of_outcome hwrite))
        (Disk.get?_put d _ (.file (.bytes file.bytes) fileMode) hne)
      refine ⟨_, hsteps (outcome_orFail_eq_ok.mpr hset), ?_⟩
      rw [Disk.get?_put_eq hne, Disk.get?_put_eq hne, Function.update_idem]
      rfl
  have hprepared := h.stays ((stays_writeStaged hroot (hv.names name hname) file).of_outcome hout)
  exact ⟨e, hout, hprepared, hget⟩

/-- After the first round the directories of the view are there, and nothing else. -/
theorem exists_firstRound (hv : v.IsCanonical) (hroot : root.text ≠ "") (hfits : v.FitsBelow root)
    (h : Disk.Enclosure root top d) (hbare : d.BareBelow top)
    (hempty : ∀ k ≠ [], d.get? (top ++ k) = none) :
    ∃ e, outcome (writeDirectories root v.directories.keys) d = (.ok (), e) ∧
      v.Prepared root top e ∧ e.get? top = some (.directory directoryMode) ∧
      (∀ name, (v.directories.get? name).isSome →
        e.get? (top ++ pieces name) = some (.directory directoryMode)) ∧
      ∀ k ≠ [], (∀ name, (v.directories.get? name).isSome → k ≠ pieces name) →
        e.get? (top ++ k) = none := by
  have hkeys : ∀ name ∈ v.directories.keys, v.IsStaged name := fun name hname =>
    Or.inr (OrderedMap.mem_keys_iff.mp hname)
  obtain ⟨e, hout, he, hbare', hget⟩ := exists_writeDirectories hroot
    (fun name hname => ⟨hv.names name (hkeys name hname), hfits name (hkeys name hname)⟩) h hbare
  have hmade : ∀ name, (v.directories.get? name).isSome →
      e.get? (top ++ pieces name) = some (.directory directoryMode) := by
    intro name hname
    have hsome : e.get? (top ++ pieces name) ≠ none := by
      rw [ne_eq, hget]
      exact fun hnone => hnone.2 name (OrderedMap.mem_keys_iff.mpr hname) List.prefix_rfl
    obtain ⟨x, hx⟩ := Option.ne_none_iff_exists'.mp hsome
    rw [hx, hbare' _ x (List.prefix_append top _) hx]
  obtain ⟨m, hm⟩ := he.opens.directory
  have htop := hbare' top _ List.prefix_rfl hm
  refine ⟨e, hout, ⟨he, fun name hname => ⟨_, hmade name hname⟩⟩, by rw [hm, htop], hmade,
    fun k hk hnot => ?_⟩
  refine (hget k).mpr ⟨hempty k hk, fun name hname hpre => ?_⟩
  obtain ⟨above, rfl, rfl | habove⟩ := hv.exists_of_isPrefix (hkeys name hname) hpre hk
  · exact hnot above (OrderedMap.mem_keys_iff.mp hname) rfl
  · exact hnot above habove rfl

/-- The second round adds the files. -/
theorem exists_secondRound (hv : v.IsCanonical) (hfiles : v.files.IsAscending) (hroot : root.text ≠ "")
    (hfits : v.FitsBelow root) (h : v.Prepared root top d)
    (hfree : ∀ name, (v.get? name).isSome → d.get? (top ++ pieces name) = none) :
    ∃ e, outcome (v.files.forM fun f => writeStaged root f.1 f.2) d = (.ok (), e) ∧
      v.Prepared root top e ∧
      (∀ name file, v.get? name = some file → e.get? (top ++ pieces name) = some file.entry) ∧
      ∀ k, (∀ name, (v.get? name).isSome → k ≠ pieces name) →
        e.get? (top ++ k) = d.get? (top ++ k) := by
  have hplaces : (v.files.map fun f => top ++ pieces f.1).Nodup :=
    hfiles.nodup_map fun s t hst => pieces_injective (List.append_cancel_left hst)
  have hround : ∀ f ∈ v.files, ∀ d', v.Prepared root top d' →
      d'.get? (top ++ pieces f.1) = d.get? (top ++ pieces f.1) →
      ∃ e, outcome (writeStaged root f.1 f.2) d' = (.ok (), e) ∧ v.Prepared root top e ∧
        e.get? = Function.update d'.get? (top ++ pieces f.1) (some f.2.entry) := by
    intro f hf d' hd' hsame
    have hname := hfiles.isSome_of_mem hf
    exact exists_writeStaged hv hroot (Or.inl hname) (hfits f.1 (Or.inl hname)) hd'
      (hsame.trans (hfree f.1 hname)) f.2
  obtain ⟨e, hout, he, hnew, hold⟩ := exists_forM_update hplaces hround h
  refine ⟨e, hout, he, fun name file hname => ?_, fun k hk => hold _ fun f hf heq => ?_⟩
  · exact hnew (name, file) (hfiles.get?_eq_some_iff.mp hname)
  · exact hk f.1 (hfiles.isSome_of_mem hf) (List.append_cancel_left heq).symm

theorem exists_setRecorded (hv : v.IsCanonical) (hroot : root.text ≠ "") {r : String × Option Nat}
    (hname : (v.directories.get? r.1).isSome) (htext : Disk.checkText (root.join ⟨r.1⟩).text = .ok ())
    (h : v.Prepared root top d)
    (hold : d.get? (top ++ pieces r.1) = some (.directory directoryMode)) :
    ∃ e, outcome (setRecorded root r) d = (.ok (), e) ∧ v.Prepared root top e ∧
      e.get? = Function.update d.get? (top ++ pieces r.1) (some (directoryEntry r.2)) := by
  obtain ⟨name, mode⟩ := r
  have hcanonical := hv.names name (Or.inr hname)
  cases mode with
  | none =>
    refine ⟨d, rfl, h, ?_⟩
    rw [directoryEntry, Option.map_none, Option.getD_none, ← hold, Function.update_eq_self]
  | some mode =>
    have hopens := h.opens hv (Or.inr hname) List.prefix_rfl (fun _ => hname)
      (hcanonical.components_join hroot)
    have hset := setMode_directory (withOwner mode) hopens htext
    have hout : outcome (setRecorded root (name, some mode)) d =
        (.ok (), d.put (top ++ pieces name) (.directory (withOwner mode))) :=
      outcome_orFail_eq_ok.mpr hset
    have hprepared := h.stays ((stays_setRecorded hroot hcanonical).of_outcome hout)
    exact ⟨_, hout, hprepared, Disk.get?_put_eq (by simp [pieces_ne_nil]) _⟩

/-- The third round gives the directories their permissions. -/
theorem exists_thirdRound (hv : v.IsCanonical) (hdirectories : v.directories.IsAscending)
    (hroot : root.text ≠ "") (hfits : v.FitsBelow root) (h : v.Prepared root top d)
    (hmade : ∀ name, (v.directories.get? name).isSome →
      d.get? (top ++ pieces name) = some (.directory directoryMode)) :
    ∃ e, outcome (v.directories.reverse.forM (setRecorded root)) d = (.ok (), e) ∧
      (∀ name mode, v.directories.get? name = some mode →
        e.get? (top ++ pieces name) = some (directoryEntry mode)) ∧
      ∀ k, (∀ name, (v.directories.get? name).isSome → k ≠ pieces name) →
        e.get? (top ++ k) = d.get? (top ++ k) := by
  have hplaces : (v.directories.reverse.map fun r => top ++ pieces r.1).Nodup := by
    rw [List.map_reverse, List.nodup_reverse]
    exact hdirectories.nodup_map fun s t hst => pieces_injective (List.append_cancel_left hst)
  have hround : ∀ r ∈ v.directories.reverse, ∀ d', v.Prepared root top d' →
      d'.get? (top ++ pieces r.1) = d.get? (top ++ pieces r.1) →
      ∃ e, outcome (setRecorded root r) d' = (.ok (), e) ∧ v.Prepared root top e ∧
        e.get? = Function.update d'.get? (top ++ pieces r.1) (some (directoryEntry r.2)) := by
    intro r hr d' hd' hsame
    have hname := hdirectories.isSome_of_mem (List.mem_reverse.mp hr)
    exact exists_setRecorded hv hroot hname (hfits r.1 (Or.inr hname)) hd'
      (hsame.trans (hmade r.1 hname))
  obtain ⟨e, hout, -, hnew, hold⟩ := exists_forM_update hplaces hround h
  refine ⟨e, hout, fun name mode hname => ?_, fun k hk => hold _ fun r hr heq => ?_⟩
  · exact hnew (name, mode) (List.mem_reverse.mpr (hdirectories.get?_eq_some_iff.mp hname))
  · exact hk r.1 (hdirectories.isSome_of_mem (List.mem_reverse.mp hr))
      (List.append_cancel_left heq).symm

theorem liesAt_of_entries
    (hfiles : ∀ name file, v.get? name = some file → d.get? (top ++ pieces name) = some file.entry)
    (hdirectories : ∀ name mode, v.directories.get? name = some mode →
      d.get? (top ++ pieces name) = some (directoryEntry mode))
    (hothers : ∀ k ≠ [], (∀ name, v.IsStaged name → k ≠ pieces name) → d.get? (top ++ k) = none) :
    v.LiesAt top d := by
  intro k hk x
  constructor
  · intro hx
    have hstaged : ∃ name, v.IsStaged name ∧ k = pieces name := by
      by_contra hnot
      push Not at hnot
      simp [hothers k hk hnot] at hx
    obtain ⟨name, hname | hname, rfl⟩ := hstaged
    · obtain ⟨file, hfile⟩ := Option.isSome_iff_exists.mp hname
      rw [hfiles name file hfile] at hx
      exact Or.inl ⟨name, file, hfile, rfl, (Option.some.inj hx).symm⟩
    · obtain ⟨mode, hmode⟩ := Option.isSome_iff_exists.mp hname
      rw [hdirectories name mode hmode] at hx
      exact Or.inr ⟨name, mode, hmode, rfl, (Option.some.inj hx).symm⟩
  · rintro (⟨name, file, hfile, rfl, rfl⟩ | ⟨name, mode, hmode, rfl, rfl⟩)
    · exact hfiles name file hfile
    · exact hdirectories name mode hmode

/-- Where there is nothing yet, all three rounds succeed, and the view is there. -/
theorem exists_writeTo (hv : v.IsCanonical) (hfiles : v.files.IsAscending)
    (hdirectories : v.directories.IsAscending) (hroot : root.text ≠ "") (hapart : v.IsApart)
    (hfits : v.FitsBelow root) (h : Disk.Enclosure root top d) (hbare : d.BareBelow top)
    (hempty : ∀ k ≠ [], d.get? (top ++ k) = none) :
    ∃ e, outcome (v.writeTo root) d = (.ok (), e) ∧ v.LiesAt top e ∧
      e.get? top = some (.directory directoryMode) := by
  have hnofile : ∀ name, (v.get? name).isSome →
      ∀ other, (v.directories.get? other).isSome → pieces name ≠ pieces other := by
    intro name hname other hother heq
    exact hapart name hname (pieces_injective heq ▸ hother)
  obtain ⟨d₁, hfirst, h₁, htop₁, hmade₁, hnone₁⟩ :=
    exists_firstRound hv hroot hfits h hbare hempty
  obtain ⟨d₂, hsecond, h₂, hfile₂, hsame₂⟩ := exists_secondRound hv hfiles hroot hfits h₁
    fun name hname => hnone₁ _ (pieces_ne_nil name) (hnofile name hname)
  obtain ⟨e, hthird, hdir, hsame⟩ := exists_thirdRound hv hdirectories hroot hfits h₂
    fun name hname => (hsame₂ _ fun other hother => (hnofile other hother name hname).symm).trans
      (hmade₁ name hname)
  refine ⟨e, ?_, liesAt_of_entries (fun name file hfile => ?_) hdir fun k hk hnot => ?_, ?_⟩
  · rw [writeTo_eq]
    exact outcome_bind_eq_ok.mpr ⟨_, d₁, hfirst, outcome_bind_eq_ok.mpr ⟨_, d₂, hsecond, hthird⟩⟩
  · rw [hsame _ (hnofile name (by rw [hfile]; rfl)), hfile₂ name file hfile]
  · rw [hsame k fun name hname => hnot name (Or.inr hname),
      hsame₂ k fun name hname => hnot name (Or.inl hname),
      hnone₁ k hk fun name hname => hnot name (Or.inr hname)]
  · have htop := hsame [] fun name _ heq => pieces_ne_nil name heq.symm
    have htop₂ := hsame₂ [] fun name _ heq => pieces_ne_nil name heq.symm
    rw [List.append_nil] at htop htop₂
    rw [htop, htop₂, htop₁]

/-- A directory that was written is there, and its path is one that the system takes. -/
theorem directory_of_writeDirectories (hroot : root.text ≠ "")
    (hnames : ∀ name ∈ names, IsCanonicalName name) (h : Disk.Enclosure root top d)
    (hout : outcome (writeDirectories root names) d = (.ok u, e)) (hname : name ∈ names) :
    Disk.checkText (root.join ⟨name⟩).text = .ok () ∧ e.HasDirectory (top ++ pieces name) := by
  have hrounds : ∀ name ∈ names, Respects (Disk.Stays root top)
      ((makeDirectories (root.join ⟨name⟩)).orFail (.staging (root.join ⟨name⟩))) :=
    fun name hname => respects_orFail
      (stays_makeDirectories ((hnames name hname).components_join hroot) (hnames name hname)) _
  obtain ⟨_, s, t, hbefore, hround, hafter⟩ := Respects.exists_of_forM hrounds hout hname
  have hmake := outcome_orFail_eq_ok.mp hround
  have hcomponents := (hnames name hname).components_join hroot
  obtain ⟨htext, hdir⟩ := (hbefore h).1.of_makeDirectories (join_text_ne_empty hroot) hcomponents
    (hnames name hname) hmake
  obtain ⟨ht, -⟩ := (stays_makeDirectories hcomponents (hnames name hname)).of_outcome hmake
    (hbefore h).1
  exact ⟨htext, (hafter ht).2.grown.directories _ hdir⟩

/-- A file that was written was no directory, and its path is one that the system takes. -/
theorem file_of_writeStaged (hroot : root.text ≠ "") (hname : IsCanonicalName name)
    (h : Disk.Enclosure root top d) (hout : outcome (writeStaged root name file) d = (.ok u, e)) :
    Disk.checkText (root.join ⟨name⟩).text = .ok () ∧ ¬ d.HasDirectory (top ++ pieces name) := by
  obtain ⟨q, before, s, hsplit, hq, hparent⟩ := hname.exists_parent hroot
  have hlegal : ∀ t ∈ before, Disk.IsFileName t := fun t ht => hname t (by simp [hsplit, ht])
  rw [writeStaged] at hout
  simp only [hq] at hout
  obtain ⟨_, d₁, hmake, hrest⟩ := outcome_bind_eq_ok.mp hout
  obtain ⟨_, d₂, hwrite, -⟩ := outcome_bind_eq_ok.mp hrest
  obtain ⟨h₁, hchanged⟩ :=
    (stays_makeDirectories hparent hlegal).of_outcome (outcome_orFail_eq_ok.mp hmake) h
  obtain ⟨htext, hnot⟩ := h₁.of_writeFile (hname.components_join hroot) hname
    (outcome_orFail_eq_ok.mp hwrite)
  exact ⟨htext, fun hdir => hnot (hchanged.grown.directories _ hdir)⟩

/-- A view that was written has paths that the system takes, and no file of it is a directory. -/
theorem of_writeTo (hv : v.IsCanonical) (hfiles : v.files.IsAscending) (hroot : root.text ≠ "")
    (h : Disk.Enclosure root top d) (hout : outcome (v.writeTo root) d = (.ok u, e)) :
    v.IsApart ∧ v.FitsBelow root := by
  rw [writeTo_eq] at hout
  obtain ⟨_, d₁, hfirst, hrest⟩ := outcome_bind_eq_ok.mp hout
  obtain ⟨_, d₂, hsecond, -⟩ := outcome_bind_eq_ok.mp hrest
  have hkeys : ∀ name ∈ v.directories.keys, IsCanonicalName name := fun name hname =>
    hv.names name (Or.inr (OrderedMap.mem_keys_iff.mp hname))
  have hdirectory : ∀ name, (v.directories.get? name).isSome →
      Disk.checkText (root.join ⟨name⟩).text = .ok () ∧ d₁.HasDirectory (top ++ pieces name) :=
    fun name hname => directory_of_writeDirectories hroot hkeys h hfirst
      (OrderedMap.mem_keys_iff.mpr hname)
  obtain ⟨h₁, -⟩ := (stays_writeDirectories hroot hkeys).of_outcome hfirst h
  have hrounds : ∀ f ∈ v.files, Respects (Disk.Stays root top) (writeStaged root f.1 f.2) :=
    fun f hf => stays_writeStaged hroot (hv.names f.1 (Or.inl (hfiles.isSome_of_mem hf))) f.2
  have hfile : ∀ name, (v.get? name).isSome →
      Disk.checkText (root.join ⟨name⟩).text = .ok () ∧ ¬ d₁.HasDirectory (top ++ pieces name) := by
    intro name hname
    obtain ⟨file, hget⟩ := Option.isSome_iff_exists.mp hname
    obtain ⟨_, s, t, hbefore, hround, -⟩ :=
      Respects.exists_of_forM hrounds hsecond (hfiles.get?_eq_some_iff.mp hget)
    obtain ⟨hs, hchanged⟩ := hbefore h₁
    obtain ⟨htext, hnot⟩ := file_of_writeStaged hroot (hv.names name (Or.inl hname)) hs hround
    exact ⟨htext, fun hdir => hnot (hchanged.grown.directories _ hdir)⟩
  refine ⟨fun name hname hdir => (hfile name hname).2 (hdirectory name hdir).2, ?_⟩
  rintro name (hname | hname)
  · exact (hfile name hname).1
  · exact (hdirectory name hname).1

end View

end ProtoForge.Staging
