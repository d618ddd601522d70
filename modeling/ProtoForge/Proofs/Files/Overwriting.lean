import ProtoForge.Proofs.Files.CanonicalTexts
import ProtoForge.Proofs.Files.Rebuilding

/-!
# Overwriting

When files are written one after the other, a file holds what was written last
where its path leads. It keeps its bytes as long as no later path leads to the
same place, and so does any file that can be read. Links can take two paths to
the same place.
-/
namespace ProtoForge.Files

namespace Disk

/-- A path leads to a file with some bytes. -/
def HoldsBytes (d : Disk) (p : Path) (b : Bytes) : Prop :=
  ∃ l m, d.Leads p l ∧ d.get? l = some (.file (.bytes b) m)

/-- Two paths lead to the same place. -/
def SamePlace (d : Disk) (p q : Path) : Prop := ∃ l, d.Leads p l ∧ d.Leads q l

/-- Bytes that are written to a path. -/
structure FileWrite where
  path : Path
  bytes : Bytes

/-- Apart from making directories, some files were written in turn: each of them holds what was
written, unless a later path leads to the same place. -/
structure WrittenInTurn (ws : List FileWrite) (d d' : Disk) : Prop where
  built : Built (fun _ => True) (fun q => ∃ w ∈ ws, q = w.path) d d'
  holds : ∀ before w after, ws = before ++ w :: after →
    (∀ v ∈ after, ¬ d'.SamePlace v.path w.path) → d'.HoldsBytes w.path w.bytes

variable {made written : Path → Prop} {d d' d'' : Disk} {p q : Path} {b : Bytes} {c : Content}
  {l : Location} {ws vs : List FileWrite} {u : Unit}

/-- A link that names another directory beside it opens that one. -/
theorem Opens.of_link {parent : Location} {s t : String} (hd : d.IsProper)
    (hlink : d.get? (parent ++ [s]) = some (.link t)) (ht : IsFileName t)
    (hdir : d.HasDirectory (parent ++ [t])) : d.Opens (pathOf (parent ++ [s])) (parent ++ [t]) := by
  have hnames : ∀ n ∈ parent ++ [s], IsFileName n := hd.isFileName (by simp [hlink])
  have hparents : ∀ ps, ps <+: parent → d.HasDirectory ps := fun ps hps =>
    hd.rooted.hasDirectory_of_prefix (hps.trans (List.prefix_append parent [s]))
      (fun h => by simpa [← h] using hps.length_le) (by simp [hlink])
  have hsteps : startOf d.workingDirectory (pathOf (parent ++ [s])).text = ([], parent ++ [s]) := by
    rw [startOf, pieces_pathOf (fun n hn => (hnames n hn).toIsOrdinary) (by simp)]
    cases parent <;> rfl
  have hname : startOf parent t = (parent, [t]) := by
    have hrelative := startOf_of_relative (Path.isAbsolute_eq_false ht.no_slash) parent
    rwa [Path.pieces_eq_singleton ht.no_slash] at hrelative
  have hfirst : d.Follows 0 [] parent parent := by
    have hordinary := fun n hn => hnames n (List.mem_append_left [s] hn)
    exact follows_names_of_directories (Path.moving_eq_self fun n hn => (hordinary n hn).toIsOrdinary)
      (fun n hn => (hordinary n hn).isName) fun ps hps => hparents ps hps
  have hlast : d.Follows 1 parent [s] (parent ++ [t]) := by
    refine .link (hparents parent List.prefix_rfl) (hnames s (by simp)).isName hlink ?_
    rw [hname]
    obtain ⟨m, hm⟩ := hdir
    exact .entry (hparents parent List.prefix_rfl) ht.isName hm (by simp) (.done 0 _)
  refine ⟨?_, hdir⟩
  rw [hsteps]
  exact (hfirst.append_add hlast).mono (by decide)

theorem SamePlace.grown (h : d.SamePlace p q) (hgrown : d.Grown d') : d'.SamePlace p q := by
  obtain ⟨l, hp, hq⟩ := h
  exact ⟨l, hp.grown hgrown, hq.grown hgrown⟩

/-- A file stays as it is when nothing is written where it lies. -/
theorem Built.get?_eq {m : ℕ} (h : Built made written d d') (hp : d.Leads p l)
    (hl : d.get? l = some (.file c m)) (hapart : ∀ q, written q → ¬ d'.SamePlace q p) :
    d'.get? l = some (.file c m) := by
  rcases h.changes l with hsame | hmade | ⟨-, q, hq, hleads⟩
  · rw [hsame, hl]
  · have habsent := hmade.absent
    simp [hl] at habsent
  · exact absurd ⟨l, hleads, hp.grown h.grown⟩ (hapart q hq)

theorem HoldsBytes.of_built (hp : d.HoldsBytes p b) (h : Built made written d d')
    (hapart : ∀ q, written q → ¬ d'.SamePlace q p) : d'.HoldsBytes p b := by
  obtain ⟨l, m, hleads, hl⟩ := hp
  exact ⟨l, m, hleads.grown h.grown, h.get?_eq hleads hl hapart⟩

theorem Built.read (h : Built made written d d') (hp : d.read p = .ok c)
    (hapart : ∀ q, written q → ¬ d'.SamePlace q p) : d'.read p = .ok c := by
  obtain ⟨l, m, hlocate, hl⟩ := read_eq_ok_iff.mp hp
  exact read_eq_ok_iff.mpr ⟨l, m, h.grown.locate hlocate, h.get?_eq (.of_locate hlocate) hl hapart⟩

theorem holdsBytes_of_writeFile (h : outcome (writeFile p b) d = (.ok u, d')) : d'.HoldsBytes p b := by
  have hgrown := (grows_writeFile p b).of_outcome h
  obtain ⟨l, htarget, hne, rfl⟩ := writeFile_eq_ok h
  have hput := get?_put d l (.file (.bytes b) (d.modeAt l)) hne
  refine ⟨l, _, ?_, hput⟩
  rw [Leads, hgrown.workingDirectory]
  exact writeTarget_leads htarget hgrown ⟨_, _, hput⟩

namespace WrittenInTurn

theorem refl (d : Disk) : WrittenInTurn [] d d := ⟨.refl d, by simp⟩

/-- Making directories and then writing a file. -/
theorem of_writeFile (hmake : Built (fun _ => True) (fun _ => False) d d')
    (h : outcome (writeFile p b) d' = (.ok u, d'')) : WrittenInTurn [⟨p, b⟩] d d'' := by
  refine ⟨?_, fun before w after heq _ => ?_⟩
  · have hwrite : Built (fun _ => True) (fun q => ∃ w ∈ [FileWrite.mk p b], q = w.path) d' d'' :=
      (built_writeFile b ⟨_, List.mem_singleton_self _, rfl⟩).of_outcome h
    exact (hmake.mono (fun _ => id) fun _ => False.elim).trans hwrite
  · obtain ⟨rfl, rfl, rfl⟩ : before = [] ∧ FileWrite.mk p b = w ∧ after = [] := by
      cases before with
      | nil => simpa using heq
      | cons v before => simp at heq
    exact holdsBytes_of_writeFile h

/-- Some files after others. -/
theorem append (h : WrittenInTurn ws d d') (h' : WrittenInTurn vs d' d'') :
    WrittenInTurn (ws ++ vs) d d'' := by
  refine ⟨?_, fun before w after heq hapart => ?_⟩
  · have hfirst := h.built.mono (fun _ => id) fun q ⟨w, hw, hq⟩ =>
      (⟨w, List.mem_append_left vs hw, hq⟩ : ∃ w ∈ ws ++ vs, q = w.path)
    have hrest := h'.built.mono (fun _ => id) fun q ⟨w, hw, hq⟩ =>
      (⟨w, List.mem_append_right ws hw, hq⟩ : ∃ w ∈ ws ++ vs, q = w.path)
    exact hfirst.trans hrest
  · obtain ⟨more, rfl, hvs⟩ | ⟨more, rfl, hws⟩ := List.append_eq_append_iff.mp heq
    · exact h'.holds more w after hvs hapart
    · cases more with
      | nil => exact h'.holds [] w after hws.symm hapart
      | cons x more =>
        obtain ⟨rfl, rfl⟩ := List.cons_eq_cons.mp hws
        -- the file holds its bytes when the others are written, and is not one of them
        have hfirst : d'.HoldsBytes w.path w.bytes := h.holds before w more rfl fun v hv hsame =>
          hapart v (List.mem_append_left vs hv) (hsame.grown h'.built.grown)
        refine hfirst.of_built h'.built ?_
        rintro q ⟨v, hv, rfl⟩
        exact hapart v (List.mem_append_right more hv)

end WrittenInTurn

end Disk

end ProtoForge.Files
