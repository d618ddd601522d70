import ProtoForge.Proofs.Digest.Framing
import ProtoForge.Proofs.Staging.Shape

/-!
# Digests of views

The files of a view ascend by name, however it came about. So the stream that
is hashed for a view tells which names hold which bytes, and nothing else: not
the order of insertion, nor permissions, nor directories.
-/
namespace ProtoForge

namespace OrderedMap

variable {α : Type} {m m' : OrderedMap α} {k : String} {v : α} {e : String × α}

/-- The entries ascend by key, so no key has two of them. -/
def IsAscending (m : OrderedMap α) : Prop := m.Pairwise fun e e' => e.1 < e'.1

theorem mem_insert (h : e ∈ m.insert k v) : e = (k, v) ∨ e ∈ m := by
  induction m with
  | nil => exact Or.inl (List.mem_singleton.mp h)
  | cons e' rest ih =>
    rw [insert] at h
    split_ifs at h
    · exact (List.mem_cons.mp h).imp_right (List.mem_cons_of_mem _)
    · exact List.mem_cons.mp h
    · rcases List.mem_cons.mp h with rfl | h
      · exact Or.inr List.mem_cons_self
      · exact (ih h).imp_right (List.mem_cons_of_mem _)

theorem IsAscending.insert (h : m.IsAscending) (k : String) (v : α) :
    (m.insert k v).IsAscending := by
  induction m with
  | nil => exact List.pairwise_singleton _ _
  | cons e rest ih =>
    obtain ⟨hfirst, hrest⟩ := List.pairwise_cons.mp h
    rw [OrderedMap.insert]
    split_ifs with heq hlt
    · subst heq
      exact List.pairwise_cons.mpr ⟨hfirst, hrest⟩
    · refine List.pairwise_cons.mpr ⟨?_, h⟩
      exact List.forall_mem_cons.mpr ⟨hlt, fun e' he' => hlt.trans (hfirst e' he')⟩
    · refine List.pairwise_cons.mpr ⟨fun e' he' => ?_, ih hrest⟩
      rcases mem_insert he' with rfl | he'
      · exact lt_of_le_of_ne (not_lt.mp hlt) (Ne.symm heq)
      · exact hfirst e' he'

/-- A key before all keys of a map has no value. -/
theorem get?_eq_none_of_lt (h : ∀ e ∈ m, k < e.1) : m.get? k = none := by
  refine List.lookup_eq_none_iff.mpr fun e he => ?_
  simpa using (h e he).ne

theorem get?_cons (e : String × α) (m : OrderedMap α) (k : String) :
    OrderedMap.get? (e :: m) k = if k = e.1 then some e.2 else m.get? k := by
  obtain ⟨k', v⟩ := e
  by_cases hk : k = k'
  · simp [get?, hk]
  · have hne : (k == k') = false := by simpa using hk
    simp [get?, List.lookup_cons, hne, hk]

/-- Two maps that answer alike have the same entries. -/
theorem IsAscending.ext (h : m.IsAscending) (h' : m'.IsAscending)
    (hget : ∀ k, m.get? k = m'.get? k) : m = m' := by
  induction m generalizing m' with
  | nil =>
    cases m' with
    | nil => rfl
    | cons e' rest' =>
      have hself := hget e'.1
      rw [get?_cons, if_pos rfl] at hself
      cases hself
  | cons e rest ih =>
    obtain ⟨hfirst, hrest⟩ := List.pairwise_cons.mp h
    have hself : m'.get? e.1 = some e.2 := by rw [← hget, get?_cons, if_pos rfl]
    cases m' with
    | nil => cases hself
    | cons e' rest' =>
      obtain ⟨hfirst', hrest'⟩ := List.pairwise_cons.mp h'
      have hself' : OrderedMap.get? (e :: rest) e'.1 = some e'.2 := by
        rw [hget, get?_cons, if_pos rfl]
      -- the smaller one of two different first keys has a value in one map only
      have hkey : e.1 = e'.1 := by
        rcases lt_trichotomy e.1 e'.1 with hlt | heq | hlt
        · have hnone := get?_eq_none_of_lt (List.forall_mem_cons.mpr
            ⟨hlt, fun e'' he'' => hlt.trans (hfirst' e'' he'')⟩)
          rw [hself] at hnone
          cases hnone
        · exact heq
        · have hnone := get?_eq_none_of_lt (List.forall_mem_cons.mpr
            ⟨hlt, fun e'' he'' => hlt.trans (hfirst e'' he'')⟩)
          rw [hself'] at hnone
          cases hnone
      rw [get?_cons, if_pos hkey] at hself
      obtain rfl : e = e' := Prod.ext hkey (Option.some.inj hself).symm
      rw [ih hrest hrest' fun k => ?_]
      by_cases hk : k = e.1
      · rw [hk, get?_eq_none_of_lt hfirst, get?_eq_none_of_lt hfirst']
      · have hrestget := hget k
        rwa [get?_cons, get?_cons, if_neg hk, if_neg hk] at hrestget

end OrderedMap

namespace Staging

open Files Sources

namespace View

/-- A view that was put together from files and directories, in any order. -/
inductive Assembled : View → Prop
  | empty : Assembled {}
  | addFile {v : View} (name : String) (file : StagedFile) :
      Assembled v → Assembled (v.addFile name file)
  | addDirectory {v : View} (name : String) (mode : Option Nat) :
      Assembled v → Assembled (v.addDirectory name mode)

variable {v v' : View} {name : String}

theorem files_addFile (v : View) (name : String) (file : StagedFile) :
    (v.addFile name file).files = v.files.insert name file := by
  rw [addFile]
  generalize parentNames name = parents
  induction parents generalizing v with
  | nil => rfl
  | cons dir parents ih => exact ih (v.addDirectory dir none)

/-- The files of a view ascend by name, in whatever order they were added. -/
theorem Assembled.isAscending (h : v.Assembled) : v.files.IsAscending := by
  induction h with
  | empty => exact List.Pairwise.nil
  | addFile name file _ ih =>
    rw [files_addFile]
    exact ih.insert name file
  | addDirectory name mode _ ih => exact ih

theorem get?_parts (v : View) (name : String) :
    OrderedMap.get? v.parts name = (v.get? name).map (·.bytes) := by
  rw [parts, get?]
  induction v.files with
  | nil => rfl
  | cons e rest ih =>
    rw [List.map_cons, OrderedMap.get?_cons, OrderedMap.get?_cons, ih]
    split_ifs <;> rfl

/-- Two views have the same parts if the same names have the same bytes. -/
theorem parts_eq_iff (h : v.files.IsAscending) (h' : v'.files.IsAscending) :
    v.parts = v'.parts ↔ ∀ name, (v.get? name).map (·.bytes) = (v'.get? name).map (·.bytes) := by
  simp only [← get?_parts]
  constructor
  · intro heq name
    rw [heq]
  · intro hget
    exact OrderedMap.IsAscending.ext (List.pairwise_map.mpr h) (List.pairwise_map.mpr h') hget

end View

variable {d : Disk} {includes imports : IncludeDirectories} {roots : List SchemaFile} {s s' : Staged}

/-- What every round of a loop keeps holds after the loop. -/
theorem foldlM_keeps {α β ε : Type} {P : β → Prop} {f : β → α → Except ε β}
    (hstep : ∀ b a b', P b → f b a = .ok b' → P b') {xs : List α} {b b' : β} (hb : P b)
    (h : xs.foldlM f b = .ok b') : P b' := by
  induction xs generalizing b with
  | nil => exact Except.ok.inj h ▸ hb
  | cons x xs ih =>
    obtain ⟨b₁, hfirst, hrest⟩ := Disk.bind_eq_ok.mp h
    exact ih (hstep b x b₁ hb hfirst) hrest

theorem addEntry_assembled (hs : s.view.Assembled) (dir : Path) (e : WalkEntry) :
    (Staged.addEntry dir s e).view.Assembled := by
  rw [Staged.addEntry]
  cases e.entry with
  | link t => exact hs
  | directory mode =>
    dsimp only
    split_ifs
    · exact hs
    · exact hs.addDirectory _ _
  | file content mode =>
    dsimp only
    split_ifs
    · exact hs
    · split
      · split_ifs
        · exact hs
        · exact hs
      · exact hs.addFile _ _

theorem addRoot_assembled {root : SchemaFile} (hs : s.view.Assembled)
    (h : s.addRoot d includes root = .ok s') : s'.view.Assembled := by
  rw [Staged.addRoot] at h
  split at h
  · obtain rfl := Except.ok.inj h
    rwa [Staged.view_addRootName]
  · obtain ⟨content, -, h⟩ := Disk.bind_eq_ok.mp h
    obtain rfl := Except.ok.inj h
    rw [Staged.view_addRootName, Staged.view_report]
    split
    · split_ifs
      · exact hs
      · exact hs
    · exact hs.addFile _ _

/-- Every staged view was put together from files and directories. -/
theorem stage_assembled (h : stage d includes imports roots = .ok s) : s.view.Assembled := by
  obtain ⟨laid, hlaid, hroots⟩ := Disk.bind_eq_ok.mp h
  have hview : laid.view.Assembled := by
    refine foldlM_keeps (P := fun s => s.view.Assembled) (fun s dir s' hs h => ?_) .empty hlaid
    obtain ⟨entries, -, h⟩ := Disk.bind_eq_ok.mp h
    obtain rfl := Except.ok.inj h
    exact List.foldlRecOn (motive := fun s : Staged => s.view.Assembled) entries _ hs
      fun s hs e _ => addEntry_assembled hs dir e
  exact foldlM_keeps (P := fun s => s.view.Assembled) (fun s root s' hs h => addRoot_assembled hs h)
    hview hroots

/-- The stream of named parts tells the parts. So the stream of a view, which however it came about
has its files in one order, tells the names of its files and their bytes, and these tell the
stream; every staged view is such a view. -/
theorem framed_parts_iff :
    (∀ xs ys, Digest.IsShort xs → Digest.IsShort ys → Digest.framed xs = Digest.framed ys →
        xs = ys) ∧
      (∀ v v' : View, v.Assembled → v'.Assembled → Digest.IsShort v.parts →
        Digest.IsShort v'.parts →
        (Digest.framed v.parts = Digest.framed v'.parts ↔
          ∀ name, (v.get? name).map (·.bytes) = (v'.get? name).map (·.bytes))) ∧
      ∀ d includes imports roots s, stage d includes imports roots = .ok s → s.view.Assembled := by
  refine ⟨fun xs ys hx hy => Digest.framed_inj hx hy, fun v v' hv hv' hshort hshort' => ?_,
    fun d includes imports roots s => stage_assembled⟩
  rw [← View.parts_eq_iff hv.isAscending hv'.isAscending]
  constructor
  · exact Digest.framed_inj hshort hshort'
  · intro hparts
    rw [hparts]

/-- Two files and a directory beside them. -/
def plainView : View :=
  ((({} : View).addFile "b/x" ⟨[1], some 0o644⟩).addFile "a" ⟨[2], none⟩).addDirectory "c" none

/-- The same files, added the other way round and with other permissions; no directory. -/
def turnedView : View := (({} : View).addFile "a" ⟨[2], some 0o600⟩).addFile "b/x" ⟨[1], none⟩

/-- A byte that moves to the neighbour shows in the stream. The order in which files were added,
permissions and directories do not. -/
theorem stream_shows_contents :
    Digest.IsShort [("a", [120, 121]), ("b", [122])] ∧
      Digest.IsShort [("a", [120]), ("b", [121, 122])] ∧
      Digest.framed [("a", [120, 121]), ("b", [122])] ≠
        Digest.framed [("a", [120]), ("b", [121, 122])] ∧
      plainView.Assembled ∧ turnedView.Assembled ∧
      Digest.IsShort plainView.parts ∧ Digest.IsShort turnedView.parts ∧
      Digest.framed plainView.parts = Digest.framed turnedView.parts ∧
      ∃ s, stage layeredDisk ⟨[⟨"/a"⟩]⟩ ⟨[⟨"/b"⟩]⟩ [] = .ok s ∧ s.view.Assembled := by
  obtain ⟨hstreams, hviews, hstaged⟩ := framed_parts_iff
  have hx : Digest.IsShort [("a", [120, 121]), ("b", [122])] := by decide +kernel
  have hy : Digest.IsShort [("a", [120]), ("b", [121, 122])] := by decide +kernel
  have hplain : plainView.Assembled :=
    ((View.Assembled.empty.addFile _ _).addFile _ _).addDirectory _ _
  have hturned : turnedView.Assembled := (View.Assembled.empty.addFile _ _).addFile _ _
  have hparts : plainView.parts = [("a", [2]), ("b/x", [1])] := by cbv
  have hparts' : turnedView.parts = [("a", [2]), ("b/x", [1])] := by cbv
  have hshort : Digest.IsShort [("a", [2]), ("b/x", [1])] := by decide +kernel
  obtain ⟨s, hstage⟩ : ∃ s, stage layeredDisk ⟨[⟨"/a"⟩]⟩ ⟨[⟨"/b"⟩]⟩ [] = .ok s := ⟨_, by cbv⟩
  refine ⟨hx, hy, fun h => ?_, hplain, hturned, ?_, ?_, ?_, s, hstage, hstaged _ _ _ _ _ hstage⟩
  · simpa using hstreams _ _ hx hy h
  · rwa [hparts]
  · rwa [hparts']
  · refine (hviews _ _ hplain hturned (by rwa [hparts]) (by rwa [hparts'])).mpr fun name => ?_
    rw [← View.get?_parts, ← View.get?_parts, hparts, hparts']

end Staging

end ProtoForge
