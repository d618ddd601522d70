import ProtoForge.Proofs.Files.Operations
import ProtoForge.Proofs.Generation.OutputPath

/-!
# Where generated files lie

On a disk without links a path in normal form, seen from a directory, leads
to the names of the path below one location that the directory alone
determines. So different paths lead to different places.
-/
namespace ProtoForge

namespace Path

variable {p q : Path} {base : Files.Location} {moves : List String}

theorem step_injective : Function.Injective step := by
  intro s t h
  rw [step, step] at h
  split_ifs at h with hs ht ht
  · rw [hs, ht]
  · simpa using h

/-- The start of a path and the steps after it are not confused. -/
theorem eq_of_components_eq {a b : PathStart} {xs ys : List String}
    (h : a.components ++ xs.map step = b.components ++ ys.map step) : a = b ∧ xs = ys := by
  have hstep : ∀ s, step s ≠ .root ∧ step s ≠ .here := by
    intro s
    rw [step]
    split_ifs <;> simp
  have hhead : ∀ (zs : List String) c, (zs.map step).head? = some c → c ≠ .root ∧ c ≠ .here := by
    rintro (_ | ⟨z, zs⟩) c hc
    · simp at hc
    · obtain rfl : step z = c := by simpa using hc
      exact hstep z
  cases a <;> cases b <;> simp only [PathStart.components, List.nil_append, List.singleton_append,
    List.cons.injEq, reduceCtorEq, true_and, false_and] at h
  case root.root => exact ⟨rfl, List.map_injective_iff.mpr step_injective h⟩
  case here.here => exact ⟨rfl, List.map_injective_iff.mpr step_injective h⟩
  case plain.plain => exact ⟨rfl, List.map_injective_iff.mpr step_injective h⟩
  case root.plain => exact absurd rfl (hhead ys .root (by rw [← h]; rfl)).1
  case here.plain => exact absurd rfl (hhead ys .here (by rw [← h]; rfl)).2
  case plain.root => exact absurd rfl (hhead xs .root (by rw [h]; rfl)).1
  case plain.here => exact absurd rfl (hhead xs .here (by rw [h]; rfl)).2

/-- A path that goes on where another one ends starts where that one does and makes its moves
first. -/
theorem startOf_of_append (hq : q.components = p.components ++ moves.map step)
    (base : Files.Location) :
    (Files.Disk.startOf base q.text).1 = (Files.Disk.startOf base p.text).1 ∧
      moving (Files.Disk.startOf base q.text).2 =
        moving (Files.Disk.startOf base p.text).2 ++ moves := by
  rw [components_eq, components_eq, List.append_assoc, ← List.map_append] at hq
  obtain ⟨hstart, hmoves⟩ := eq_of_components_eq hq
  obtain ⟨hp, hpm⟩ := Files.Disk.startOf_moving base p
  obtain ⟨hqs, hqm⟩ := Files.Disk.startOf_moving base q
  exact ⟨by rw [hqs, hp, hstart], by rw [hqm, hpm, hmoves]⟩

/-- Paths with the same components start in the same place and make the same moves. -/
theorem startOf_of_same (h : p.same q = true) (base : Files.Location) :
    (Files.Disk.startOf base p.text).1 = (Files.Disk.startOf base q.text).1 ∧
      moving (Files.Disk.startOf base p.text).2 = moving (Files.Disk.startOf base q.text).2 := by
  rw [same, beq_iff_eq] at h
  have hmoves : p.components = q.components ++ ([] : List String).map step := by
    rw [h, List.map_nil, List.append_nil]
  simpa using startOf_of_append hmoves base

end Path

namespace Files.Disk

variable {d : Disk} {p q : Path} {l k m : Location} {steps names : List String}

/-- Leaving out the steps that do not move does not change where a path leads. -/
theorem follow_moving_of_follow (h : d.follow l steps = .ok k) :
    d.follow l (Path.moving steps) = .ok k := by
  induction steps generalizing l with
  | nil => exact h
  | cons s rest ih =>
    obtain ⟨m, hm, hrest⟩ := follow_cons_eq_ok.mp h
    by_cases hidle : Path.isIdle s = true
    · rw [Path.moving_cons_of_idle hidle, ((stepFrom_idle_eq_ok hidle).mp hm).2]
      exact ih hrest
    · rw [Path.moving_cons_of_not_idle (by simpa using hidle)]
      exact follow_cons_eq_ok.mpr ⟨m, hm, ih hrest⟩

/-- Paths with the same components lead to the same place. -/
theorem locate_of_same (hd : d.LinkFree) (h : p.same q = true) {followLast : Bool}
    (hp : d.locate p followLast = .ok l) (hq : d.locate q followLast = .ok k) : l = k := by
  obtain ⟨hstart, hmoves⟩ := Path.startOf_of_same h d.workingDirectory
  have hp' := follow_moving_of_follow ((locate_eq_ok_iff hd).mp hp).2
  have hq' := follow_moving_of_follow ((locate_eq_ok_iff hd).mp hq).2
  rw [hstart, hmoves, hq'] at hp'
  exact (Except.ok.inj hp').symm

end Files.Disk

namespace Generation

open Files Files.Disk

variable {d : Disk} {dir : Path} {l m : Location} {names : List String} {path path' : String}

/-- Plain names are followed one below the other. -/
theorem follow_names (hnames : ∀ s ∈ names, IsPlainName s) (h : d.follow m names = .ok l) :
    l = m ++ names := by
  induction names generalizing m with
  | nil => simpa using h.symm
  | cons s rest ih =>
    obtain ⟨k, hk, hrest⟩ := follow_cons_eq_ok.mp h
    have hs := hnames s List.mem_cons_self
    obtain ⟨-, hidle | hup | hname⟩ := stepFrom_eq_ok.mp hk
    · simp [Path.isIdle, hs.ne_empty, hs.ne_dot] at hidle
    · exact absurd hup.1 hs.ne_up
    · obtain rfl := hname.2.2.2.2
      rw [ih (fun t ht => hnames t (List.mem_cons_of_mem s ht)) hrest, List.append_assoc,
        List.singleton_append]

theorem isAbsolute_ofPieces (hne : names ≠ []) (hnames : ∀ s ∈ names, IsPlainName s) :
    Path.isAbsolute ⟨Path.ofPieces names⟩ = false := by
  rw [Path.isAbsolute, String.startsWith_string_eq_false_iff]
  rintro ⟨rest, hrest⟩
  have htext : Path.ofPieces names = "" ++ "/" ++ String.ofList rest := by
    rw [← String.toList_inj, ← hrest]
    simp
  have hpieces := Path.pieces_append "" (String.ofList rest)
  rw [← htext, Path.pieces_ofPieces (fun s hs => (hnames s hs).no_slash) hne,
    Path.pieces_eq_singleton (s := "") (by decide)] at hpieces
  exact (hnames "" (by rw [hpieces]; exact List.mem_cons_self)).ne_empty rfl

/-- A path in normal form adds its names to the pieces of a directory. -/
theorem pieces_join (dir : Path) :
    ∃ before, ∀ names, names ≠ [] → (∀ s ∈ names, IsPlainName s) →
      Path.pieces (dir.join ⟨Path.ofPieces names⟩).text = before ++ names := by
  have hpieces : ∀ names, names ≠ [] → (∀ s ∈ names, IsPlainName s) →
      Path.pieces (Path.ofPieces names) = names := fun names hne hnames =>
    Path.pieces_ofPieces (fun s hs => (hnames s hs).no_slash) hne
  by_cases hempty : dir.text = ""
  · refine ⟨[], fun names hne hnames => ?_⟩
    rw [Path.join, if_neg (by simp [isAbsolute_ofPieces hne hnames]), if_pos (by simp [hempty]),
      hempty, String.empty_append, hpieces names hne hnames, List.nil_append]
  by_cases hend : dir.text.endsWith "/" = true
  · obtain ⟨u, hu⟩ := endsWith_iff.mp hend
    refine ⟨Path.pieces u, fun names hne hnames => ?_⟩
    rw [Path.join, if_neg (by simp [isAbsolute_ofPieces hne hnames]), if_pos (by simp [hend]), hu,
      Path.pieces_append, hpieces names hne hnames]
  · refine ⟨Path.pieces dir.text, fun names hne hnames => ?_⟩
    rw [Path.join, if_neg (by simp [isAbsolute_ofPieces hne hnames]),
      if_neg (by simp [hempty, hend]), Path.pieces_append, hpieces names hne hnames]

/-- A directory determines where following a path in normal form begins. -/
theorem startOf_join (base : Location) (dir : Path) :
    ∃ start before, ∀ names, names ≠ [] → (∀ s ∈ names, IsPlainName s) →
      startOf base (dir.join ⟨Path.ofPieces names⟩).text = (start, before ++ names) := by
  obtain ⟨before, hbefore⟩ := pieces_join dir
  by_cases hroot : before.head? = some ""
  · obtain ⟨rest, rfl⟩ : ∃ rest, before = "" :: rest := by
      cases before with
      | nil => simp at hroot
      | cons x rest => exact ⟨rest, by simpa using hroot⟩
    refine ⟨[], rest, fun names hne hnames => ?_⟩
    rw [startOf, hbefore names hne hnames]
    obtain ⟨x, xs, hxs⟩ := List.exists_cons_of_ne_nil (List.append_ne_nil_of_right_ne_nil rest hne)
    rw [List.cons_append, hxs]
    rfl
  · refine ⟨base, before, fun names hne hnames => ?_⟩
    rw [startOf, hbefore names hne hnames]
    split
    · rename_i b rest heq
      cases before with
      | nil => exact absurd rfl (hnames "" (by rw [← List.nil_append names, heq]; simp)).ne_empty
      | cons x xs => simp_all
    · rfl

/-- Different paths in normal form lead to different places below a directory. -/
theorem locate_join_injective (hd : d.LinkFree) {followLast : Bool} (hp : IsNormal path)
    (hp' : IsNormal path') (h : d.locate (dir.join ⟨path⟩) followLast = .ok l)
    (h' : d.locate (dir.join ⟨path'⟩) followLast = .ok l) : path = path' := by
  obtain ⟨names, hne, hnames, rfl⟩ := hp
  obtain ⟨names', hne', hnames', rfl⟩ := hp'
  obtain ⟨start, before, hstart⟩ := startOf_join d.workingDirectory dir
  have hfollow := ((locate_eq_ok_iff hd).mp h).2
  have hfollow' := ((locate_eq_ok_iff hd).mp h').2
  rw [hstart names hne hnames, follow_append_eq_ok] at hfollow
  rw [hstart names' hne' hnames', follow_append_eq_ok] at hfollow'
  obtain ⟨m, hm, hrest⟩ := hfollow
  obtain ⟨m', hm', hrest'⟩ := hfollow'
  obtain rfl : m = m' := by simpa [hm] using hm'
  have heq := (follow_names hnames hrest).symm.trans (follow_names hnames' hrest')
  rw [List.append_cancel_left heq]

end Generation

end ProtoForge
