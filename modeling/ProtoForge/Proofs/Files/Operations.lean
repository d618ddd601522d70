import ProtoForge.Proofs.Files.Following

/-!
# File operations on trees

A tree is a disk without links on which everything lies in a directory. What
an operation does to a tree is said by what lies where before and after it, and
by the paths that name the locations it concerns.
-/
namespace ProtoForge.Files

/-- What lies where. -/
abbrev View := Location → Option Entry

/-- A file lies at a location. -/
def View.HasFile (v : View) (l : Location) : Prop := ∃ c m, v l = some (.file c m)

/-- An entry with a view of what it holds. -/
def Entry.mapContent (f : Content → Content) : Entry → Entry
  | .file c m => .file (f c) m
  | .directory m => .directory m
  | .link t => .link t

namespace Disk

variable {d e : Disk} {p q : Path} {l k : Location} {s : String} {slash : Bool}

theorem lookup_filter_ne {entries : List (Location × Entry)} (h : k ≠ l) :
    (entries.filter (·.1 ≠ l)).lookup k = entries.lookup k := by
  induction entries with
  | nil => rfl
  | cons x rest ih =>
    obtain ⟨j, y⟩ := x
    by_cases hj : j = l
    · have hkj : (k == j) = false := by simpa [hj] using h
      rw [List.filter_cons_of_neg (by simpa using hj), ih, List.lookup_cons, hkj]
    · rw [List.filter_cons_of_pos (by simpa using hj), List.lookup_cons, List.lookup_cons, ih]

/-- What a key is listed with is found if it is listed once. -/
theorem lookup_eq_some_of_mem {κ α : Type} [BEq κ] [LawfulBEq κ] {entries : List (κ × α)} {k : κ}
    {x : α} (hdistinct : (entries.map Prod.fst).Nodup) (h : (k, x) ∈ entries) :
    entries.lookup k = some x := by
  obtain ⟨before, after, rfl⟩ := List.append_of_mem h
  refine List.lookup_eq_some_iff.mpr ⟨before, after, rfl, fun y hy => ?_⟩
  rw [List.map_append, List.nodup_append] at hdistinct
  have hne := hdistinct.2.2 y.1 (List.mem_map_of_mem hy) k (by simp)
  simpa using hne.symm

theorem get?_put_eq (h : l ≠ []) (x : Entry) :
    (d.put l x).get? = Function.update d.get? l (some x) := by
  funext k
  by_cases hk : k = l
  · subst hk
    rw [get?_put d k x h, Function.update_self]
  · rw [Function.update_of_ne hk]
    by_cases hroot : k = []
    · simp [get?, hroot]
    · have hkl : (k == l) = false := by simpa using hk
      rw [get?, if_neg hroot, put, List.lookup_append, lookup_filter_ne hk, get?, if_neg hroot]
      simp [List.lookup_cons, hkl]

theorem get?_erase_eq (h : l ≠ []) : (d.erase l).get? = Function.update d.get? l none := by
  funext k
  by_cases hk : k = l
  · subst hk
    rw [Function.update_self, get?, if_neg h, erase, List.lookup_eq_none_iff]
    intro x hx
    have hne : x.1 ≠ k := by simpa using (List.mem_filter.mp hx).2
    simpa using hne.symm
  · rw [Function.update_of_ne hk]
    by_cases hroot : k = []
    · simp [get?, hroot]
    · rw [get?, if_neg hroot, erase, lookup_filter_ne hk, get?, if_neg hroot]

theorem hasChildren_eq_false_iff :
    d.hasChildren l = false ↔ ∀ k, l <+: k → k ≠ l → d.get? k = none := by
  rw [hasChildren, List.any_eq_false]
  constructor
  · intro h k hlk hne
    have hk : k ≠ [] := by
      rintro rfl
      exact hne (List.prefix_nil.mp hlk).symm
    rw [get?, if_neg hk, List.lookup_eq_none_iff]
    intro x hx
    by_contra hkx
    obtain rfl : k = x.1 := by simpa using hkx
    exact h x hx (by simpa using ⟨hlk, hne⟩)
  · intro h x hx hbelow
    obtain ⟨hlx, hne⟩ : l <+: x.1 ∧ x.1 ≠ l := by simpa using hbelow
    have hnone := h x.1 hlx hne
    have hx1 : x.1 ≠ [] := by
      intro hnil
      rw [hnil] at hlx hne
      exact hne (List.prefix_nil.mp hlx).symm
    rw [get?, if_neg hx1, List.lookup_eq_none_iff] at hnone
    simpa using hnone x hx

/-- A new entry comes to lie where its path names nothing yet. -/
theorem newEntry_eq_ok_iff :
    d.newEntry p = .ok l ↔ (∃ slash, d.Names p l slash) ∧ d.get? l = none := by
  constructor
  · intro h
    simp only [newEntry, throw_eq, pure_eq, error_bind] at h
    obtain ⟨⟨parent, last, slash⟩, hplace, h⟩ := bind_eq_ok.mp h
    cases last with
    | name s =>
      dsimp only at h
      split_ifs at h with hlong hsome
      · cases h
        exact ⟨⟨slash, parent, s, hplace, Nat.not_lt.mp hlong, rfl⟩, by simpa using hsome⟩
    | here => cases h
    | up => cases h
    | root => cases h
  · rintro ⟨⟨slash, parent, s, hplace, hsize, rfl⟩, hnone⟩
    refine bind_eq_ok.mpr ⟨_, hplace, ?_⟩
    dsimp only
    rw [if_neg (Nat.not_lt.mpr hsize), if_neg (by simp [hnone])]
    rfl

/-- What can be removed as a file is named by its path and is no directory. -/
theorem removable_of_names (hn : d.Names p l false) (hl : View.HasFile d.get? l) :
    d.removable p = .ok l := by
  obtain ⟨parent, s, hplace, -, rfl⟩ := hn
  obtain ⟨c, m, hl⟩ := hl
  refine bind_eq_ok.mpr ⟨_, hplace, ?_⟩
  simp [hl, pure, Except.pure]

theorem removable_of_absent (hn : d.Names p l slash) (hl : d.get? l = none) :
    d.removable p = .error .missing := by
  obtain ⟨parent, s, hplace, -, rfl⟩ := hn
  simp [removable, hplace, hl]

theorem removableDirectory_of_names (hn : d.Names p l slash) (hl : d.HasDirectory l)
    (hempty : d.hasChildren l = false) : d.removableDirectory p = .ok l := by
  obtain ⟨parent, s, hplace, -, rfl⟩ := hn
  obtain ⟨m, hl⟩ := hl
  refine bind_eq_ok.mpr ⟨_, hplace, ?_⟩
  simp [hl, hempty, pure, Except.pure]

theorem place_text {place : Place} (h : d.place p = .ok place) : checkText p.text = .ok () := by
  obtain ⟨⟨⟩, htext, -⟩ := bind_eq_ok.mp h
  exact htext

theorem not_contains_of_checkText (h : checkText p.text = .ok ()) :
    p.text.contains '\x00' = false := by
  rw [checkText] at h
  split_ifs at h with hnul
  simpa using hnul

/-- What is no directory moves between locations that paths name, unless a directory is in the
way. -/
theorem movable_of_entry (hp : d.Names p l false) (hq : d.Names q k false) {x : Entry}
    (hl : d.get? l = some x) (hx : x.isDirectory = false) (hk : ¬ d.HasDirectory k) :
    d.movable p q = .ok (l, k, x) := by
  obtain ⟨parent, s, hplace, -, rfl⟩ := hp
  obtain ⟨parent', t, hplace', hsize, rfl⟩ := hq
  have hnul := not_contains_of_checkText (place_text hplace')
  rw [movable, if_neg (by simp [hnul])]
  refine bind_eq_ok.mpr ⟨_, hplace, bind_eq_ok.mpr ⟨_, hplace', ?_⟩⟩
  -- the match on the goal falls through, as no directory is there
  have hgoal : ∀ m, d.get? (parent' ++ [t]) ≠ some (.directory m) := fun m hm => hk ⟨m, hm⟩
  cases x with
  | directory m => simp [Entry.isDirectory] at hx
  | file c m => simp [hl, Nat.not_lt.mpr hsize]
  | link target => simp [hl, Nat.not_lt.mpr hsize]

theorem movable_of_names (hp : d.Names p l false) (hq : d.Names q k false) {c : Content} {m : Nat}
    (hl : d.get? l = some (.file c m)) (hk : ¬ d.HasDirectory k) :
    d.movable p q = .ok (l, k, .file c m) :=
  movable_of_entry hp hq hl rfl hk

/-- What moves is no directory, and no directory is in its way. -/
theorem movable_spec {x : Entry} (h : d.movable p q = .ok (l, k, x)) :
    (∃ parent s, d.place p = .ok ⟨parent, .name s, false⟩ ∧ l = parent ++ [s]) ∧
      d.Names q k false ∧ d.get? l = some x ∧ x.isDirectory = false ∧ ¬ d.HasDirectory k := by
  simp only [movable, throw_eq, pure_eq, error_bind] at h
  split_ifs at h with hnul
  obtain ⟨⟨parent, last, slash⟩, hplace, htail⟩ := bind_eq_ok.mp h
  obtain ⟨⟨parent', last', slash'⟩, hplace', hmove⟩ := bind_eq_ok.mp htail
  clear h htail
  cases last with
  | here => cases hmove
  | up => cases hmove
  | root => cases hmove
  | name s =>
    cases last' with
    | here => cases hmove
    | up => cases hmove
    | root => cases hmove
    | name t =>
      cases hget : d.get? (parent ++ [s]) with
      | none => simp [hget] at hmove
      | some y =>
        have hy : y.isDirectory = false := by
          cases y with
          | directory m => simp [hget] at hmove
          | file c m => rfl
          | link target => rfl
        have hrest : ¬ maxName < Bytes.textSize t ∧ (slash || slash') = false ∧
            ¬ d.HasDirectory (parent' ++ [t]) ∧
            (parent ++ [s], parent' ++ [t], y) = (l, k, x) := by
          cases y with
          | directory m => simp [Entry.isDirectory] at hy
          | _ =>
            simp only [hget] at hmove
            split_ifs at hmove with hlong hslash
            split at hmove
            · cases hmove
            · rename_i hgoal
              refine ⟨hlong, by simpa using hslash, ?_, Except.ok.inj hmove⟩
              rintro ⟨m, hm⟩
              exact hgoal m hm
        obtain ⟨hlong, hslash, hk, hend⟩ := hrest
        obtain ⟨rfl, rfl⟩ : slash = false ∧ slash' = false := by simpa using hslash
        cases hend
        exact ⟨⟨parent, s, hplace, rfl⟩, ⟨parent', t, hplace', Nat.not_lt.mp hlong, rfl⟩, hget,
          hy, hk⟩

end Disk

section Outcomes

variable {d d' : Disk} {p q : Path} {l k : Location} {slash : Bool}

theorem outcome_inspect {α : Type} (f : Disk → Except Fault α) (d : Disk) :
    outcome (FileAction.inspect f) d = (f d, d) := by
  rw [FileAction.inspect, outcome_bind, outcome_get]
  dsimp only
  cases f d <;> rfl

theorem outcome_orFail {α : Type} (a : FileAction α) (f : Fault → Failure) (d : Disk) :
    outcome (a.orFail f) d =
      match outcome a d with
      | (.ok x, d') => (.ok x, d')
      | (.error e, d') => (.error (f e), d') := by
  change ((outcome a d).1.mapError f, (outcome a d).2) = _
  rcases outcome a d with ⟨r | r, d'⟩ <;> rfl

theorem outcome_orFail_eq_ok {α : Type} {a : FileAction α} {f : Fault → Failure} {x : α} :
    outcome (a.orFail f) d = (.ok x, d') ↔ outcome a d = (.ok x, d') := by
  rw [outcome_orFail]
  rcases outcome a d with ⟨e | y, d₁⟩
  · simp
  · simp

theorem outcome_runInspect {α : Type} (f : Disk → Except Failure α) (d : Disk) :
    outcome (RunAction.inspect f) d = (f d, d) := by
  rw [RunAction.inspect, outcome_bind, outcome_get]
  dsimp only
  cases f d <;> rfl

/-- An operation that first looks for its locations fails without a change, or goes on. -/
theorem outcome_inspect_bind {α β : Type} (f : Disk → Except Fault α) (g : α → FileAction β)
    (d : Disk) :
    outcome (FileAction.inspect f >>= g) d =
      match f d with
      | .ok a => outcome (g a) d
      | .error e => (.error e, d) := by
  rw [outcome_bind, outcome_inspect]
  cases f d <;> rfl

theorem outcome_makeDirectory (p : Path) (d : Disk) :
    outcome (makeDirectory p) d =
      match d.newEntry p with
      | .ok l => (.ok (), d.put l (.directory (d.inheritedMode l.dropLast)))
      | .error e => (.error e, d) := by
  rw [makeDirectory, outcome_inspect_bind]
  cases d.newEntry p <;> rfl

theorem outcome_removeFile (p : Path) (d : Disk) :
    outcome (removeFile p) d =
      match d.removable p with
      | .ok l => (.ok (), d.erase l)
      | .error e => (.error e, d) := by
  rw [removeFile, outcome_inspect_bind]
  cases d.removable p <;> rfl

theorem outcome_removeDirectory (p : Path) (d : Disk) :
    outcome (removeDirectory p) d =
      match d.removableDirectory p with
      | .ok l => (.ok (), d.erase l)
      | .error e => (.error e, d) := by
  rw [removeDirectory, outcome_inspect_bind]
  cases d.removableDirectory p <;> rfl

theorem outcome_moveFile (p q : Path) (d : Disk) :
    outcome (moveFile p q) d =
      match d.movable p q with
      | .ok (l, k, x) => (.ok (), if l = k then d else (d.erase l).put k x)
      | .error e => (.error e, d) := by
  rw [moveFile, outcome_inspect_bind]
  cases d.movable p q <;> rfl

theorem after_eq {α : Type} (a : FileAction α) (d : Disk) : a.after d = (outcome a d).2 := rfl

/-- Removing a file that a path names takes it away and nothing else. -/
theorem removeFile_after (hn : d.Names p l false) (hl : View.HasFile d.get? l) :
    (removeFile p).after d = d.erase l := by
  rw [after_eq, outcome_removeFile, Disk.removable_of_names hn hl]

theorem removeFile_after_of_absent (hn : d.Names p l slash) (hl : d.get? l = none) :
    (removeFile p).after d = d := by
  rw [after_eq, outcome_removeFile, Disk.removable_of_absent hn hl]

theorem removeDirectory_after (hn : d.Names p l slash) (hl : d.HasDirectory l)
    (hempty : d.hasChildren l = false) : (removeDirectory p).after d = d.erase l := by
  rw [after_eq, outcome_removeDirectory, Disk.removableDirectory_of_names hn hl hempty]

/-- Moving what is no directory to where no directory is. -/
theorem moveFile_after (hp : d.Names p l false) (hq : d.Names q k false) {x : Entry}
    (hl : d.get? l = some x) (hx : x.isDirectory = false) (hk : ¬ d.HasDirectory k)
    (hne : l ≠ k) : (moveFile p q).after d = (d.erase l).put k x := by
  rw [after_eq, outcome_moveFile, Disk.movable_of_entry hp hq hl hx hk]
  simp [hne]

end Outcomes

namespace Disk

variable {d e : Disk} {p : Path} {l k : Location} {s : String} {slash : Bool}

/-- Whatever has a name lies in a directory. -/
def Rooted (d : Disk) : Prop := ∀ l s, d.get? (l ++ [s]) ≠ none → d.HasDirectory l

/-- A tree of files and directories: there are no links, and whatever has a name lies in a
directory. -/
structure IsTree (d : Disk) : Prop where
  linkFree : d.LinkFree
  rooted : ∀ l s, d.get? (l ++ [s]) ≠ none → d.HasDirectory l

theorem hasDirectory_root (d : Disk) : d.HasDirectory [] := ⟨0o755, by simp [get?]⟩

theorem mem_entries_of_get? {x : Entry} (hl : l ≠ []) (hx : d.get? l = some x) :
    (l, x) ∈ d.entries := by
  rw [get?, if_neg hl] at hx
  obtain ⟨before, after, hsplit, -⟩ := List.lookup_eq_some_iff.mp hx
  rw [hsplit]
  simp

/-- Everything lies in a directory when each of the entries does. -/
theorem rooted_of_entries
    (h : ∀ x ∈ d.entries, (d.get? x.1.dropLast).any Entry.isDirectory = true) : d.Rooted := by
  intro l s hls
  obtain ⟨x, hx⟩ := Option.ne_none_iff_exists'.mp hls
  have hparent := h _ (mem_entries_of_get? (by simp) hx)
  rw [List.dropLast_concat] at hparent
  obtain ⟨y, hy, hkind⟩ := (Option.any_eq_true _ _).mp hparent
  cases y with
  | directory n => exact ⟨n, hy⟩
  | file c n => simp [Entry.isDirectory] at hkind
  | link t => simp [Entry.isDirectory] at hkind

/-- A disk is a tree when each of its entries is a file or a directory in a directory. -/
theorem isTree_of_entries
    (h : ∀ x ∈ d.entries, (x.2.isFile || x.2.isDirectory) = true ∧
      (d.get? x.1.dropLast).any Entry.isDirectory = true) : d.IsTree := by
  refine ⟨fun l t hl => ?_, rooted_of_entries fun x hx => (h x hx).2⟩
  by_cases hnil : l = []
  · simp [hnil, get?] at hl
  · have hkind := (h _ (mem_entries_of_get? hnil hl)).1
    simp [Entry.isFile, Entry.isDirectory] at hkind

theorem not_hasDirectory_of_absent (h : d.get? l = none) : ¬ d.HasDirectory l := by
  rintro ⟨n, hn⟩
  simp [h] at hn

namespace Rooted

/-- Above a directory there are directories. -/
theorem hasDirectory_dropLast (hd : d.Rooted) (hl : d.HasDirectory l) :
    d.HasDirectory l.dropLast := by
  rcases List.eq_nil_or_concat l with rfl | ⟨parent, s, rfl⟩
  · exact hl
  · obtain ⟨m, hm⟩ := hl
    rw [List.concat_eq_append] at hm ⊢
    rw [List.dropLast_concat]
    exact hd parent s (by simp [hm])

/-- All that lies above something is a directory. -/
theorem hasDirectory_of_prefix (hd : d.Rooted) (hlk : l <+: k) (hne : k ≠ l)
    (hk : d.get? k ≠ none) : d.HasDirectory l := by
  obtain ⟨t, rfl⟩ := hlk
  induction t using List.reverseRecOn with
  | nil => simp at hne
  | append_singleton t s ih =>
    have hdir : d.HasDirectory (l ++ t) := hd (l ++ t) s (by simpa using hk)
    by_cases ht : t = []
    · simpa [ht] using hdir
    · obtain ⟨m, hm⟩ := hdir
      exact ih (by simpa using ht) (by simp [hm])

/-- Nothing lies below what is not a directory. -/
theorem get?_eq_none_of_prefix (hd : d.Rooted) (hl : ¬ d.HasDirectory l) (hlk : l <+: k)
    (hne : k ≠ l) : d.get? k = none := by
  by_contra hk
  exact hl (hd.hasDirectory_of_prefix hlk hne hk)

/-- Where nothing lies, nothing lies below. -/
theorem absent_of_prefix (hd : d.Rooted) (hnone : d.get? l = none) (hlk : l <+: k) :
    d.get? k = none := by
  by_cases heq : k = l
  · rw [heq, hnone]
  · exact hd.get?_eq_none_of_prefix (not_hasDirectory_of_absent hnone) hlk heq

/-- Putting something into a directory, unless it takes the place of a directory. -/
theorem put (hd : d.Rooted) (hl : d.HasDirectory l) (hnot : ¬ d.HasDirectory (l ++ [s]))
    (x : Entry) : (d.put (l ++ [s]) x).Rooted := by
  have hget := get?_put_eq (d := d) (l := l ++ [s]) (by simp) x
  intro k u hk
  have hkeep : ∀ j, d.HasDirectory j → (d.put (l ++ [s]) x).HasDirectory j := by
    rintro j ⟨m, hm⟩
    have hj : j ≠ l ++ [s] := by
      rintro rfl
      exact hnot ⟨m, hm⟩
    exact ⟨m, by rw [hget, Function.update_of_ne hj, hm]⟩
  by_cases hku : k ++ [u] = l ++ [s]
  · obtain ⟨rfl, -⟩ := List.append_inj' hku rfl
    exact hkeep k hl
  · rw [hget, Function.update_of_ne hku] at hk
    exact hkeep k (hd k u hk)

/-- Taking something away that has nothing below it. -/
theorem erase (hd : d.Rooted) (hl : l ≠ []) (hempty : ∀ k, l <+: k → k ≠ l → d.get? k = none) :
    (d.erase l).Rooted := by
  have hget := get?_erase_eq (d := d) hl
  intro k u hk
  rw [hget] at hk
  have hku : k ++ [u] ≠ l := by
    intro h
    rw [h, Function.update_self] at hk
    exact hk rfl
  rw [Function.update_of_ne hku] at hk
  obtain ⟨m, hm⟩ := hd k u hk
  have hkl : k ≠ l := by
    rintro rfl
    exact hk (hempty _ (List.prefix_append _ _) (by simp))
  exact ⟨m, by rw [hget, Function.update_of_ne hkl, hm]⟩

end Rooted

/-- All that lies above something in a tree is a directory. -/
theorem IsTree.hasDirectory_of_prefix (hd : d.IsTree) (hlk : l <+: k) (hne : k ≠ l)
    (hk : d.get? k ≠ none) : d.HasDirectory l :=
  Rooted.hasDirectory_of_prefix hd.rooted hlk hne hk

theorem IsTree.get?_eq_none_of_prefix (hd : d.IsTree) (hl : ¬ d.HasDirectory l) (hlk : l <+: k)
    (hne : k ≠ l) : d.get? k = none :=
  Rooted.get?_eq_none_of_prefix hd.rooted hl hlk hne

/-- A tree stays one when something with nothing below it is taken away. -/
theorem IsTree.erase (hd : d.IsTree) (hl : l ≠ [])
    (hempty : ∀ k, l <+: k → k ≠ l → d.get? k = none) : (d.erase l).IsTree := by
  refine ⟨fun k t => ?_, Rooted.erase hd.rooted hl hempty⟩
  rw [get?_erase_eq hl]
  by_cases hk : k = l
  · subst hk
    simp
  · rw [Function.update_of_ne hk]
    exact hd.linkFree k t

theorem not_hasDirectory_of_hasFile (h : View.HasFile d.get? l) : ¬ d.HasDirectory l := by
  obtain ⟨c, m, hc⟩ := h
  rintro ⟨n, hn⟩
  simp [hn] at hc

theorem ne_nil_of_hasFile (h : View.HasFile d.get? l) : l ≠ [] := by
  rintro rfl
  exact not_hasDirectory_of_hasFile h (hasDirectory_root d)

theorem ne_nil_of_get?_eq_none (h : d.get? l = none) : l ≠ [] := by
  rintro rfl
  simp [get?] at h

theorem keeps_put (hl : l ≠ []) (hnot : ¬ d.HasDirectory l) (x : Entry) : d.Keeps (d.put l x) := by
  refine ⟨rfl, fun k m hk => ?_⟩
  rw [get?_put_eq hl, Function.update_of_ne, hk]
  rintro rfl
  exact hnot ⟨m, hk⟩

theorem keeps_erase (hl : l ≠ []) (hnot : ¬ d.HasDirectory l) : d.Keeps (d.erase l) := by
  refine ⟨rfl, fun k m hk => ?_⟩
  rw [get?_erase_eq hl, Function.update_of_ne, hk]
  rintro rfl
  exact hnot ⟨m, hk⟩

/-- Taking a file away. -/
theorem IsTree.eraseFile (hd : d.IsTree) (hl : View.HasFile d.get? l) :
    (d.erase l).IsTree ∧ d.Keeps (d.erase l) := by
  have hnot := not_hasDirectory_of_hasFile hl
  refine ⟨?_, keeps_erase (ne_nil_of_hasFile hl) hnot⟩
  exact hd.erase (ne_nil_of_hasFile hl) fun k hlk hne => hd.get?_eq_none_of_prefix hnot hlk hne

theorem isFile_iff : d.isFile p = true ↔ ∃ l, d.locate p true = .ok l ∧ View.HasFile d.get? l := by
  rw [isFile, status]
  cases hl : d.locate p true with
  | error e => simp [Except.toOption]
  | ok l =>
    cases hx : d.get? l with
    | none => simp [Except.toOption, hx, View.HasFile]
    | some x => cases x <;> simp [Except.toOption, hx, View.HasFile, Entry.isFile]

/-- Two disks on which like things lie at the same places: what the files hold is the same as far
as a view of contents shows. -/
structure Alike (f : Content → Content) (d e : Disk) : Prop where
  workingDirectory : e.workingDirectory = d.workingDirectory
  entries : ∀ l, (e.get? l).map (Entry.mapContent f) = (d.get? l).map (Entry.mapContent f)

/-- A step of a path, whatever files hold. -/
theorem descend_cons_mapContent (f : Content → Content) (links : ℕ) (l : Location) (s : String)
    (rest : List String) (followLast : Bool) :
    d.descend links l (s :: rest) followLast =
      match (d.get? l).map (Entry.mapContent f) with
      | some (.directory _) =>
          if Path.isIdle s then d.descend links l rest followLast
          else if s = ".." then d.descend links l.dropLast rest followLast
          else if maxName < Bytes.textSize s then .error .nameTooLong
          else
            match (d.get? (l ++ [s])).map (Entry.mapContent f) with
            | none => .error .missing
            | some (.link target) =>
                if rest.isEmpty && !followLast then .ok (l ++ [s])
                else
                  match links with
                  | 0 => .error .tooManyLinks
                  | links + 1 =>
                      d.descend links (startOf l target).1 ((startOf l target).2 ++ rest) followLast
            | some _ => d.descend links (l ++ [s]) rest followLast
      | _ => .error .notDirectory := by
  rw [descend]
  cases d.get? l with
  | none => rfl
  | some x =>
    cases x with
    | file c m => rfl
    | link t => rfl
    | directory m =>
      cases d.get? (l ++ [s]) with
      | none => rfl
      | some y => cases y <;> rfl

namespace Alike

variable {f : Content → Content}

/-- Paths lead to the same on both disks. -/
theorem descend_eq (h : d.Alike f e) (links : ℕ) (l : Location) (steps : List String)
    (followLast : Bool) :
    e.descend links l steps followLast = d.descend links l steps followLast := by
  -- a link uses up one of the links that may be followed, any other step one of the steps
  induction links using Nat.strong_induction_on generalizing l steps with
  | _ links ihLinks =>
    induction steps generalizing l with
    | nil => rw [descend, descend]
    | cons s rest ih =>
      conv_lhs => rw [descend_cons_mapContent f, h.entries, h.entries]
      conv_rhs => rw [descend_cons_mapContent f]
      simp only [ih]
      cases links with
      | zero => rfl
      | succ n => simp only [ihLinks n (Nat.lt_succ_self n)]

theorem locate_eq (h : d.Alike f e) (p : Path) (followLast : Bool) :
    e.locate p followLast = d.locate p followLast := by
  simp only [locate, h.workingDirectory, h.descend_eq]

end Alike

/-- Two disks on which the same things lie at the same places. -/
structure SameTree (d e : Disk) : Prop where
  workingDirectory : e.workingDirectory = d.workingDirectory
  entries : e.get? = d.get?

theorem SameTree.refl (d : Disk) : d.SameTree d := ⟨rfl, rfl⟩

theorem SameTree.alike (h : d.SameTree e) (f : Content → Content) : d.Alike f e :=
  ⟨h.workingDirectory, fun l => by rw [h.entries]⟩

theorem SameTree.keeps (h : d.SameTree e) : d.Keeps e :=
  ⟨h.workingDirectory, fun l m hl => by rw [h.entries, hl]⟩

theorem SameTree.rooted (h : d.SameTree e) (hd : d.Rooted) : e.Rooted := by
  intro l s hl
  rw [h.entries] at hl
  exact h.keeps.directories l (hd l s hl)

theorem SameTree.status_eq (h : d.SameTree e) (p : Path) : e.status p = d.status p := by
  simp only [status, (h.alike id).locate_eq, h.entries]

/-- Taking away what was put where nothing was. -/
theorem sameTree_erase_put (hl : d.get? l = none) (x : Entry) :
    d.SameTree ((d.put l x).erase l) := by
  have hne := ne_nil_of_get?_eq_none hl
  refine ⟨rfl, ?_⟩
  rw [get?_erase_eq hne, get?_put_eq hne, Function.update_idem, ← hl, Function.update_eq_self]

end Disk

end ProtoForge.Files
