import ProtoForge.Files.Walk
import ProtoForge.Proofs.Files.Components
import Mathlib.Data.String.Basic

/-!
# Walks over directories

On a disk as machines have them a walk meets every entry below a directory
once, a directory before what it holds.
-/
namespace ProtoForge.Files.Disk

/-- A name that an entry of a directory can have. -/
structure IsFileName (s : String) : Prop extends Path.IsOrdinary s where
  short : Bytes.textSize s ≤ maxName

theorem IsFileName.isName {s : String} (h : IsFileName s) : IsName s := ⟨h.moves, h.ne_up, h.short⟩

instance : DecidablePred IsFileName := fun s =>
  decidable_of_iff
    (Path.isIdle s = false ∧ s ≠ ".." ∧ '/' ∉ s.toList ∧ Bytes.textSize s ≤ maxName)
    ⟨fun ⟨h₁, h₂, h₃, h₄⟩ => ⟨⟨h₁, h₂, h₃⟩, h₄⟩, fun h => ⟨h.moves, h.ne_up, h.no_slash, h.short⟩⟩

/-- A disk as machines have them: no location has two entries, whatever has a name lies in a
directory, and names are legal. -/
structure IsProper (d : Disk) : Prop where
  distinct : (d.entries.map (·.1)).Nodup
  rooted : d.Rooted
  legal : ∀ e ∈ d.entries, ∀ s ∈ e.1, IsFileName s

variable {d : Disk} {l k : Location} {x : Entry} {p root : Path} {names ps qs rest steps : List String}
  {entries : List WalkEntry}

/-- A disk is proper if its entries show it. -/
theorem isProper_of_entries (hdistinct : (d.entries.map (·.1)).Nodup)
    (h : ∀ e ∈ d.entries, (d.get? e.1.dropLast).any Entry.isDirectory = true ∧
      ∀ s ∈ e.1, IsFileName s) : d.IsProper :=
  ⟨hdistinct, rooted_of_entries fun e he => (h e he).1, fun e he => (h e he).2⟩

namespace IsProper

/-- What lies at a location is its only entry. -/
theorem get?_eq_some_iff (hd : d.IsProper) (hl : l ≠ []) :
    d.get? l = some x ↔ (l, x) ∈ d.entries := by
  refine ⟨mem_entries_of_get? hl, fun h => ?_⟩
  rw [get?, if_neg hl]
  exact lookup_eq_some_of_mem hd.distinct h

/-- Locations of entries consist of legal names. -/
theorem isFileName (hd : d.IsProper) (hx : d.get? l ≠ none) : ∀ s ∈ l, IsFileName s := by
  by_cases hl : l = []
  · simp [hl]
  · obtain ⟨x, hx⟩ := Option.ne_none_iff_exists'.mp hx
    exact hd.legal (l, x) (mem_entries_of_get? hl hx)

theorem isFileName_of_below (hd : d.IsProper) (hx : d.get? (l ++ names) = some x) :
    ∀ s ∈ names, IsFileName s := fun s hs =>
  hd.isFileName (by simp [hx]) s (List.mem_append_right l hs)

end IsProper

theorem namesLe_total : ∀ ps qs : List String, (namesLe ps qs || namesLe qs ps) = true
  | [], qs => by simp [namesLe]
  | _ :: _, [] => by simp [namesLe]
  | a :: ps, b :: qs => by
      by_cases hab : a = b
      · simpa [namesLe, hab] using namesLe_total ps qs
      · have hle := String.le_total a b
        simpa [namesLe, hab, Ne.symm hab] using hle

theorem namesLe_trans : ∀ ps qs rs : List String, namesLe ps qs = true → namesLe qs rs = true →
    namesLe ps rs = true
  | [], _, _, _, _ => by simp [namesLe]
  | _ :: _, [], _, h, _ => by simp [namesLe] at h
  | _ :: _, _ :: _, [], _, h => by simp [namesLe] at h
  | a :: ps, b :: qs, c :: rs, hab, hbc => by
      simp only [namesLe] at hab hbc ⊢
      by_cases h₁ : a = b
      · subst h₁
        by_cases h₂ : a = c
        · simp only [h₂, if_true] at hab hbc ⊢
          exact namesLe_trans ps qs rs hab hbc
        · simpa [h₂] using hbc
      · by_cases h₂ : b = c
        · subst h₂
          simpa [h₁] using hab
        · simp only [h₁, h₂, if_false, decide_eq_true_eq] at hab hbc
          have hne : a ≠ c := by
            rintro rfl
            exact h₁ (String.le_antisymm hab hbc)
          simpa [hne] using String.le_trans hab hbc

/-- What comes after a location in a walk does not hold it. -/
theorem namesLe_append_eq_false (ps : List String) (hrest : rest ≠ []) :
    namesLe (ps ++ rest) ps = false := by
  induction ps with
  | nil =>
    obtain ⟨s, more, rfl⟩ := List.exists_cons_of_ne_nil hrest
    rfl
  | cons s ps ih => simpa [namesLe] using ih

namespace IsProper

/-- A walk meets what lies below a location. -/
theorem mem_below (hd : d.IsProper) :
    (names, x) ∈ d.below l ↔ names ≠ [] ∧ d.get? (l ++ names) = some x := by
  rw [below, List.mem_mergeSort, List.mem_map]
  constructor
  · rintro ⟨⟨k, y⟩, hmem, heq⟩
    obtain ⟨hentry, hbelow⟩ := List.mem_filter.mp hmem
    obtain ⟨⟨more, rfl⟩, hne⟩ : l <+: k ∧ k ≠ l := by simpa using hbelow
    obtain ⟨rfl, rfl⟩ : more = names ∧ y = x := by simpa using heq
    have hmore : more ≠ [] := by simpa using hne
    exact ⟨hmore, (hd.get?_eq_some_iff (by simp [hmore])).mpr hentry⟩
  · rintro ⟨hne, hx⟩
    refine ⟨(l ++ names, x), List.mem_filter.mpr ⟨?_, by simpa using hne⟩, by simp⟩
    exact (hd.get?_eq_some_iff (by simp [hne])).mp hx

/-- A walk meets nothing twice. -/
theorem nodup_below (hd : d.IsProper) (l : Location) : ((d.below l).map (·.1)).Nodup := by
  rw [below, ((List.mergeSort_perm _ _).map _).nodup_iff, List.map_map]
  have hdistinct := hd.distinct.of_map
  refine (hdistinct.filter _).map_on fun e he f hf heq => ?_
  -- two locations below `l` with the same names after `l` are the same
  obtain ⟨hmem, hbelow⟩ := List.mem_filter.mp he
  obtain ⟨hmem', hbelow'⟩ := List.mem_filter.mp hf
  obtain ⟨⟨more, hmore⟩, -⟩ : l <+: e.1 ∧ e.1 ≠ l := by simpa using hbelow
  obtain ⟨⟨more', hmore'⟩, -⟩ : l <+: f.1 ∧ f.1 ≠ l := by simpa using hbelow'
  have hsame : e.1 = f.1 := by
    have hdrop : e.1.drop l.length = f.1.drop l.length := heq
    rw [← hmore, ← hmore'] at hdrop ⊢
    simpa using hdrop
  exact List.inj_on_of_nodup_map hd.distinct hmem hmem' hsame

/-- A walk goes on in the order of the names. -/
theorem sorted_below (d : Disk) (l : Location) :
    (d.below l).Pairwise fun a b => namesLe a.1 b.1 = true :=
  List.pairwise_mergeSort (fun a b c => namesLe_trans a.1 b.1 c.1)
    (fun a b => namesLe_total a.1 b.1) _

/-- When a walk comes to an entry, it has met all directories in which the entry lies. -/
theorem directory_before (hd : d.IsProper) {before after : List (List String × Entry)}
    (h : d.below l = before ++ (names, x) :: after) (hps : ps ≠ []) (hrest : rest ≠ [])
    (hnames : names = ps ++ rest) : ∃ m, (ps, .directory m) ∈ before := by
  have hx : d.get? (l ++ names) = some x := (hd.mem_below.mp (by rw [h]; simp)).2
  obtain ⟨m, hm⟩ := hd.rooted.hasDirectory_of_prefix (l := l ++ ps) (k := l ++ names)
    (by simp [hnames]) (by simpa [hnames] using hrest) (by simp [hx])
  have hmem : (ps, Entry.directory m) ∈ d.below l := hd.mem_below.mpr ⟨hps, hm⟩
  have hsorted := sorted_below d l
  rw [h] at hmem hsorted
  rcases List.mem_append.mp hmem with hbefore | hafter
  · exact ⟨m, hbefore⟩
  · have hne : ps ≠ names := by simpa [hnames] using hrest.symm
    have hlater : (ps, Entry.directory m) ∈ after := by simpa [hne] using hafter
    have hle := (List.pairwise_cons.mp (List.pairwise_append.mp hsorted).2.1).1 _ hlater
    rw [hnames, namesLe_append_eq_false ps hrest] at hle
    cases hle

end IsProper

/-- Following the last step too, if it is no link. -/
theorem descend_of_not_link {links : ℕ} (h : d.descend links l steps false = .ok k)
    (hk : ∀ t, d.get? k ≠ some (.link t)) : d.descend links l steps true = .ok k := by
  -- a link uses up one of the links that may be followed, any other step one of the steps
  induction links using Nat.strong_induction_on generalizing l steps with
  | _ links ihLinks =>
    induction steps generalizing l with
    | nil => simpa [descend] using h
    | cons s rest ih =>
      rw [descend] at h ⊢
      cases hat : d.get? l with
      | none => simp [hat] at h
      | some entry =>
        cases entry with
        | file c m => simp [hat] at h
        | link t => simp [hat] at h
        | directory m =>
          simp only [hat] at h ⊢
          by_cases hidle : Path.isIdle s = true
          · simp only [if_pos hidle] at h ⊢
            exact ih h
          by_cases hup : s = ".."
          · simp only [if_neg hidle, if_pos hup] at h ⊢
            exact ih h
          by_cases hlong : maxName < Bytes.textSize s
          · simp [hidle, hup, hlong] at h
          simp only [if_neg hidle, if_neg hup, if_neg hlong] at h ⊢
          cases hnext : d.get? (l ++ [s]) with
          | none => simp [hnext] at h
          | some next =>
            cases next with
            | file c n =>
              simp only [hnext] at h ⊢
              exact ih h
            | directory n =>
              simp only [hnext] at h ⊢
              exact ih h
            | link t =>
              simp only [hnext, Bool.not_false, Bool.and_true, Bool.not_true, Bool.and_false,
                Bool.false_eq_true, if_false] at h ⊢
              by_cases hlast : rest.isEmpty = true
              · rw [if_pos hlast] at h
                cases h
                exact absurd hnext (hk t)
              · rw [if_neg hlast] at h
                cases links with
                | zero => cases h
                | succ n => exact ihLinks n (Nat.lt_succ_self n) h

theorem locate_of_not_link (h : d.locate p false = .ok l) (hl : ∀ t, d.get? l ≠ some (.link t)) :
    d.locate p true = .ok l := by
  obtain ⟨u, htext, hdescend⟩ := bind_eq_ok.mp h
  exact bind_eq_ok.mpr ⟨u, htext, descend_of_not_link hdescend hl⟩

theorem text_ne_empty_of_locate {followLast : Bool} (h : d.locate p followLast = .ok l) :
    p.text ≠ "" := by
  rintro hp
  obtain ⟨u, htext, -⟩ := bind_eq_ok.mp h
  have hmissing : checkText "" = .error .missing := by simp [checkText]
  rw [hp, hmissing] at htext
  cases htext

theorem walkBelow_eq (d : Disk) (root : Path) (l : Location) :
    d.walkBelow root l = (d.below l).map fun e => ⟨root.below e.1, e.2⟩ := rfl

/-- Below what is no directory there is nothing to walk. -/
theorem IsProper.below_eq_nil (hd : d.IsProper) (hl : ¬ d.HasDirectory l) : d.below l = [] := by
  rw [List.eq_nil_iff_forall_not_mem]
  rintro ⟨names, x⟩ hmem
  obtain ⟨hne, hx⟩ := hd.mem_below.mp hmem
  have hnone := hd.rooted.get?_eq_none_of_prefix hl (List.prefix_append l names) (by simpa using hne)
  simp [hnone] at hx

/-- A walk meets its starting point and then what lies below the location to which this leads. -/
theorem IsProper.walk_eq_ok (hd : d.IsProper) (h : d.walk root = .ok entries) :
    ∃ l top, d.locate root true = .ok l ∧ (d.get? l = some top ∨ ∃ t, top = .link t) ∧
      entries = ⟨root, top⟩ :: d.walkBelow root l := by
  rw [walk] at h
  cases hlocate : d.locate root false with
  | error f =>
    rw [hlocate] at h
    cases h
  | ok l =>
    simp only [hlocate, Except.mapError, ok_bind] at h
    cases hl : d.get? l with
    | none =>
      rw [hl] at h
      cases h
    | some top =>
      cases top with
      | link t =>
        simp only [hl, status] at h
        cases hstatus : d.locate root true with
        | error f =>
          rw [hstatus] at h
          cases h
        | ok k =>
          cases hk : d.get? k with
          | none =>
            simp [hstatus, hk] at h
          | some inside =>
            simp only [hstatus, hk, ok_bind, pure_eq] at h
            refine ⟨k, .link t, rfl, Or.inr ⟨t, rfl⟩, ?_⟩
            cases inside with
            | directory m => exact (Except.ok.inj h).symm
            | file c m =>
              have hk : ¬ d.HasDirectory k := not_hasDirectory_of_hasFile ⟨c, m, hk⟩
              simpa [Entry.isDirectory, walkBelow, hd.below_eq_nil hk] using h.symm
            | link t' =>
              have hk : ¬ d.HasDirectory k := by
                rintro ⟨m, hm⟩
                simp [hk] at hm
              simpa [Entry.isDirectory, walkBelow, hd.below_eq_nil hk] using h.symm
      | file c m =>
        simp only [hl, pure_eq, Except.ok.injEq] at h
        exact ⟨l, .file c m, locate_of_not_link hlocate (by simp [hl]), Or.inl hl, h.symm⟩
      | directory m =>
        simp only [hl, pure_eq, Except.ok.injEq] at h
        exact ⟨l, .directory m, locate_of_not_link hlocate (by simp [hl]), Or.inl hl, h.symm⟩

/-- Steps that lead to an entry also do if a link in the last one is not followed. -/
theorem Follows.stops {links : ℕ} (h : d.Follows links l steps k) (hk : d.get? k ≠ none) :
    ∃ m, d.descend links l steps false = .ok m ∧ d.get? m ≠ none := by
  induction h with
  | done links l => exact ⟨l, by rw [descend], hk⟩
  | idle hl hs more ih =>
    obtain ⟨n, hn⟩ := hl
    obtain ⟨m, hm, hentry⟩ := ih hk
    exact ⟨m, by simp [descend, hn, hs, hm], hentry⟩
  | up hl more ih =>
    obtain ⟨n, hn⟩ := hl
    obtain ⟨m, hm, hentry⟩ := ih hk
    exact ⟨m, by simp [descend, hn, Path.isIdle, hm], hentry⟩
  | @entry links l s rest k x hl hs hx hlink more ih =>
    obtain ⟨n, hn⟩ := hl
    obtain ⟨m, hm, hentry⟩ := ih hk
    refine ⟨m, ?_, hentry⟩
    cases x with
    | link t => exact absurd rfl (hlink t)
    | file c i => simp [descend, hn, hs.moves, hs.ne_up, Nat.not_lt.mpr hs.short, hx, hm]
    | directory i => simp [descend, hn, hs.moves, hs.ne_up, Nat.not_lt.mpr hs.short, hx, hm]
  | @link links l s rest k t hl hs ht more ih =>
    obtain ⟨n, hn⟩ := hl
    by_cases hrest : rest = []
    · refine ⟨l ++ [s], ?_, by simp [ht]⟩
      simp [descend, hn, hs.moves, hs.ne_up, Nat.not_lt.mpr hs.short, ht, hrest]
    · obtain ⟨m, hm, hentry⟩ := ih hk
      refine ⟨m, ?_, hentry⟩
      rw [descend, hn]
      simp [hs.moves, hs.ne_up, Nat.not_lt.mpr hs.short, ht, hrest, hm]

/-- What can be looked up can be walked. -/
theorem exists_walk (h : d.locate root true = .ok l) (hl : d.get? l ≠ none) :
    ∃ entries, d.walk root = .ok entries := by
  obtain ⟨htext, hfollows⟩ := locate_iff.mp h
  obtain ⟨k, hk, hentry⟩ := hfollows.stops hl
  have hlocate : d.locate root false = .ok k := bind_eq_ok.mpr ⟨(), htext, hk⟩
  obtain ⟨x, hx⟩ := Option.ne_none_iff_exists'.mp hentry
  obtain ⟨y, hy⟩ := Option.ne_none_iff_exists'.mp hl
  have hstatus : d.status root = .ok (l, y) := by simp [status, h, hy]
  rw [walk, hlocate]
  cases x with
  | link t => simp [Except.mapError, hx, hstatus]
  | file c m => simp [Except.mapError, hx]
  | directory m => simp [Except.mapError, hx]

/-- What can be read is a file. -/
theorem hasFile_of_read {c : Content} (h : d.read p = .ok c) :
    ∃ l, d.locate p true = .ok l ∧ View.HasFile d.get? l := by
  simp only [read, throw_eq, pure_eq] at h
  obtain ⟨⟨l, x⟩, hstatus, hcontent⟩ := bind_eq_ok.mp h
  obtain ⟨k, hlocate, hx⟩ := bind_eq_ok.mp hstatus
  cases hk : d.get? k with
  | none =>
    rw [hk] at hx
    cases hx
  | some y =>
    rw [hk] at hx
    obtain ⟨rfl, rfl⟩ := Prod.mk.inj (Except.ok.inj hx)
    cases y with
    | file c m => exact ⟨k, hlocate, c, m, hk⟩
    | directory m => cases hcontent
    | link t => cases hcontent

/-- Steps that name nothing lead nowhere else. -/
theorem Follows.of_idle {links : ℕ} (h : d.Follows links l steps k)
    (hidle : ∀ s ∈ steps, Path.isIdle s = true) : l = k ∧ (steps ≠ [] → d.HasDirectory l) := by
  induction h with
  | done links l => exact ⟨rfl, fun hne => absurd rfl hne⟩
  | idle hl hs more ih =>
    exact ⟨(ih fun s hs => hidle s (List.mem_cons_of_mem _ hs)).1, fun _ => hl⟩
  | up hl more ih => exact absurd (hidle ".." List.mem_cons_self) (by decide)
  | @entry links l s rest k x hl hs hx hlink more ih =>
    have hs' := hidle s List.mem_cons_self
    simp [hs.moves] at hs'
  | @link links l s rest k t hl hs ht more ih =>
    have hs' := hidle s List.mem_cons_self
    simp [hs.moves] at hs'

/-- A path leads somewhere. Unlike looking it up, following it may take any number of links. -/
def Leads (d : Disk) (p : Path) (l : Location) : Prop :=
  ∃ n, d.Follows n (startOf d.workingDirectory p.text).1 (startOf d.workingDirectory p.text).2 l

theorem Leads.of_locate (h : d.locate p true = .ok l) : d.Leads p l := ⟨_, (locate_iff.mp h).2⟩

theorem Leads.unique (h : d.Leads p l) (h' : d.Leads p k) : l = k := by
  obtain ⟨n, hn⟩ := h
  obtain ⟨n', hn'⟩ := h'
  exact hn.unique hn'

theorem startOf_ne_nil (base : Location) (text : String) : (startOf base text).2 ≠ [] := by
  rw [startOf]
  split
  · exact List.cons_ne_nil _ _
  · exact Path.pieces_ne_nil text

theorem not_mem_of_mem_startOf {base : Location} {s text : String} (hs : s ∈ (startOf base text).2) :
    '/' ∉ s.toList := by
  rw [startOf] at hs
  refine Path.not_mem_of_mem_pieces (t := text) ?_
  split at hs
  · rename_i heq
    rw [heq]
    exact List.mem_cons_of_mem _ hs
  · exact hs

/-- A path that leads to a file ends in a name. -/
theorem fileName?_of_hasFile (hd : d.Rooted) (hp : d.locate p true = .ok l)
    (hl : View.HasFile d.get? l) : ∃ s, p.fileName? = some s ∧ Path.IsOrdinary s := by
  have hfollows := (locate_iff.mp hp).2
  have hmoves := (startOf_moving d.workingDirectory p).2
  have hpieces : ∀ s ∈ (startOf d.workingDirectory p.text).2, '/' ∉ s.toList :=
    fun s hs => not_mem_of_mem_startOf hs
  have hne := startOf_ne_nil d.workingDirectory p.text
  obtain ⟨idle, hsteps, hidle⟩ := Path.trimEnd_append (startOf d.workingDirectory p.text).2
  generalize (startOf d.workingDirectory p.text).2 = steps at hfollows hmoves hpieces hne hsteps
  rcases List.eq_nil_or_concat (Path.trimEnd steps) with hnil | ⟨xs, s, hconcat⟩
  · rw [hnil, List.nil_append] at hsteps
    obtain ⟨rfl, hdir⟩ := hfollows.of_idle (hsteps ▸ hidle)
    exact absurd (hdir hne) (not_hasDirectory_of_hasFile hl)
  · rw [List.concat_eq_append] at hconcat
    have hreverse : (Path.trimEnd steps).reverse = s :: xs.reverse := by rw [hconcat]; simp
    have hs : Path.isIdle s = false := Path.isIdle_of_trimEnd_reverse hreverse
    rw [hconcat, List.append_assoc, List.singleton_append] at hsteps
    have hup : s ≠ ".." := by
      rintro rfl
      rw [hsteps] at hfollows
      obtain ⟨m, -, hlast⟩ := hfollows.split
      cases hlast with
      | idle hm hs' more => exact absurd hs' (by decide)
      | entry hm hs' hx hlink more => exact hs'.ne_up rfl
      | link hm hs' ht more => exact hs'.ne_up rfl
      | up hm more =>
        obtain ⟨rfl, -⟩ := more.of_idle hidle
        exact not_hasDirectory_of_hasFile hl (hd.hasDirectory_dropLast hm)
    refine ⟨s, ?_, hs, hup, hpieces s (by rw [hsteps]; simp)⟩
    rw [Path.fileName?, Path.components_eq, ← hmoves, hsteps, Path.moving_append,
      Path.moving_cons_of_not_idle hs, Path.moving_eq_nil hidle]
    simp [Path.step, hup]

end ProtoForge.Files.Disk
