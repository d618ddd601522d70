import ProtoForge.Files.Access
import ProtoForge.Proofs.Outcome

/-!
# Following paths

On a disk without links a path is followed by one step after the other, and
the steps depend on nothing but the directories that they cross. So a path
that names an entry goes on naming it on every disk that keeps the directories.
-/
namespace ProtoForge.Files.Disk

variable {d e : Disk} {p : Path} {l k : Location} {steps before after : List String} {s : String}

/-- No entry of the disk is a link. -/
def LinkFree (d : Disk) : Prop := ∀ l t, d.get? l ≠ some (.link t)

/-- There is a directory at a location. -/
def HasDirectory (d : Disk) (l : Location) : Prop := ∃ m, d.get? l = some (.directory m)

/-- All directories of one disk are directories of another, seen from the same place. -/
structure Keeps (d e : Disk) : Prop where
  workingDirectory : e.workingDirectory = d.workingDirectory
  entries : ∀ l m, d.get? l = some (.directory m) → e.get? l = some (.directory m)

theorem Keeps.refl (d : Disk) : d.Keeps d := ⟨rfl, fun _ _ h => h⟩

theorem Keeps.trans {f : Disk} (h : d.Keeps e) (g : e.Keeps f) : d.Keeps f :=
  ⟨g.workingDirectory.trans h.workingDirectory,
    fun l m hl => g.entries l m (h.entries l m hl)⟩

theorem Keeps.directories (h : d.Keeps e) (l : Location) (hl : d.HasDirectory l) :
    e.HasDirectory l := by
  obtain ⟨m, hm⟩ := hl
  exact ⟨m, h.entries l m hm⟩

/-- The permissions that a directory passes on do not change. -/
theorem Keeps.inheritedMode_eq (h : d.Keeps e) (hl : d.HasDirectory l) :
    e.inheritedMode l = d.inheritedMode l := by
  obtain ⟨n, hn⟩ := hl
  rw [inheritedMode, inheritedMode, hn, h.entries l n hn]

/-- One step of a path from a location. -/
def stepFrom (d : Disk) (at_ : Location) (s : String) : Except Fault Location :=
  match d.get? at_ with
  | some (.directory _) =>
      if Path.isIdle s then .ok at_
      else if s = ".." then .ok at_.dropLast
      else if maxName < Bytes.textSize s then .error .nameTooLong
      else if (d.get? (at_ ++ [s])).isSome then .ok (at_ ++ [s])
      else .error .missing
  | _ => .error .notDirectory

/-- Where some steps lead from a location. -/
def follow (d : Disk) (at_ : Location) (steps : List String) : Except Fault Location :=
  steps.foldlM d.stepFrom at_

@[simp] theorem follow_nil : d.follow l [] = .ok l := rfl

theorem follow_cons : d.follow l (s :: steps) = d.stepFrom l s >>= (d.follow · steps) := rfl

theorem bind_eq_ok {ε α β : Type} {x : Except ε α} {f : α → Except ε β} {b : β} :
    x >>= f = .ok b ↔ ∃ a, x = .ok a ∧ f a = .ok b := by
  cases x <;> simp [bind, Except.bind]

theorem mapError_eq_ok {ε ε' α : Type} {x : Except ε α} {f : ε → ε'} {a : α} :
    x.mapError f = .ok a ↔ x = .ok a := by
  cases x <;> simp [Except.mapError]

theorem follow_append_eq_ok :
    d.follow l (before ++ after) = .ok k ↔
      ∃ m, d.follow l before = .ok m ∧ d.follow m after = .ok k := by
  rw [follow, List.foldlM_append, bind_eq_ok]
  rfl

@[simp] theorem ok_bind {ε α β : Type} (a : α) (f : α → Except ε β) :
    (Except.ok a >>= f) = f a := rfl

@[simp] theorem error_bind {ε α β : Type} (e : ε) (f : α → Except ε β) :
    (Except.error e >>= f) = .error e := rfl

@[simp] theorem throw_eq {α : Type} (e : Fault) : (throw e : Except Fault α) = .error e := rfl

@[simp] theorem pure_eq {α : Type} (a : α) : (pure a : Except Fault α) = .ok a := rfl

/-- Without links the budget of links and the last step's treatment do not matter. -/
theorem descend_eq_follow (hd : d.LinkFree) (links : Nat) (followLast : Bool) :
    d.descend links l steps followLast = d.follow l steps := by
  induction steps generalizing l with
  | nil => rw [descend, follow_nil]
  | cons s rest ih =>
    rw [descend, follow_cons, stepFrom]
    cases hat : d.get? l with
    | none => rfl
    | some entry =>
      cases entry with
      | file c m => rfl
      | link t => rfl
      | directory m =>
        dsimp only
        by_cases hidle : Path.isIdle s = true
        · simpa only [if_pos hidle, ok_bind] using ih
        by_cases hup : s = ".."
        · simpa only [if_neg hidle, if_pos hup, ok_bind] using ih
        by_cases hlong : maxName < Bytes.textSize s
        · simp only [if_neg hidle, if_neg hup, if_pos hlong, error_bind]
        simp only [if_neg hidle, if_neg hup, if_neg hlong]
        cases hnext : d.get? (l ++ [s]) with
        | none => rfl
        | some entry =>
          cases entry with
          | link t => exact absurd hnext (hd _ _)
          | file c n => exact ih
          | directory n => exact ih

theorem stepFrom_eq_ok :
    d.stepFrom l s = .ok k ↔ d.HasDirectory l ∧
      (Path.isIdle s = true ∧ l = k ∨ s = ".." ∧ l.dropLast = k ∨
        Path.isIdle s = false ∧ s ≠ ".." ∧ Bytes.textSize s ≤ maxName ∧
          (d.get? (l ++ [s])).isSome ∧ l ++ [s] = k) := by
  rw [stepFrom]
  cases hat : d.get? l with
  | none => simp [HasDirectory, hat]
  | some entry =>
    cases entry with
    | file c m => simp [HasDirectory, hat]
    | link t => simp [HasDirectory, hat]
    | directory m =>
      have hdir : d.HasDirectory l := ⟨m, hat⟩
      simp only [hdir, true_and]
      by_cases hidle : Path.isIdle s = true
      · have hup : s ≠ ".." := by rintro rfl; exact absurd hidle (by decide)
        simp [hidle, hup]
      by_cases hup : s = ".."
      · simp [hup, show Path.isIdle ".." = false by decide]
      by_cases hlong : maxName < Bytes.textSize s
      · simp [hidle, hup, hlong, Nat.not_le.mpr hlong]
      by_cases hsome : (d.get? (l ++ [s])).isSome = true
      · simp [hidle, hup, hlong, hsome, Nat.not_lt.mp hlong]
      · simp [hidle, hup, hlong, hsome]

/-- A step that does not move stays where it is. -/
theorem stepFrom_idle_eq_ok (hidle : Path.isIdle s = true) :
    d.stepFrom l s = .ok k ↔ d.HasDirectory l ∧ l = k := by
  have hup : s ≠ ".." := by rintro rfl; exact absurd hidle (by decide)
  simp [stepFrom_eq_ok, hidle, hup]

/-- A step that names an entry. -/
structure IsName (s : String) : Prop where
  moves : Path.isIdle s = false
  ne_up : s ≠ ".."
  short : Bytes.textSize s ≤ maxName

/-- One step of `descend`, which follows links. -/
theorem descend_cons_eq_ok {links : ℕ} :
    d.descend links l (s :: steps) true = .ok k ↔ d.HasDirectory l ∧
      (Path.isIdle s = true ∧ d.descend links l steps true = .ok k ∨
        s = ".." ∧ d.descend links l.dropLast steps true = .ok k ∨
        IsName s ∧ (∃ x, d.get? (l ++ [s]) = some x ∧ (∀ t, x ≠ .link t) ∧
          d.descend links (l ++ [s]) steps true = .ok k) ∨
        IsName s ∧ ∃ t n, links = n + 1 ∧ d.get? (l ++ [s]) = some (.link t) ∧
          d.descend n (startOf l t).1 ((startOf l t).2 ++ steps) true = .ok k) := by
  rw [descend]
  cases hat : d.get? l with
  | none => simp [HasDirectory, hat]
  | some entry =>
    cases entry with
    | file c m => simp [HasDirectory, hat]
    | link t => simp [HasDirectory, hat]
    | directory m =>
      have hdir : d.HasDirectory l := ⟨m, hat⟩
      simp only [hdir, true_and]
      by_cases hidle : Path.isIdle s = true
      · have hup : s ≠ ".." := by rintro rfl; exact absurd hidle (by decide)
        have hname : ¬ IsName s := fun hs => by simp [hs.moves] at hidle
        simp [hidle, hup, hname]
      by_cases hup : s = ".."
      · have hname : ¬ IsName s := fun hs => hs.ne_up hup
        simp [hup, show Path.isIdle ".." = false by decide, hup ▸ hname]
      by_cases hlong : maxName < Bytes.textSize s
      · have hname : ¬ IsName s := fun hs => absurd hs.short (Nat.not_le.mpr hlong)
        simp [hidle, hup, hlong, hname]
      have hname : IsName s := ⟨by simpa using hidle, hup, Nat.not_lt.mp hlong⟩
      cases hnext : d.get? (l ++ [s]) with
      | none => simp [hidle, hup, hlong]
      | some entry =>
        cases entry with
        | file c n => simp [hidle, hup, hlong, hname]
        | directory n => simp [hidle, hup, hlong, hname]
        | link t => cases links <;> simp [hidle, hup, hlong, hname]

/-- A step that leads to a directory leads there wherever the directories are kept. -/
theorem stepFrom_of_keeps (h : d.Keeps e) (hs : d.stepFrom l s = .ok k) (hk : d.HasDirectory k) :
    e.stepFrom l s = .ok k := by
  rw [stepFrom_eq_ok] at hs ⊢
  obtain ⟨hl, hidle | hup | ⟨hidle, hup, hlong, -, rfl⟩⟩ := hs
  · exact ⟨h.directories l hl, Or.inl hidle⟩
  · exact ⟨h.directories l hl, Or.inr (Or.inl hup)⟩
  · obtain ⟨m, hm⟩ := h.directories _ hk
    exact ⟨h.directories l hl, Or.inr (Or.inr ⟨hidle, hup, hlong, by simp [hm], rfl⟩)⟩

theorem follow_cons_eq_ok :
    d.follow l (s :: steps) = .ok k ↔ ∃ m, d.stepFrom l s = .ok m ∧ d.follow m steps = .ok k := by
  rw [follow_cons, bind_eq_ok]

/-- Only a directory leads on to a directory. -/
theorem hasDirectory_of_follow (hs : d.follow l steps = .ok k) (hk : d.HasDirectory k) :
    d.HasDirectory l := by
  cases steps with
  | nil =>
    obtain rfl : l = k := by simpa using hs
    exact hk
  | cons s rest =>
    obtain ⟨m, hm, -⟩ := follow_cons_eq_ok.mp hs
    exact (stepFrom_eq_ok.mp hm).1

theorem follow_of_keeps (h : d.Keeps e) (hs : d.follow l steps = .ok k) (hk : d.HasDirectory k) :
    e.follow l steps = .ok k := by
  induction steps generalizing l with
  | nil => exact hs
  | cons s rest ih =>
    obtain ⟨m, hm, hrest⟩ := follow_cons_eq_ok.mp hs
    exact follow_cons_eq_ok.mpr
      ⟨m, stepFrom_of_keeps h hm (hasDirectory_of_follow hrest hk), ih hrest⟩

/-- Steps that name nothing stay where they are. -/
theorem follow_idle (hidle : ∀ s ∈ steps, Path.isIdle s = true) (hl : d.HasDirectory l) :
    d.follow l steps = .ok l := by
  induction steps with
  | nil => rfl
  | cons s rest ih =>
    have hs : d.stepFrom l s = .ok l :=
      stepFrom_eq_ok.mpr ⟨hl, Or.inl ⟨hidle s List.mem_cons_self, rfl⟩⟩
    exact follow_cons_eq_ok.mpr ⟨l, hs, ih fun s hs => hidle s (List.mem_cons_of_mem _ hs)⟩

/-- The steps that end in the name `s`, with slashes after it if `slash` says so. -/
def EndsIn (steps before : List String) (s : String) (slash : Bool) : Prop :=
  ∃ n, steps = before ++ s :: List.replicate n "" ∧ slash = decide (0 < n)

theorem endsIn_iff (hs : s ≠ "") {slash : Bool} :
    EndsIn steps before s slash ↔
      steps.reverse.dropWhile (· = "") = s :: before.reverse ∧
        slash = decide (before.length + 1 < steps.length) := by
  constructor
  · rintro ⟨n, rfl, rfl⟩
    refine ⟨?_, ?_⟩
    · simp [hs]
    · simp only [List.length_append, List.length_cons, List.length_replicate, decide_eq_decide]
      omega
  · rintro ⟨hdrop, rfl⟩
    have hsplit := List.takeWhile_append_dropWhile (p := fun x => decide (x = ""))
      (l := steps.reverse)
    rw [hdrop] at hsplit
    have hall : ∀ x ∈ steps.reverse.takeWhile (fun x => decide (x = "")), x = "" := by
      intro x hx
      simpa using List.all_eq_true.mp List.all_takeWhile x hx
    have hrep := List.eq_replicate_of_mem hall
    have hsteps := congrArg List.reverse hsplit
    rw [hrep] at hsteps
    simp only [List.reverse_append, List.reverse_cons, List.reverse_reverse, List.append_assoc,
      List.singleton_append, List.reverse_replicate] at hsteps
    refine ⟨_, hsteps.symm, ?_⟩
    have hlen := congrArg List.length hsteps
    simp only [List.length_append, List.length_cons, List.length_replicate] at hlen
    simp only [decide_eq_decide]
    omega

/-- A text names an entry of a directory when its last proper step is a name and all steps
before lead to the directory. -/
theorem placeFrom_eq_name {base parent : Location} {text : String} {slash : Bool} :
    d.placeFrom base text = .ok ⟨parent, .name s, slash⟩ ↔
      checkText text = .ok () ∧ ∃ before,
        EndsIn (startOf base text).2 before s slash ∧
          Path.isIdle s = false ∧ s ≠ ".." ∧
          d.descend maxLinks (startOf base text).1 before true = .ok parent ∧
          d.HasDirectory parent := by
  rw [placeFrom]
  cases hc : checkText text with
  | error f => simp
  | ok u =>
    simp only [ok_bind, true_and]
    set steps := (startOf base text).2 with hsteps
    cases hrev : steps.reverse.dropWhile (· = "") with
    | nil =>
      constructor
      · intro h
        cases h
      · rintro ⟨before, hends, hidle, -⟩
        have hs : s ≠ "" := by rintro rfl; exact absurd hidle (by decide)
        rw [endsIn_iff hs, hrev] at hends
        cases hends.1
    | cons t more =>
      simp only [List.reverse_reverse, List.length_reverse, List.length_cons, bind_eq_ok]
      constructor
      · rintro ⟨at_, hfollow, h⟩
        have hs : t ≠ "" := by
          have hhead := List.head_dropWhile_not (fun x => decide (x = "")) (l := steps.reverse)
            (by simp [hrev])
          simpa [hrev] using hhead
        cases hat : d.get? at_ with
        | none => simp [hat] at h
        | some entry =>
          cases entry with
          | file c m => simp [hat] at h
          | link l => simp [hat] at h
          | directory m =>
            by_cases hdot : t = "."
            · simp [hat, hdot, pure, Except.pure] at h
            by_cases hup : t = ".."
            · simp [hat, hup, pure, Except.pure] at h
            simp only [hat, hdot, hup, if_false, pure, Except.pure, Except.ok.injEq, Place.mk.injEq,
              LastStep.name.injEq] at h
            obtain ⟨rfl, rfl, rfl⟩ := h
            refine ⟨more.reverse, (endsIn_iff hs).mpr ⟨by simp [hrev], by simp⟩, ?_, hup, hfollow,
              m, hat⟩
            simp [Path.isIdle, hs, hdot]
      · rintro ⟨before, hends, hidle, hup, hfollow, m, hm⟩
        have hs : s ≠ "" := by rintro rfl; exact absurd hidle (by decide)
        rw [endsIn_iff hs, hrev] at hends
        obtain ⟨heq, rfl⟩ := hends
        obtain ⟨rfl, rfl⟩ := List.cons_eq_cons.mp heq
        refine ⟨parent, by simpa using hfollow, ?_⟩
        have hdot : t ≠ "." := by rintro rfl; exact absurd hidle (by decide)
        simp [hm, hdot, hup, pure, Except.pure]

/-- A path names an entry of a directory when its last proper step is a name and all steps
before lead to the directory. -/
theorem place_eq_name {parent : Location} {slash : Bool} :
    d.place p = .ok ⟨parent, .name s, slash⟩ ↔
      checkText p.text = .ok () ∧ ∃ before,
        EndsIn (startOf d.workingDirectory p.text).2 before s slash ∧
          Path.isIdle s = false ∧ s ≠ ".." ∧
          d.descend maxLinks (startOf d.workingDirectory p.text).1 before true = .ok parent ∧
          d.HasDirectory parent :=
  placeFrom_eq_name

theorem place_eq_name_iff (hd : d.LinkFree) {parent : Location} {slash : Bool} :
    d.place p = .ok ⟨parent, .name s, slash⟩ ↔
      checkText p.text = .ok () ∧ ∃ before,
        EndsIn (startOf d.workingDirectory p.text).2 before s slash ∧
          Path.isIdle s = false ∧ s ≠ ".." ∧
          d.follow (startOf d.workingDirectory p.text).1 before = .ok parent ∧
          d.HasDirectory parent := by
  simp only [place_eq_name, descend_eq_follow hd]

/-- A path names a location, whether or not anything lies there, with or without a slash at
its end. -/
def Names (d : Disk) (p : Path) (l : Location) (slash : Bool) : Prop :=
  ∃ parent s, d.place p = .ok ⟨parent, .name s, slash⟩ ∧ Bytes.textSize s ≤ maxName ∧
    l = parent ++ [s]

theorem Names.ne_nil {slash : Bool} (h : d.Names p l slash) : l ≠ [] := by
  obtain ⟨parent, s, -, -, rfl⟩ := h
  simp

theorem Names.unique {slash slash' : Bool} (h : d.Names p l slash) (h' : d.Names p k slash') :
    l = k := by
  obtain ⟨parent, s, hplace, -, rfl⟩ := h
  obtain ⟨parent', s', hplace', -, rfl⟩ := h'
  rw [hplace] at hplace'
  cases hplace'
  rfl

/-- The place of a name is the same wherever the directories are kept. -/
theorem place_of_keeps (hd : d.LinkFree) (he : e.LinkFree) (h : d.Keeps e) {parent : Location}
    {slash : Bool} (hplace : d.place p = .ok ⟨parent, .name s, slash⟩) :
    e.place p = .ok ⟨parent, .name s, slash⟩ := by
  obtain ⟨htext, before, hends, hidle, hup, hfollow, hdir⟩ := (place_eq_name_iff hd).mp hplace
  refine (place_eq_name_iff he).mpr ⟨htext, before, ?_, hidle, hup, ?_, h.directories _ hdir⟩
  · rwa [h.workingDirectory]
  · rw [h.workingDirectory]
    exact follow_of_keeps h hfollow hdir

/-- A path goes on naming what it names while the directories are kept. -/
theorem Names.of_keeps {slash : Bool} (hd : d.LinkFree) (he : e.LinkFree) (h : d.Keeps e)
    (hn : d.Names p l slash) : e.Names p l slash := by
  obtain ⟨parent, s, hplace, hsize, rfl⟩ := hn
  exact ⟨parent, s, place_of_keeps hd he h hplace, hsize, rfl⟩

theorem locate_eq_ok_iff (hd : d.LinkFree) {followLast : Bool} :
    d.locate p followLast = .ok l ↔
      checkText p.text = .ok () ∧
        d.follow (startOf d.workingDirectory p.text).1 (startOf d.workingDirectory p.text).2 =
          .ok l := by
  rw [locate, bind_eq_ok]
  constructor
  · rintro ⟨⟨⟩, htext, h⟩
    exact ⟨htext, (descend_eq_follow hd maxLinks followLast).symm.trans h⟩
  · rintro ⟨htext, h⟩
    exact ⟨(), htext, (descend_eq_follow hd maxLinks followLast).trans h⟩

/-- What a path names is where it leads, if anything lies there. -/
theorem Names.locate {slash : Bool} (hd : d.LinkFree) (hn : d.Names p l slash)
    (hsome : (d.get? l).isSome) (hslash : slash = true → d.HasDirectory l) (followLast : Bool) :
    d.locate p followLast = .ok l := by
  obtain ⟨parent, s, hplace, hsize, rfl⟩ := hn
  obtain ⟨htext, before, ⟨n, hsteps, hn⟩, hidle, hup, hfollow, hdir⟩ :=
    (place_eq_name_iff hd).mp hplace
  rw [locate_eq_ok_iff hd, hsteps, follow_append_eq_ok]
  refine ⟨htext, parent, hfollow, follow_cons_eq_ok.mpr ⟨parent ++ [s], ?_, ?_⟩⟩
  · exact stepFrom_eq_ok.mpr ⟨hdir, Or.inr (Or.inr ⟨hidle, hup, hsize, hsome, rfl⟩)⟩
  · cases n with
    | zero => rfl
    | succ n =>
      refine follow_idle ?_ (hslash (by simpa using hn))
      intro x hx
      rw [List.eq_of_mem_replicate hx]
      decide

end ProtoForge.Files.Disk
