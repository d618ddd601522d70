import ProtoForge.Proofs.Files.Ways

/-!
# Components of paths

What joining, taking the parent and cutting off a start do to the components of
a path. The components carry the meaning of a path, so what is proved about
them holds for every way to write it.
-/
namespace ProtoForge

namespace Path

variable {p q r base : Path} {s text : String} {names ps qs : List String} {start : PathStart}

/-- A piece that is a name of its own. -/
structure IsOrdinary (s : String) : Prop where
  moves : isIdle s = false
  ne_up : s ≠ ".."
  no_slash : '/' ∉ s.toList

theorem IsOrdinary.ne_empty (h : IsOrdinary s) : s ≠ "" := by
  rintro rfl
  exact absurd h.moves (by decide)

theorem IsOrdinary.ne_dot (h : IsOrdinary s) : s ≠ "." := by
  rintro rfl
  exact absurd h.moves (by decide)

theorem IsOrdinary.step_eq (h : IsOrdinary s) : step s = .name s := by
  rw [step, if_neg h.ne_up]

theorem moving_eq_self (h : ∀ s ∈ names, IsOrdinary s) : moving names = names :=
  List.filter_eq_self.mpr fun s hs => by simp [(h s hs).moves]

theorem map_step_names (h : ∀ s ∈ names, IsOrdinary s) : names.map step = names.map .name :=
  List.map_congr_left fun s hs => (h s hs).step_eq

theorem step_ne_root (s : String) : step s ≠ .root := by
  rw [step]
  split_ifs <;> simp

/-- The start that the pieces of a text give, and the pieces after it. -/
def startAndBody : List String → PathStart × List String
  | "" :: b :: body => (.root, b :: body)
  | "." :: body => (.here, body)
  | body => (.plain, body)

theorem split_eq_startAndBody (p : Path) : p.split = startAndBody (pieces p.text) := by
  rw [split]
  rfl

theorem startAndBody_of_ne (hempty : s ≠ "") (hdot : s ≠ ".") (ps : List String) :
    startAndBody (s :: ps) = (.plain, s :: ps) := by
  unfold startAndBody
  split
  · rename_i heq
    exact absurd (List.cons_eq_cons.mp heq).1 hempty
  · rename_i heq
    exact absurd (List.cons_eq_cons.mp heq).1 hdot
  · rfl

/-- More pieces at the end do not change the start. -/
theorem startAndBody_append (hps : ps ≠ []) (hempty : ps ≠ [""]) (qs : List String) :
    startAndBody (ps ++ qs) = ((startAndBody ps).1, (startAndBody ps).2 ++ qs) := by
  obtain ⟨x, xs, rfl⟩ := List.exists_cons_of_ne_nil hps
  by_cases hx : x = ""
  · subst hx
    cases xs with
    | nil => exact absurd rfl hempty
    | cons y ys => rfl
  by_cases hdot : x = "."
  · subst hdot
    rfl
  rw [List.cons_append, startAndBody_of_ne hx hdot, startAndBody_of_ne hx hdot]
  rfl

theorem components_eq_startAndBody (p : Path) :
    p.components = (startAndBody (pieces p.text)).1.components ++
      (moving (startAndBody (pieces p.text)).2).map step := by
  rw [components_eq, split_eq_startAndBody]

/-- The components that pieces stand for. -/
theorem components_of_pieces (h : startAndBody (pieces p.text) = (start, ps)) :
    p.components = start.components ++ (moving ps).map step := by
  rw [components_eq_startAndBody, h]

theorem pieces_ne_nil (text : String) : pieces text ≠ [] := Text.pieces_ne_nil '/' text

theorem pieces_empty : pieces "" = [""] := pieces_eq_singleton (by decide)

theorem pieces_eq_empty_iff : pieces text = [""] ↔ text = "" := by
  constructor
  · intro h
    have hchars := Text.intercalate_splitOn '/' text
    have hsplit : text.toList.splitOn '/' = [[]] := by
      have hmap := congrArg (List.map String.toList) h
      simpa [pieces, Text.pieces, Function.comp_def] using hmap
    rw [hsplit] at hchars
    exact String.toList_eq_nil_iff.mp (by simpa using hchars.symm)
  · rintro rfl
    exact pieces_empty

/-- The text without components is the empty one. -/
theorem components_eq_nil_iff : p.components = [] ↔ p.text = "" := by
  rw [components_eq_startAndBody]
  constructor
  · intro h
    by_contra hne
    have hpieces : pieces p.text ≠ [""] := fun h => hne (pieces_eq_empty_iff.mp h)
    obtain ⟨x, xs, hx⟩ := List.exists_cons_of_ne_nil (pieces_ne_nil p.text)
    rw [hx] at h hpieces
    by_cases hempty : x = ""
    · subst hempty
      cases xs with
      | nil => exact hpieces rfl
      | cons y ys => simp [startAndBody, PathStart.components] at h
    by_cases hdot : x = "."
    · subst hdot
      simp [startAndBody, PathStart.components] at h
    · rw [startAndBody_of_ne hempty hdot] at h
      have hmoves : isIdle x = false := by simp [isIdle, hempty, hdot]
      simp [PathStart.components, moving_cons_of_not_idle hmoves] at h
  · intro h
    rw [h, pieces_empty]
    rfl

/-- Joining adds the steps of a relative path. -/
theorem components_join (hp : p.text ≠ "") (hq : q.isAbsolute = false) :
    (p.join q).components = p.components ++ (moving (pieces q.text)).map step := by
  have hne : pieces p.text ≠ [""] := fun h => hp (pieces_eq_empty_iff.mp h)
  by_cases hend : p.text.endsWith "/" = true
  · -- the slash at the end separates, and the empty piece after it is idle
    obtain ⟨u, hu⟩ := endsWith_iff.mp hend
    have hpieces : pieces p.text = pieces u ++ [""] := by
      have h := pieces_append u ""
      rwa [String.append_empty, pieces_empty, ← hu] at h
    have hjoin : pieces (p.join q).text = pieces u ++ pieces q.text := by
      rw [join, if_neg (by simp [hq]), if_pos (by simp [hend]), hu, pieces_append]
    by_cases hroot : pieces u = [""]
    · obtain ⟨y, ys, hy⟩ := List.exists_cons_of_ne_nil (pieces_ne_nil q.text)
      rw [components_eq_startAndBody p, components_eq_startAndBody (p.join q), hpieces, hjoin,
        hroot, hy]
      rfl
    · have hsplit := startAndBody_append (pieces_ne_nil u) hroot
      rw [components_eq_startAndBody p, components_eq_startAndBody (p.join q), hpieces, hjoin,
        hsplit [""], hsplit (pieces q.text), moving_append, moving_append,
        moving_cons_of_idle (by decide), moving_nil, List.append_nil, List.map_append,
        List.append_assoc]
  · have hjoin : pieces (p.join q).text = pieces p.text ++ pieces q.text := by
      rw [join, if_neg (by simp [hq]), if_neg (by simp [hp, hend]), pieces_append]
    rw [components_eq_startAndBody p, components_eq_startAndBody (p.join q), hjoin,
      startAndBody_append (pieces_ne_nil p.text) hne, moving_append, List.map_append, List.append_assoc]

theorem components_join_name (hp : p.text ≠ "") (hs : IsOrdinary s) :
    (p.join ⟨s⟩).components = p.components ++ [.name s] := by
  rw [components_join hp (isAbsolute_eq_false hs.no_slash), pieces_eq_singleton hs.no_slash,
    moving_cons_of_not_idle hs.moves]
  simp [hs.step_eq]

theorem join_text_ne_empty (hp : p.text ≠ "") : (p.join q).text ≠ "" := by
  rw [join]
  split_ifs with habs hend
  · intro h
    rw [isAbsolute, h] at habs
    exact absurd habs (by decide)
  · simp [hp]
  · simp [hp]

/-- The path below another one along some names. -/
def below (p : Path) (names : List String) : Path := names.foldl (fun p s => p.join ⟨s⟩) p

theorem components_below (hp : p.text ≠ "") (hnames : ∀ s ∈ names, IsOrdinary s) :
    (p.below names).components = p.components ++ names.map .name := by
  induction names generalizing p with
  | nil => simp [below]
  | cons s rest ih =>
    have hs := hnames s List.mem_cons_self
    have hrest : ∀ t ∈ rest, IsOrdinary t := fun t ht => hnames t (List.mem_cons_of_mem s ht)
    calc ((p.join ⟨s⟩).below rest).components
        = (p.join ⟨s⟩).components ++ rest.map .name := ih (join_text_ne_empty hp) hrest
      _ = p.components ++ (s :: rest).map .name := by
          rw [components_join_name hp hs, List.append_assoc]
          rfl

theorem pieces_ofNames (hne : names ≠ []) (hnames : ∀ s ∈ names, IsOrdinary s) :
    pieces (ofPieces names) = names :=
  pieces_ofPieces (fun s hs => (hnames s hs).no_slash) hne

/-- The components of joined names are the names. -/
theorem components_ofNames (hnames : ∀ s ∈ names, IsOrdinary s) :
    (Path.mk (ofPieces names)).components = names.map .name := by
  cases names with
  | nil => exact components_eq_nil_iff.mpr rfl
  | cons n ns =>
    have hn := hnames n List.mem_cons_self
    have hpieces := pieces_ofNames (List.cons_ne_nil n ns) hnames
    have hsplit : startAndBody (pieces (Path.mk (ofPieces (n :: ns))).text) = (.plain, n :: ns) := by
      rw [hpieces, startAndBody_of_ne hn.ne_empty hn.ne_dot]
    rw [components_of_pieces hsplit, moving_eq_self hnames, map_step_names hnames]
    rfl

/-- Joined names are a way to write them. -/
theorem ofPieces_inj (hps : ∀ s ∈ ps, IsOrdinary s) (hqs : ∀ s ∈ qs, IsOrdinary s)
    (h : ofPieces ps = ofPieces qs) : ps = qs := by
  have hcomponents := components_ofNames hps
  rw [h, components_ofNames hqs] at hcomponents
  exact List.map_injective_iff.mpr (fun s t hst => Component.name.inj hst) hcomponents.symm

/-- A start with pieces that do not look like another start. -/
theorem components_ofSplit (hps : ∀ s ∈ ps, '/' ∉ s.toList)
    (hplain : start = .plain → ps.head? ≠ some "" ∧ ps.head? ≠ some ".") :
    (ofSplit start ps).components = start.components ++ (moving ps).map step := by
  cases start with
  | root =>
    have hpieces : pieces ("/" ++ ofPieces ps) = "" :: pieces (ofPieces ps) := by
      simpa [pieces_empty] using pieces_append "" (ofPieces ps)
    cases ps with
    | nil =>
      have h : pieces ("/" ++ ofPieces []) = ["", ""] := by
        rw [hpieces, show ofPieces [] = "" from rfl, pieces_empty]
      change (Path.mk ("/" ++ ofPieces [])).components = _
      rw [components_eq_startAndBody, h]
      rfl
    | cons x xs =>
      refine components_of_pieces ?_
      rw [ofSplit, hpieces, pieces_ofPieces hps (List.cons_ne_nil x xs)]
      rfl
  | here =>
    cases ps with
    | nil =>
      have h : pieces "." = ["."] := pieces_eq_singleton (by decide)
      exact components_of_pieces (congrArg startAndBody h)
    | cons x xs =>
      have h := pieces_append "." (ofPieces (x :: xs))
      rw [pieces_eq_singleton (s := ".") (by decide), pieces_ofPieces hps (List.cons_ne_nil x xs)] at h
      exact components_of_pieces (congrArg startAndBody h)
  | plain =>
    cases ps with
    | nil => exact components_eq_nil_iff.mpr rfl
    | cons x xs =>
      obtain ⟨hempty, hdot⟩ := hplain rfl
      refine components_of_pieces ?_
      rw [ofSplit, pieces_ofPieces hps (List.cons_ne_nil x xs),
        startAndBody_of_ne (by simpa using hempty) (by simpa using hdot)]

theorem startAndBody_snd_subset : ∀ x ∈ (startAndBody ps).2, x ∈ ps := by
  intro x hx
  unfold startAndBody at hx
  split at hx
  · exact List.mem_cons_of_mem _ hx
  · exact List.mem_cons_of_mem _ hx
  · exact hx

/-- Only the empty path starts plainly with a piece that is idle. -/
theorem head_of_plain (h : p.split.1 = .plain) :
    p.split.2 = [""] ∨ p.split.2.head? ≠ some "" ∧ p.split.2.head? ≠ some "." := by
  rw [split_eq_startAndBody] at h ⊢
  obtain ⟨x, xs, hx⟩ := List.exists_cons_of_ne_nil (pieces_ne_nil p.text)
  rw [hx] at h ⊢
  by_cases hempty : x = ""
  · subst hempty
    cases xs with
    | nil => exact Or.inl rfl
    | cons y ys => simp [startAndBody] at h
  by_cases hdot : x = "."
  · subst hdot
    simp [startAndBody] at h
  · rw [startAndBody_of_ne hempty hdot]
    exact Or.inr ⟨by simpa using hempty, by simpa using hdot⟩

theorem not_mem_of_mem_body (h : s ∈ p.split.2) : '/' ∉ s.toList := by
  rw [split_eq_startAndBody] at h
  exact not_mem_of_mem_pieces (startAndBody_snd_subset s h)

/-- The start of the pieces of a path, written as a path. -/
theorem components_ofSplit_start (hps : ps <+: p.split.2) (hne : p.split.2 ≠ [""] ∨ ps = []) :
    (ofSplit p.split.1 ps).components = p.split.1.components ++ (moving ps).map step := by
  refine components_ofSplit (fun s hs => not_mem_of_mem_body (hps.subset hs)) fun hplain => ?_
  cases ps with
  | nil => simp
  | cons x xs =>
    obtain ⟨rest, hrest⟩ := hps
    rcases head_of_plain hplain with hone | hhead
    · exact absurd hone (hne.resolve_right (List.cons_ne_nil x xs))
    · rw [← hrest] at hhead
      exact hhead

theorem trimEnd_isPrefix (body : List String) : trimEnd body <+: body := by
  obtain ⟨idle, hbody, -⟩ := trimEnd_append body
  exact ⟨idle, hbody.symm⟩

/-- The parent has all components but the last. -/
theorem components_parent (h : p.parent? = some q) :
    q.components = p.components.dropLast ∧ p.components ≠ [] := by
  rw [parent?] at h
  cases htrim : (trimEnd p.split.2).reverse with
  | nil =>
    simp only [htrim] at h
    split_ifs at h with hhere
    obtain rfl : (⟨""⟩ : Path) = q := by simpa using h
    have hp : p.components = [.here] := by
      rw [components_eq, hhere, ← moving_trimEnd, List.reverse_eq_nil_iff.mp htrim]
      rfl
    rw [hp, components_eq_nil_iff.mpr rfl]
    exact ⟨rfl, List.cons_ne_nil _ _⟩
  | cons x before =>
    simp only [htrim, Option.some.injEq] at h
    have hbody : trimEnd p.split.2 = before.reverse ++ [x] := by
      simpa using congrArg List.reverse htrim
    have hstart : trimEnd before.reverse <+: p.split.2 := by
      refine (trimEnd_isPrefix before.reverse).trans (List.IsPrefix.trans ?_ (trimEnd_isPrefix p.split.2))
      exact hbody ▸ List.prefix_append before.reverse [x]
    have hnot : p.split.2 ≠ [""] := by
      intro hone
      rw [hone] at hbody
      simp [trimEnd, isIdle] at hbody
    have hmoves : moving p.split.2 = moving before.reverse ++ [x] := by
      rw [← moving_trimEnd, hbody, moving_append,
        moving_cons_of_not_idle (isIdle_of_trimEnd_reverse htrim), moving_nil]
    rw [← h, components_ofSplit_start hstart (Or.inl hnot), moving_trimEnd, components_eq, hmoves,
      List.map_append, ← List.append_assoc, List.map_singleton, List.dropLast_concat]
    exact ⟨rfl, by simp⟩

/-- All paths but the empty one and the root have a parent. -/
theorem parent?_eq_none_iff : p.parent? = none ↔ p.components = [] ∨ p.components = [.root] := by
  rw [parent?, components_eq, ← moving_trimEnd]
  cases htrim : (trimEnd p.split.2).reverse with
  | nil =>
    rw [List.reverse_eq_nil_iff.mp htrim]
    cases hstart : p.split.1 <;> simp [PathStart.components, htrim, hstart]
  | cons x before =>
    have hbody : trimEnd p.split.2 = before.reverse ++ [x] := by
      simpa using congrArg List.reverse htrim
    rw [hbody, moving_append, moving_cons_of_not_idle (isIdle_of_trimEnd_reverse htrim)]
    cases hstart : p.split.1 <;>
      simp [PathStart.components, htrim, List.append_eq_singleton_iff, step_ne_root]

/-- A path has a parent unless it ends where it starts. -/
theorem exists_parent_of_append {cs : List Component} {c : Component} (hp : p.components = cs ++ [c])
    (hc : c ≠ .root) : ∃ r, p.parent? = some r ∧ r.components = cs := by
  cases hr : p.parent? with
  | none =>
    rcases parent?_eq_none_iff.mp hr with hnil | hroot
    · simp [hnil] at hp
    · have hlast := congrArg List.getLast? (hroot.symm.trans hp)
      simp [hc.symm] at hlast
  | some r => exact ⟨r, rfl, by rw [(components_parent hr).1, hp, List.dropLast_concat]⟩

/-- A path that goes on by a name has a parent, which goes on without it. -/
theorem exists_parent (hp : p.components = q.components ++ (ps ++ [s]).map .name) :
    ∃ r, p.parent? = some r ∧ r.components = q.components ++ ps.map .name := by
  rw [List.map_append, ← List.append_assoc] at hp
  exact exists_parent_of_append hp (by simp)

/-- A path comes before the ancestors of its parent. -/
theorem ancestors_eq (p : Path) :
    p.ancestors = p :: match p.parent? with
      | some q => q.ancestors
      | none => [] := by
  rw [ancestors]
  cases hlength : p.components.length with
  | zero =>
    have hnone : p.parent? = none :=
      parent?_eq_none_iff.mpr (Or.inl (List.eq_nil_of_length_eq_zero hlength))
    rw [hnone, parentsWithin]
  | succ count =>
    rw [parentsWithin]
    cases hparent : p.parent? with
    | none => rfl
    | some q =>
      have hq : q.components.length = count := by
        rw [(components_parent hparent).1, List.length_dropLast, hlength, Nat.add_sub_cancel]
      simp only [ancestors, hq]

/-- What a path has and passes on to its parent, all its ancestors have. -/
theorem ancestors_induction {P : Path → Prop} (hparent : ∀ p q, P p → p.parent? = some q → P q)
    (hp : P p) : ∀ q ∈ p.ancestors, P q := by
  have hwithin : ∀ count p, P p → ∀ q ∈ p.parentsWithin count, P q := by
    intro count
    induction count with
    | zero =>
      intro p hp q hq
      obtain rfl : q = p := by simpa [parentsWithin] using hq
      exact hp
    | succ count ih =>
      intro p hp q hq
      rw [parentsWithin] at hq
      cases hr : p.parent? with
      | none =>
        obtain rfl : q = p := by simpa [hr] using hq
        exact hp
      | some r =>
        rcases List.mem_cons.mp (by simpa [hr] using hq) with rfl | hq
        · exact hp
        · exact ih r (hparent p r hp hr) q hq
  exact hwithin _ p hp

/-- An ancestor has the first components of its path. -/
theorem isPrefix_of_mem_ancestors (hq : q ∈ p.ancestors) : q.components <+: p.components := by
  refine ancestors_induction (P := fun q => q.components <+: p.components) ?_ List.prefix_rfl q hq
  intro r parent hr hparent
  rw [(components_parent hparent).1]
  exact (List.dropLast_prefix _).trans hr

/-- What is left of the pieces after some steps makes the moves after these. -/
theorem moving_dropSteps (count : ℕ) (body : List String) :
    moving (dropSteps count body) = (moving body).drop count := by
  have hidle : ∀ body, moving (body.dropWhile isIdle) = moving body := by
    intro body
    have hsplit := List.takeWhile_append_dropWhile (p := isIdle) (l := body)
    have hnone : moving (body.takeWhile isIdle) = [] :=
      moving_eq_nil fun s hs => List.all_eq_true.mp List.all_takeWhile s hs
    conv_rhs => rw [← hsplit, moving_append, hnone, List.nil_append]
  induction count generalizing body with
  | zero => rw [dropSteps, hidle, List.drop_zero]
  | succ count ih =>
    rw [dropSteps, ih, ← hidle body]
    cases hbody : body.dropWhile isIdle with
    | nil => simp
    | cons x xs =>
      have hx : isIdle x = false := by
        have hhead := List.head_dropWhile_not isIdle (l := body) (by simp [hbody])
        simpa [hbody] using hhead
      rw [moving_cons_of_not_idle hx]
      rfl

theorem dropSteps_suffix (count : ℕ) (body : List String) : dropSteps count body <:+ body := by
  induction count generalizing body with
  | zero => exact List.dropWhile_suffix isIdle
  | succ count ih =>
    exact (ih _).trans ((List.drop_suffix 1 _).trans (List.dropWhile_suffix isIdle))

theorem head_dropSteps (count : ℕ) (body : List String) :
    ∀ x ∈ (dropSteps count body).head?, isIdle x = false := by
  induction count generalizing body with
  | zero =>
    intro x hx
    have hnot := List.head?_dropWhile_not isIdle body
    rw [dropSteps] at hx
    rw [Option.mem_def.mp hx] at hnot
    simpa using hnot
  | succ count ih => exact ih _

/-- A path without the idle pieces at its end. -/
theorem components_ofSplit_trimEnd (p : Path) :
    (ofSplit p.split.1 (trimEnd p.split.2)).components = p.components := by
  have hne : p.split.2 ≠ [""] ∨ trimEnd p.split.2 = [] := by
    by_cases hone : p.split.2 = [""]
    · exact Or.inr (by rw [hone]; rfl)
    · exact Or.inl hone
  rw [components_ofSplit_start (trimEnd_isPrefix _) hne, moving_trimEnd, ← components_eq]

/-- A path that begins after some of the steps of another one. -/
theorem components_dropSteps (count : ℕ) (p : Path) :
    (Path.mk (ofPieces (trimEnd (dropSteps count p.split.2)))).components =
      ((moving p.split.2).map step).drop count := by
  have hstart := trimEnd_isPrefix (dropSteps count p.split.2)
  have hhead : ∀ x ∈ (trimEnd (dropSteps count p.split.2)).head?, isIdle x = false := by
    intro x hx
    obtain ⟨idle, hidle⟩ := hstart
    refine head_dropSteps count p.split.2 x ?_
    rw [← hidle, List.head?_append, Option.mem_def.mp hx]
    rfl
  have hslash : ∀ x ∈ trimEnd (dropSteps count p.split.2), '/' ∉ x.toList := fun x hx =>
    not_mem_of_mem_body ((dropSteps_suffix count _).subset (hstart.subset hx))
  calc (ofSplit .plain (trimEnd (dropSteps count p.split.2))).components
      = (moving (trimEnd (dropSteps count p.split.2))).map step :=
        components_ofSplit hslash fun _ => ⟨fun h => absurd (hhead "" h) (by decide),
          fun h => absurd (hhead "." h) (by decide)⟩
    _ = ((moving p.split.2).map step).drop count := by
        rw [moving_trimEnd, moving_dropSteps, List.map_drop]

/-- Cutting off a start takes away its components. -/
theorem components_stripPrefix (h : p.stripPrefix? base = some r) :
    r.components = p.components.drop base.components.length := by
  simp only [stripPrefix?] at h
  split_ifs at h with hstart hused
  · rw [← Option.some.inj h, hused, List.drop_zero, components_ofSplit_trimEnd]
  · rw [← Option.some.inj h, components_dropSteps]
    set used := base.components.length
    rw [components_eq p]
    -- the start of a path is one component at most, and `used` are more
    cases p.split.1 with
    | root => rw [← Nat.sub_add_cancel (Nat.pos_of_ne_zero hused)]; rfl
    | here => rw [← Nat.sub_add_cancel (Nat.pos_of_ne_zero hused)]; rfl
    | plain => rfl

theorem startsWith_iff : p.startsWith base = true ↔ base.components <+: p.components :=
  List.isPrefixOf_iff_prefix

/-- A start can be cut off when its components come first. -/
theorem stripPrefix?_eq_none_iff : p.stripPrefix? base = none ↔ p.startsWith base = false := by
  rw [stripPrefix?]
  by_cases h : p.startsWith base = true
  · rw [if_pos h]
    dsimp only
    split_ifs <;> simp [h]
  · simp [h]

end Path

end ProtoForge
