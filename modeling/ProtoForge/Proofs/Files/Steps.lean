import ProtoForge.Proofs.Files.Following
import ProtoForge.Proofs.Text.Pieces
import Mathlib.Data.List.TakeWhile

/-!
# Steps of paths

The pieces of a path text that move: those that are neither empty nor a dot.
Following a path to a directory means following these, and a parent has all of
them but the last.
-/
namespace ProtoForge

theorem endsWith_iff {s t : String} : s.endsWith t = true ↔ ∃ u, s = u ++ t := by
  change s.toSlice.endsWith t = true ↔ _
  rw [String.Slice.Pattern.Model.endsWith_iff,
    String.Slice.Pattern.Model.ForwardStringSearcher.revMatchesAt_iff_splits]
  constructor
  · rintro ⟨u, v, h⟩
    have heq := h.eq_left (String.Slice.splits_endPos _)
    exact ⟨u, by simpa using heq.symm⟩
  · rintro ⟨u, rfl⟩
    exact ⟨u, "", by simp⟩

namespace Path

variable {p q : Path} {s t : String} {ps : List String}

theorem pieces_append (s t : String) : pieces (s ++ "/" ++ t) = pieces s ++ pieces t := by
  have h : (s ++ "/" ++ t).toList = s.toList ++ '/' :: t.toList := by simp
  rw [pieces, Text.pieces, h, List.splitOn_append_cons_self, List.map_append]
  rfl

theorem pieces_eq_singleton (h : '/' ∉ s.toList) : pieces s = [s] := by
  rw [pieces, Text.pieces, List.splitOn_eq_singleton h]
  simp

theorem not_mem_of_mem_pieces (h : s ∈ pieces t) : '/' ∉ s.toList := Text.not_mem_of_mem_pieces h

/-- Joining pieces and cutting again gives them back. -/
theorem pieces_ofPieces (hps : ∀ s ∈ ps, '/' ∉ s.toList) (hne : ps ≠ []) :
    pieces (ofPieces ps) = ps :=
  Text.pieces_intercalate hps hne

theorem isAbsolute_eq_false (h : '/' ∉ s.toList) : isAbsolute ⟨s⟩ = false := by
  rw [isAbsolute, String.startsWith_string_eq_false_iff]
  rintro ⟨u, hu⟩
  exact h (by rw [← hu]; simp)

/-- A name without a slash is the last piece of a path that is joined with it. -/
theorem pieces_join_name (p : Path) (h : '/' ∉ s.toList) :
    ∃ before, pieces (p.join ⟨s⟩).text = before ++ [s] := by
  rw [join, if_neg (by simp [isAbsolute_eq_false h])]
  by_cases hempty : p.text = ""
  · exact ⟨[], by simp [hempty, pieces_eq_singleton h]⟩
  by_cases hend : p.text.endsWith "/" = true
  · obtain ⟨u, hu⟩ := endsWith_iff.mp hend
    refine ⟨pieces u, ?_⟩
    rw [if_pos (by simp [hend]), hu, pieces_append, pieces_eq_singleton h]
  · refine ⟨pieces p.text, ?_⟩
    rw [if_neg (by simp [hempty, hend]), pieces_append, pieces_eq_singleton h]

/-- The pieces that move. -/
def moving (steps : List String) : List String := steps.filter (!isIdle ·)

@[simp] theorem moving_nil : moving [] = [] := rfl

theorem moving_append (xs ys : List String) : moving (xs ++ ys) = moving xs ++ moving ys :=
  List.filter_append xs ys

theorem moving_cons_of_idle (h : isIdle s = true) (xs : List String) :
    moving (s :: xs) = moving xs := by
  simp [moving, h]

theorem moving_cons_of_not_idle (h : isIdle s = false) (xs : List String) :
    moving (s :: xs) = s :: moving xs := by
  simp [moving, h]

theorem moving_eq_nil (h : ∀ s ∈ ps, isIdle s = true) : moving ps = [] := by
  simpa [moving] using h

/-- Cutting idle pieces off the end leaves some that are idle. -/
theorem trimEnd_append (body : List String) :
    ∃ idle, body = trimEnd body ++ idle ∧ ∀ s ∈ idle, isIdle s = true := by
  refine ⟨(body.reverse.takeWhile isIdle).reverse, ?_, ?_⟩
  · rw [trimEnd, ← List.reverse_append, List.takeWhile_append_dropWhile, List.reverse_reverse]
  · intro s hs
    exact List.all_eq_true.mp List.all_takeWhile s (List.mem_reverse.mp hs)

theorem moving_trimEnd (body : List String) : moving (trimEnd body) = moving body := by
  obtain ⟨idle, hbody, hidle⟩ := trimEnd_append body
  conv_rhs => rw [hbody, moving_append, moving_eq_nil hidle, List.append_nil]

theorem mem_of_mem_trimEnd {body : List String} (h : s ∈ trimEnd body) : s ∈ body := by
  obtain ⟨idle, hbody, -⟩ := trimEnd_append body
  rw [hbody]
  exact List.mem_append_left _ h

/-- What is left after the idle pieces at the end ends in a piece that moves. -/
theorem isIdle_of_trimEnd_reverse {body before : List String} {x : String}
    (h : (trimEnd body).reverse = x :: before) : isIdle x = false := by
  rw [trimEnd, List.reverse_reverse] at h
  have hhead := List.head_dropWhile_not isIdle (l := body.reverse) (by simp [h])
  simpa [h] using hhead

theorem components_eq (p : Path) :
    p.components = p.split.1.components ++ (moving p.split.2).map step := rfl

end Path

namespace Files.Disk

open ProtoForge.Path

variable {d : Disk} {p q : Path} {l k base : Location} {s : String} {ps steps : List String}

/-- Where a path with a given start begins. -/
def originOf (base : Location) : PathStart → Location
  | .root => []
  | .here => base
  | .plain => base

theorem startOf_eq_split (base : Location) (p : Path) :
    startOf base p.text =
      match p.split with
      | (.root, body) => ([], body)
      | (.here, body) => (base, "." :: body)
      | (.plain, body) => (base, body) := by
  rw [startOf, split]
  cases hp : pieces p.text with
  | nil => rfl
  | cons x xs =>
    by_cases hx : x = ""
    · subst hx
      cases xs with
      | nil => rfl
      | cons y ys => rfl
    · by_cases hdot : x = "."
      · subst hdot
        rfl
      · split <;> simp_all

/-- A path moves by the pieces after its start. -/
theorem startOf_moving (base : Location) (p : Path) :
    (startOf base p.text).1 = originOf base p.split.1 ∧
      moving (startOf base p.text).2 = moving p.split.2 := by
  rw [startOf_eq_split]
  obtain ⟨start, body⟩ := p.split
  cases start with
  | root => exact ⟨rfl, rfl⟩
  | here => exact ⟨rfl, moving_cons_of_idle (by decide) body⟩
  | plain => exact ⟨rfl, rfl⟩

theorem startOf_ofSplit (base : Location) {start : PathStart} (hps : ∀ s ∈ ps, '/' ∉ s.toList)
    (hplain : start = .plain → ps.head? ≠ some "") :
    (startOf base (ofSplit start ps).text).1 = originOf base start ∧
      moving (startOf base (ofSplit start ps).text).2 = moving ps := by
  cases start with
  | root =>
    have hpieces : pieces ("/" ++ ofPieces ps) = "" :: pieces (ofPieces ps) := by
      simpa [pieces_eq_singleton (s := "") (by decide)] using pieces_append "" (ofPieces ps)
    rw [ofSplit, startOf, hpieces]
    cases ps with
    | nil => exact ⟨rfl, rfl⟩
    | cons x xs =>
      rw [pieces_ofPieces hps (List.cons_ne_nil x xs)]
      exact ⟨rfl, rfl⟩
  | here =>
    cases ps with
    | nil => exact ⟨rfl, rfl⟩
    | cons x xs =>
      have hpieces : pieces ("./" ++ ofPieces (x :: xs)) = "." :: x :: xs := by
        have h := pieces_append "." (ofPieces (x :: xs))
        rw [pieces_eq_singleton (s := ".") (by decide),
          pieces_ofPieces hps (List.cons_ne_nil x xs)] at h
        simpa using h
      rw [ofSplit, startOf, hpieces]
      · exact ⟨rfl, moving_cons_of_idle (by decide) _⟩
      · simp
  | plain =>
    cases ps with
    | nil => exact ⟨rfl, rfl⟩
    | cons x xs =>
      rw [ofSplit, startOf, pieces_ofPieces hps (List.cons_ne_nil x xs)]
      have hx : x ≠ "" := by simpa using hplain rfl
      split <;> simp_all [originOf]

theorem mem_pieces_of_mem_split {x : String} (h : x ∈ p.split.2) : x ∈ pieces p.text := by
  rw [split] at h
  cases hp : pieces p.text with
  | nil => simp [hp] at h
  | cons y ys =>
    rw [hp] at h
    split at h <;> simp_all

/-- Only the empty path starts plainly with an empty piece. -/
theorem split_plain (h : p.split.1 = .plain) : p.split.2.head? ≠ some "" ∨ p.split.2 = [""] := by
  rw [split] at h ⊢
  cases hp : pieces p.text with
  | nil => simp
  | cons y ys =>
    rw [hp] at h
    split at h
    · simp at h
    · simp at h
    · cases ys with
      | nil => by_cases hy : y = "" <;> simp_all
      | cons z zs =>
        by_cases hy : y = ""
        · simp_all
        · left
          simp_all

/-- A parent starts where its path starts and makes all moves but the last. -/
theorem startOf_parent (base : Location) (h : p.parent? = some q) :
    (startOf base q.text).1 = (startOf base p.text).1 ∧
      moving (startOf base q.text).2 = (moving (startOf base p.text).2).dropLast := by
  obtain ⟨horigin, hmoves⟩ := startOf_moving base p
  rw [horigin, hmoves, ← moving_trimEnd p.split.2]
  rw [parent?] at h
  cases htrim : (trimEnd p.split.2).reverse with
  | nil =>
    simp only [htrim] at h
    split_ifs at h with hhere
    obtain rfl : (⟨""⟩ : Path) = q := by simpa using h
    rw [List.reverse_eq_nil_iff.mp htrim, hhere]
    exact ⟨rfl, rfl⟩
  | cons x before =>
    simp only [htrim, Option.some.injEq] at h
    have hbody : trimEnd p.split.2 = before.reverse ++ [x] := by
      simpa using congrArg List.reverse htrim
    obtain ⟨idle, hidle, -⟩ := trimEnd_append p.split.2
    obtain ⟨idle', hidle', -⟩ := trimEnd_append before.reverse
    have hsub : ∀ y ∈ trimEnd before.reverse, y ∈ p.split.2 := by
      intro y hy
      rw [hidle, hbody, List.append_assoc]
      exact List.mem_append_left _ (mem_of_mem_trimEnd hy)
    have hplain : p.split.1 = .plain → (trimEnd before.reverse).head? ≠ some "" := by
      intro hstart hhead
      have hfull : p.split.2.head? = some "" := by
        rw [hidle, hbody, hidle']
        cases ht : trimEnd before.reverse with
        | nil => simp [ht] at hhead
        | cons y ys => simpa [ht] using hhead
      rcases split_plain hstart with hne | hone
      · exact hne hfull
      · rw [hone] at hbody
        simp [trimEnd, isIdle] at hbody
    obtain ⟨hstart, hmoving⟩ := startOf_ofSplit base
      (fun y hy => not_mem_of_mem_pieces (mem_pieces_of_mem_split (hsub y hy))) hplain
    rw [← h, hstart, hmoving, moving_trimEnd, hbody, moving_append,
      moving_cons_of_not_idle (isIdle_of_trimEnd_reverse htrim), moving_nil, List.dropLast_concat]
    exact ⟨rfl, rfl⟩

/-- Idle pieces do not change where a path to a directory leads. -/
theorem follow_moving (hk : d.HasDirectory k) :
    d.follow l (moving steps) = .ok k ↔ d.follow l steps = .ok k := by
  induction steps generalizing l with
  | nil => rfl
  | cons s rest ih =>
    by_cases hidle : isIdle s = true
    · rw [moving_cons_of_idle hidle, follow_cons_eq_ok, ih]
      constructor
      · intro h
        exact ⟨l, (stepFrom_idle_eq_ok hidle).mpr ⟨hasDirectory_of_follow h hk, rfl⟩, h⟩
      · rintro ⟨m, hm, h⟩
        rwa [((stepFrom_idle_eq_ok hidle).mp hm).2]
    · rw [moving_cons_of_not_idle (by simpa using hidle), follow_cons_eq_ok, follow_cons_eq_ok]
      simp only [ih]

/-- The last move of a path that names something is the name. -/
theorem moving_of_endsIn {before : List String} {slash : Bool} (h : EndsIn steps before s slash)
    (hidle : isIdle s = false) : moving steps = moving before ++ [s] := by
  obtain ⟨n, rfl, -⟩ := h
  have hrest : moving (List.replicate n "") = [] := by
    refine moving_eq_nil fun x hx => ?_
    rw [List.eq_of_mem_replicate hx]
    decide
  rw [moving_append, moving_cons_of_not_idle hidle, hrest]

/-- The name that a path gives to an entry is its file name. -/
theorem fileName?_of_place {parent : Location} {slash : Bool}
    (h : d.place p = .ok ⟨parent, .name s, slash⟩) : p.fileName? = some s := by
  obtain ⟨-, before, hends, hidle, hup, -⟩ := place_eq_name.mp h
  have hmoves := moving_of_endsIn hends hidle
  rw [(startOf_moving _ p).2] at hmoves
  rw [fileName?, components_eq, hmoves]
  simp [step, hup]

/-- The parent of a path that names something leads to the directory that holds it. -/
theorem locate_parent (hd : d.LinkFree) {slash followLast : Bool} (hn : d.Names p l slash)
    (hq : p.parent? = some q) (htext : checkText q.text = .ok ()) :
    d.locate q followLast = .ok l.dropLast := by
  obtain ⟨parent, s, hplace, -, rfl⟩ := hn
  obtain ⟨-, before, hends, hidle, -, hfollow, hdir⟩ := (place_eq_name_iff hd).mp hplace
  obtain ⟨hstart, hmoves⟩ := startOf_parent d.workingDirectory hq
  rw [locate_eq_ok_iff hd, List.dropLast_concat]
  refine ⟨htext, ?_⟩
  rw [← follow_moving hdir, hstart, hmoves, moving_of_endsIn hends hidle, List.dropLast_concat,
    follow_moving hdir]
  exact hfollow

theorem Names.eq_of_locate (hd : d.LinkFree) {slash followLast : Bool} (hn : d.Names p l slash)
    (hl : d.HasDirectory l) (hk : d.locate p followLast = .ok k) : l = k := by
  obtain ⟨n, hentry⟩ := hl
  have hat := hn.locate hd (by simp [hentry]) (fun _ => ⟨n, hentry⟩) followLast
  simpa [hk] using hat.symm

theorem parentsWithin_chain (count : ℕ) (p : Path) :
    (parentsWithin count p).head? = some p ∧
      (parentsWithin count p).IsChain fun a b => a.parent? = some b := by
  induction count generalizing p with
  | zero => exact ⟨rfl, .singleton p⟩
  | succ count ih =>
    rw [parentsWithin]
    cases hparent : p.parent? with
    | none => exact ⟨rfl, .singleton p⟩
    | some r =>
      refine ⟨rfl, (ih r).2.cons ?_⟩
      intro x hx
      rw [(ih r).1] at hx
      obtain rfl : r = x := by simpa using hx
      exact hparent

/-- Directories that are named by a path and its parents lie above one another. -/
theorem prefix_of_chain (hd : d.LinkFree) {followLast : Bool} {qs : List Path}
    (hchain : qs.IsChain fun a b => a.parent? = some b)
    (hhead : ∀ p ∈ qs.head?, d.locate p followLast = .ok k)
    (hall : ∀ p ∈ qs, ∃ l slash, d.Names p l slash ∧ d.HasDirectory l) (hq : q ∈ qs)
    {slash : Bool} (hn : d.Names q l slash) : l <+: k := by
  induction qs generalizing k with
  | nil => simp at hq
  | cons p rest ih =>
    obtain ⟨l₀, slash₀, hn₀, hdir⟩ := hall p List.mem_cons_self
    obtain rfl := hn₀.eq_of_locate hd hdir (hhead p rfl)
    rcases List.mem_cons.mp hq with rfl | hrest
    · rw [hn.unique hn₀]
    · refine (ih hchain.tail ?_ (fun x hx => hall x (List.mem_cons_of_mem p hx)) hrest).trans
        (List.dropLast_prefix l₀)
      intro r hr
      obtain ⟨l₁, slash₁, ⟨parent, s, hplace, -, -⟩, -⟩ :=
        hall r (List.mem_cons_of_mem p (List.mem_of_mem_head? hr))
      obtain ⟨htext, -⟩ := (place_eq_name_iff hd).mp hplace
      cases rest with
      | nil => simp at hr
      | cons r' rest =>
        obtain rfl : r' = r := by simpa using hr
        exact locate_parent hd hn₀ (List.isChain_cons_cons.mp hchain).1 htext

end Files.Disk

end ProtoForge
