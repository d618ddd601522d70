import ProtoForge.Proofs.Text.Lines
import ProtoForge.Sources.Sanitizer

/-!
# What sanitizing does to a text

An option is mentioned where it stands with word boundaries on both sides.
Sanitizing drops exactly the lines that mention one, and what is left mentions
none, so that sanitizing again changes nothing: the carriage returns that
lines lose when they are joined are no word characters.
-/
namespace ProtoForge.Sources

open Text

/-- A word boundary between two parts of a text. -/
def IsCut (before after : List Char) : Prop := isBoundary before.getLast? after.head? = true

/-- A line mentions an option: the option stands in it as a whole word. -/
def Mentions (option line : String) : Prop :=
  ∃ before after, line.toList = before ++ option.toList ++ after ∧
    IsCut before (option.toList ++ after) ∧ IsCut (before ++ option.toList) after

/-- A line offends if it mentions one of the options. -/
def Offends (options : List String) (line : String) : Prop := ∃ o ∈ options, Mentions o line

/-- An option is the first one that a line mentions. -/
def FirstMentioned (options : List String) (line option : String) : Prop :=
  ∃ before after, options = before ++ option :: after ∧ Mentions option line ∧
    ∀ o ∈ before, ¬ Mentions o line

variable {word before after rest line : List Char} {previous : Option Char} {o l s : String}
  {options lines found xs : List String}

theorem standsAt_iff : standsAt word previous rest = true ↔ ∃ after, rest = word ++ after ∧
    isBoundary previous rest.head? = true ∧
      isBoundary (word.getLast?.or previous) after.head? = true := by
  have hlast : (if word.isEmpty then previous else word.getLast?) = word.getLast?.or previous := by
    cases word with
    | nil => rfl
    | cons c word => simp [List.getLast?_cons]
  rw [standsAt, hlast]
  simp only [Bool.and_eq_true, List.isPrefixOf_iff_prefix]
  constructor
  · rintro ⟨⟨⟨after, rfl⟩, hfirst⟩, hlast⟩
    rw [List.drop_left] at hlast
    exact ⟨after, rfl, hfirst, hlast⟩
  · rintro ⟨after, rfl, hfirst, hlast⟩
    rw [List.drop_left]
    exact ⟨⟨List.prefix_append word after, hfirst⟩, hlast⟩

/-- The last character of a text that follows another one. -/
theorem getLast?_cons_or (c : Char) (before : List Char) (previous : Option Char) :
    (c :: before).getLast?.or previous = before.getLast?.or (some c) := by
  rw [List.getLast?_cons]
  cases before.getLast? <;> rfl

/-- The search finds every place where a word stands. -/
theorem mentionsAfter_iff : mentionsAfter word previous rest = true ↔
    ∃ before after, rest = before ++ word ++ after ∧
      isBoundary (before.getLast?.or previous) (word ++ after).head? = true ∧
      isBoundary ((before ++ word).getLast?.or previous) after.head? = true := by
  induction rest generalizing previous with
  | nil =>
    rw [mentionsAfter, standsAt_iff]
    constructor
    · rintro ⟨after, heq, hfirst, hlast⟩
      exact ⟨[], after, heq, heq ▸ hfirst, hlast⟩
    · rintro ⟨before, after, heq, hfirst, hlast⟩
      obtain ⟨rfl, hrest⟩ : before = [] ∧ word ++ after = [] := by simpa using heq.symm
      exact ⟨after, hrest.symm, hrest ▸ hfirst, hlast⟩
  | cons c rest ih =>
    rw [mentionsAfter, Bool.or_eq_true, standsAt_iff, ih]
    constructor
    · rintro (⟨after, heq, hfirst, hlast⟩ | ⟨before, after, rfl, hfirst, hlast⟩)
      · exact ⟨[], after, heq, heq ▸ hfirst, hlast⟩
      · refine ⟨c :: before, after, rfl, ?_, ?_⟩
        · rwa [getLast?_cons_or]
        · rwa [List.cons_append, getLast?_cons_or]
    · rintro ⟨before, after, heq, hfirst, hlast⟩
      cases before with
      | nil => exact Or.inl ⟨after, heq, heq ▸ hfirst, hlast⟩
      | cons d before =>
        obtain ⟨rfl, rfl⟩ := List.cons_eq_cons.mp heq
        refine Or.inr ⟨before, after, rfl, ?_, ?_⟩
        · rwa [getLast?_cons_or] at hfirst
        · rwa [List.cons_append, getLast?_cons_or] at hlast

theorem mentions_iff : mentions o l = true ↔ Mentions o l := by
  rw [mentions, mentionsAfter_iff]
  simp only [Option.or_none]
  rfl

instance : Decidable (Mentions o l) := decidable_of_iff _ mentions_iff

instance : Decidable (Offends options l) :=
  inferInstanceAs (Decidable (∃ o ∈ options, Mentions o l))

/-- A carriage return is no word character, so at the end of a line it decides nothing. -/
theorem isBoundary_return (previous : Option Char) (after : List Char) :
    isBoundary previous (after ++ ['\r']).head? = isBoundary previous after.head? := by
  cases after with
  | nil => rfl
  | cons c after => rfl

/-- What a line mentions without the return at its end, it mentions with it. -/
theorem mentions_of_withoutReturn (h : Mentions o (withoutReturn l)) : Mentions o l := by
  rcases dropReturn_cases l.toList with hsame | hreturn
  · rwa [withoutReturn, hsame, String.ofList_toList] at h
  · obtain ⟨before, after, hline, hfirst, hlast⟩ := h
    rw [withoutReturn, String.toList_ofList] at hline
    refine ⟨before, after ++ ['\r'], ?_, ?_, ?_⟩
    · rw [hreturn, hline, List.append_assoc (before ++ o.toList)]
    · rwa [IsCut, ← List.append_assoc, isBoundary_return]
    · rwa [IsCut, isBoundary_return]

/-- The empty line has no word, and so no boundary of one. -/
theorem not_mentions_empty (o : String) : ¬ Mentions o "" := by
  rintro ⟨before, after, hline, hfirst, -⟩
  obtain ⟨rfl, hrest⟩ : before = [] ∧ o.toList ++ after = [] := by simpa using hline.symm
  rw [IsCut, hrest] at hfirst
  cases hfirst

theorem firstMentioned?_eq_some_iff : firstMentioned? options l = some o ↔ FirstMentioned options l o := by
  rw [firstMentioned?, List.find?_eq_some_iff_append, FirstMentioned]
  constructor
  · rintro ⟨hmentions, before, after, heq, hbefore⟩
    refine ⟨before, after, heq, mentions_iff.mp hmentions, fun p hp hmentioned => ?_⟩
    simpa [mentions_iff.mpr hmentioned] using hbefore p hp
  · rintro ⟨before, after, heq, hmentions, hbefore⟩
    refine ⟨mentions_iff.mpr hmentions, before, after, heq, fun p hp => ?_⟩
    rw [Bool.not_eq_true', Bool.eq_false_iff]
    exact fun hmentioned => hbefore p hp (mentions_iff.mp hmentioned)

theorem firstMentioned?_eq_none_iff : firstMentioned? options l = none ↔ ¬ Offends options l := by
  simp [firstMentioned?, Offends, ← mentions_iff]

/-- The lines that are kept are those that do not offend. -/
theorem keptLines_eq (options lines : List String) :
    keptLines options lines = lines.filter fun l => ¬ Offends options l := by
  refine List.filter_congr fun l _ => ?_
  rw [Bool.eq_iff_iff, decide_eq_true_iff, Option.isNone_iff_eq_none, firstMentioned?_eq_none_iff]

theorem strippedOptions_eq (options lines : List String) :
    strippedOptions options lines = (lines.filterMap (firstMentioned? options)).eraseDups :=
  foldl_addOnce_nil _

theorem mem_strippedOptions :
    o ∈ strippedOptions options lines ↔ ∃ l ∈ lines, FirstMentioned options l o := by
  rw [strippedOptions_eq, List.mem_eraseDups, List.mem_filterMap]
  simp only [firstMentioned?_eq_some_iff]

theorem strippedOptions_eq_nil_iff :
    strippedOptions options lines = [] ↔ ∀ l ∈ lines, ¬ Offends options l := by
  rw [List.eq_nil_iff_forall_not_mem]
  constructor
  · intro h l hl
    rw [← firstMentioned?_eq_none_iff, Option.eq_none_iff_forall_ne_some]
    intro o ho
    exact h o (mem_strippedOptions.mpr ⟨l, hl, firstMentioned?_eq_some_iff.mp ho⟩)
  · intro h o ho
    obtain ⟨l, hl, hfirst⟩ := mem_strippedOptions.mp ho
    rw [← firstMentioned?_eq_some_iff] at hfirst
    rw [firstMentioned?_eq_none_iff.mpr (h l hl)] at hfirst
    cases hfirst

/-- A text whose lines are all in order is left as it is. -/
theorem sanitize_of_clean (h : ∀ l ∈ Text.lines s, ¬ Offends options l) :
    sanitize options s = ⟨s, []⟩ := by
  simp [sanitize, strippedOptions_eq_nil_iff.mpr h]

theorem stripped_sanitize (options : List String) (s : String) :
    (sanitize options s).stripped = strippedOptions options (Text.lines s) := by
  rw [sanitize]
  split_ifs with h
  · exact (List.isEmpty_iff.mp h).symm
  · rfl

/-- The lines of a text from which lines were dropped: if none is left, there is an empty one. -/
theorem lines_sanitize (h : ∃ l ∈ Text.lines s, Offends options l) :
    Text.lines (sanitize options s).content =
      if keptLines options (Text.lines s) = [] then [""]
      else (keptLines options (Text.lines s)).map withoutReturn := by
  have hstripped : ¬ (strippedOptions options (Text.lines s)).isEmpty = true := by
    rw [List.isEmpty_iff, strippedOptions_eq_nil_iff]
    exact fun hclean => h.elim fun l hl => hclean l hl.1 hl.2
  rw [sanitize, if_neg hstripped]
  split_ifs with hkept
  · have hlast : Text.lines ("\n".intercalate [] ++ "\n") = [""] := by cbv
    rwa [hkept]
  · rw [intercalate_newline hkept, lines_unlines]
    intro l hl
    exact not_mem_of_mem_lines (List.mem_of_mem_filter hl)

/-- Whether lines were dropped or not, none of those of the result offends. -/
theorem not_offends_sanitize (options : List String) (s : String) :
    ∀ l ∈ Text.lines (sanitize options s).content, ¬ Offends options l := by
  by_cases h : ∃ l ∈ Text.lines s, Offends options l
  · rw [lines_sanitize h]
    split_ifs with hkept
    · intro l hl
      obtain rfl := List.mem_singleton.mp hl
      rintro ⟨o, -, ho⟩
      exact not_mentions_empty o ho
    · intro l hl
      obtain ⟨line, hline, rfl⟩ := List.mem_map.mp hl
      rw [keptLines_eq, List.mem_filter, decide_eq_true_iff] at hline
      rintro ⟨o, ho, hmentions⟩
      exact hline.2 ⟨o, ho, mentions_of_withoutReturn hmentions⟩
  · have hclean : ∀ l ∈ Text.lines s, ¬ Offends options l := fun l hl hline => h ⟨l, hl, hline⟩
    rw [sanitize_of_clean hclean]
    exact hclean

/-- What is to be left of a text, and what is to be reported about it. -/
structure IsSanitized (options : List String) (s : String) (r : Sanitized) : Prop where
  clean : ∀ l ∈ Text.lines r.content, ∀ o ∈ options, ¬ Mentions o l
  untouched : (∀ l ∈ Text.lines s, ¬ Offends options l) → r = ⟨s, []⟩
  kept : (∃ l ∈ Text.lines s, Offends options l) → (∃ l ∈ Text.lines s, ¬ Offends options l) →
    Text.lines r.content = ((Text.lines s).filter fun l => ¬ Offends options l).map withoutReturn
  distinct : r.stripped.Nodup
  stripped_eq_nil : r.stripped = [] ↔ ∀ l ∈ Text.lines s, ¬ Offends options l
  mem_stripped : ∀ o, o ∈ r.stripped ↔ ∃ l ∈ Text.lines s, FirstMentioned options l o

/-- Sanitizing drops the lines that mention an option and no others, and reports for each of them
the first option it mentions, once. Sanitizing the result again does nothing. -/
theorem sanitize_drops_offending_lines (options : List String) (s : String) :
    IsSanitized options s (sanitize options s) ∧
      sanitize options (sanitize options s).content = ⟨(sanitize options s).content, []⟩ := by
  have hclean := not_offends_sanitize options s
  refine ⟨⟨?_, sanitize_of_clean, ?_, ?_, ?_, ?_⟩, sanitize_of_clean hclean⟩
  · exact fun l hl o ho hmentions => hclean l hl ⟨o, ho, hmentions⟩
  · rintro hdropped ⟨l, hl, hline⟩
    have hkept : keptLines options (Text.lines s) ≠ [] := by
      rw [keptLines_eq]
      exact List.ne_nil_of_mem (List.mem_filter.mpr ⟨hl, decide_eq_true hline⟩)
    rw [lines_sanitize hdropped, if_neg hkept, keptLines_eq]
  · rw [stripped_sanitize]
    exact nodup_foldl_addOnce List.nodup_nil _
  · rw [stripped_sanitize, strippedOptions_eq_nil_iff]
  · intro o
    rw [stripped_sanitize, mem_strippedOptions]

end ProtoForge.Sources
