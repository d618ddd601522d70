import ProtoForge.Proofs.Pipeline.Images

/-!
# Planning generators

Each enabled id is matched with a generator: its occurrences take the
registered generators of the id one by one, and when there are none left they
turn to the guest of that name. What earlier ids have taken matters to later
ones only through how often an id has occurred before.
-/
namespace ProtoForge.Pipeline

open Generation Settings

variable {γ ε : Type} {c : Config} {idOf : γ → String} {registered left : List γ}
  {enabled rest : List String} {id other : String} {g : γ} {i k n : ℕ}

theorem takeFirst?_eq_none_iff :
    takeFirst? idOf id registered = none ↔ registered.filter (idOf · = id) = [] := by
  induction registered with
  | nil => simp [takeFirst?]
  | cons g registered ih =>
    by_cases hg : idOf g = id
    · simp [takeFirst?, hg]
    · simp only [takeFirst?, if_neg hg, Option.map_eq_none_iff, ih]
      rw [List.filter_cons_of_neg (by simpa using hg)]

/-- The generator that is taken is the first one of its id; those of other ids are all left. -/
theorem filter_of_takeFirst (h : takeFirst? idOf id registered = some (g, left)) (other : String) :
    registered.filter (idOf · = other) =
      if id = other then g :: left.filter (idOf · = other) else left.filter (idOf · = other) := by
  induction registered generalizing left with
  | nil => simp [takeFirst?] at h
  | cons first registered ih =>
    rw [takeFirst?] at h
    split_ifs at h with hfirst
    · obtain ⟨rfl, rfl⟩ := Prod.mk.inj (Option.some.inj h)
      rw [List.filter_cons]
      simp [hfirst]
    · obtain ⟨⟨g', left'⟩, hrest, hpair⟩ := Option.map_eq_some_iff.mp h
      obtain ⟨rfl, rfl⟩ := Prod.mk.inj hpair
      rw [List.filter_cons, List.filter_cons, ih hrest]
      by_cases hother : idOf first = other
      · have hne : id ≠ other := fun h => hfirst (hother.trans h.symm)
        simp [hother, hne]
      · simp [hother]

/-- The plan for the guest of an id, if there is one. -/
def guestFor? {γ : Type} (c : Config) (id : String) : Option (Planned γ) :=
  (c.generators.guests.get? id).map fun guest =>
    .guest id (guest.image.getD c.sandbox.compilerImage) guest.args

/-- What serves an id that has occurred `k` times before. -/
def served? (c : Config) (idOf : γ → String) (registered : List γ) (id : String) (k : ℕ) :
    Option (Planned γ) :=
  ((registered.filter (idOf · = id))[k]?.map .registered).or (guestFor? c id)

/-- What serves the enabled id at a place. -/
def choice? (c : Config) (idOf : γ → String) (registered : List γ) (enabled : List String) (i : ℕ) :
    Option (Planned γ) :=
  enabled[i]?.bind fun id => served? c idOf registered id ((enabled.take i).count id)

/-- The first id is served or unknown, and what it leaves serves the others as if that id had
occurred once less. -/
theorem planGenerators_cons (c : Config) (idOf : γ → String) (id : String) (rest : List String)
    (registered : List γ) :
    ∃ left, (∀ other k, served? c idOf left other k =
        served? c idOf registered other (k + if id = other then 1 else 0)) ∧
      planGenerators c idOf (id :: rest) registered =
        match served? c idOf registered id 0 with
        | none => .error (.unknownGenerator id)
        | some p => (planGenerators c idOf rest left).map (p :: ·) := by
  cases htake : takeFirst? idOf id registered with
  | none =>
    have hempty := takeFirst?_eq_none_iff.mp htake
    refine ⟨registered, fun other k => ?_, ?_⟩
    · split_ifs with hother
      · simp [served?, ← hother, hempty]
      · rfl
    · rw [planGenerators, htake, served?, hempty, guestFor?]
      cases c.generators.guests.get? id with
      | none => rfl
      | some guest =>
        simp only [List.getElem?_nil, Option.map_none, Option.none_or, Option.map_some]
        cases planGenerators c idOf rest registered <;> rfl
  | some taken =>
    obtain ⟨g, left⟩ := taken
    refine ⟨left, fun other k => ?_, ?_⟩
    · rw [served?, served?, filter_of_takeFirst htake other]
      split_ifs <;> simp
    · rw [planGenerators, htake, served?, filter_of_takeFirst htake id, if_pos rfl]
      simp only [List.getElem?_cons_zero, Option.map_some, Option.some_or]
      cases planGenerators c idOf rest left <;> rfl

theorem choice?_cons_zero : choice? c idOf registered (id :: rest) 0 = served? c idOf registered id 0 := by
  simp [choice?]

theorem choice?_cons_succ (hleft : ∀ other k, served? c idOf left other k =
      served? c idOf registered other (k + if id = other then 1 else 0)) (i : ℕ) :
    choice? c idOf registered (id :: rest) (i + 1) = choice? c idOf left rest i := by
  simp [choice?, hleft, List.count_cons]

/-- A plan has what serves each enabled id; without one, the first id that nothing serves is
unknown. -/
theorem planGenerators_spec (c : Config) (idOf : γ → String) (enabled : List String)
    (registered : List γ) :
    match planGenerators c idOf enabled registered with
    | .ok plan => plan.length = enabled.length ∧
        ∀ i, plan[i]? = choice? c idOf registered enabled i
    | .error f => ∃ i id, enabled[i]? = some id ∧ f = .unknownGenerator id ∧
        choice? c idOf registered enabled i = none ∧
          ∀ j < i, choice? c idOf registered enabled j ≠ none := by
  induction enabled generalizing registered with
  | nil => simp [planGenerators, choice?]
  | cons id rest ih =>
    obtain ⟨left, hleft, hplan⟩ := planGenerators_cons c idOf id rest registered
    have hrest := ih left
    rw [hplan]
    cases hfirst : served? c idOf registered id 0 with
    | none => exact ⟨0, id, rfl, rfl, by rw [choice?_cons_zero, hfirst], by simp⟩
    | some p =>
      dsimp only
      cases hleftPlan : planGenerators c idOf rest left with
      | ok plan =>
        rw [hleftPlan] at hrest
        refine ⟨by simp [hrest.1], fun i => ?_⟩
        cases i with
        | zero => simp [choice?_cons_zero, hfirst]
        | succ i => simp [choice?_cons_succ hleft, hrest.2]
      | error f =>
        rw [hleftPlan] at hrest
        obtain ⟨i, unknown, hi, rfl, hnone, hbefore⟩ := hrest
        refine ⟨i + 1, unknown, by simpa using hi, rfl, ?_, ?_⟩
        · rw [choice?_cons_succ hleft, hnone]
        · intro j hj
          cases j with
          | zero => simp [choice?_cons_zero, hfirst]
          | succ j =>
            rw [choice?_cons_succ hleft]
            exact hbefore j (by omega)

/-- The registered generator at one place and the enabled id at another one belong together: the
generator has that id, and as many generators of the id come before it as earlier occurrences of
the id. -/
def Pairs (idOf : γ → String) (registered : List γ) (enabled : List String) (n i : ℕ) : Prop :=
  ∃ g, registered[n]? = some g ∧ enabled[i]? = some (idOf g) ∧
    (registered.take n).countP (idOf · = idOf g) = (enabled.take i).count (idOf g)

/-- An enabled id for which no registered generator is left, and that has no guest. -/
def Unserved (c : Config) (idOf : γ → String) (registered : List γ) (enabled : List String)
    (i : ℕ) : Prop :=
  (∀ n, ¬ Pairs idOf registered enabled n i) ∧
    ∃ id, enabled[i]? = some id ∧ c.generators.guests.get? id = none

/-- Which of the members that pass a test one is, is told by counting those before it. -/
theorem getElem?_filter_eq_some_iff {α : Type} {p : α → Bool} {xs : List α} {a : α} {k : ℕ}
    (ha : p a = true) :
    (xs.filter p)[k]? = some a ↔ ∃ n, xs[n]? = some a ∧ (xs.take n).countP p = k := by
  induction xs generalizing k with
  | nil => simp
  | cons x xs ih =>
    rw [← Nat.or_exists_add_one]
    cases hx : p x with
    | false =>
      have hne : x ≠ a := by
        rintro rfl
        rw [hx] at ha
        cases ha
      simp [hx, hne, ih]
    | true =>
      cases k with
      | zero => simp [hx]
      | succ k => simp [hx, ih]

/-- Among the members that pass a test, a later one has more of them before it. -/
theorem countP_take_lt {α : Type} {p : α → Bool} {xs : List α} {a : α} {i j : ℕ}
    (hi : xs[i]? = some a) (ha : p a = true) (hij : i < j) :
    (xs.take i).countP p < (xs.take j).countP p := by
  have hsucc : (xs.take (i + 1)).countP p = (xs.take i).countP p + 1 := by
    rw [List.take_add_one, hi, List.countP_append]
    simp [ha]
  have hprefix : xs.take (i + 1) <+: xs.take j := List.take_prefix_take_left (by omega)
  have hle := hprefix.sublist.countP_le (p := p)
  omega

theorem Pairs.choice?_eq (h : Pairs idOf registered enabled n i) :
    ∃ g, registered[n]? = some g ∧ choice? c idOf registered enabled i = some (.registered g) := by
  obtain ⟨g, hn, hi, hcount⟩ := h
  refine ⟨g, hn, ?_⟩
  have hfilter := (getElem?_filter_eq_some_iff (by simp)).mpr ⟨n, hn, hcount⟩
  rw [choice?, hi, Option.bind_some, served?, hfilter]
  rfl

/-- An occurrence that no registered generator belongs to is left to the guest. -/
theorem choice?_eq_guestFor (hi : enabled[i]? = some id)
    (hnone : ∀ n, ¬ Pairs idOf registered enabled n i) :
    choice? c idOf registered enabled i = guestFor? c id := by
  have hfilter : (registered.filter (idOf · = id))[(enabled.take i).count id]? = none := by
    rw [Option.eq_none_iff_forall_ne_some]
    intro g hg
    obtain rfl : idOf g = id := by simpa using List.of_mem_filter (List.mem_of_getElem? hg)
    obtain ⟨n, hn, hcount⟩ := (getElem?_filter_eq_some_iff (by simp)).mp hg
    exact hnone n ⟨g, hn, hi, hcount⟩
  rw [choice?, hi, Option.bind_some, served?, hfilter]
  rfl

theorem unserved_iff : Unserved c idOf registered enabled i ↔
    i < enabled.length ∧ choice? c idOf registered enabled i = none := by
  constructor
  · rintro ⟨hnone, id, hi, hguest⟩
    refine ⟨(List.getElem?_eq_some_iff.mp hi).1, ?_⟩
    rw [choice?_eq_guestFor hi hnone, guestFor?, hguest]
    rfl
  · rintro ⟨hlt, hchoice⟩
    have hnone : ∀ n, ¬ Pairs idOf registered enabled n i := by
      intro n hpair
      obtain ⟨g, -, hg⟩ := hpair.choice?_eq (c := c)
      rw [hchoice] at hg
      cases hg
    have hi := List.getElem?_eq_getElem hlt
    rw [choice?_eq_guestFor hi hnone, guestFor?, Option.map_eq_none_iff] at hchoice
    exact ⟨hnone, _, hi, hchoice⟩

/-- No registered generator belongs to two occurrences. -/
theorem Pairs.unique {j : ℕ} (hi : Pairs idOf registered enabled n i)
    (hj : Pairs idOf registered enabled n j) : i = j := by
  obtain ⟨g, hn, hgi, hcounti⟩ := hi
  obtain ⟨g', hn', hgj, hcountj⟩ := hj
  obtain rfl : g = g' := Option.some.inj (hn.symm.trans hn')
  have hcount : (enabled.take i).count (idOf g) = (enabled.take j).count (idOf g) :=
    hcounti.symm.trans hcountj
  rw [List.count_eq_countP, List.count_eq_countP] at hcount
  rcases lt_trichotomy i j with hlt | heq | hlt
  · exact absurd hcount (countP_take_lt hgi (by simp) hlt).ne
  · exact heq
  · exact absurd hcount (countP_take_lt hgj (by simp) hlt).ne'

/-- An id is not served where it has occurred before as often as it is registered. -/
theorem unserved_iff_count (hi : enabled[i]? = some id) : Unserved c idOf registered enabled i ↔
    c.generators.guests.get? id = none ∧
      registered.countP (idOf · = id) ≤ (enabled.take i).count id := by
  have hlt : i < enabled.length := (List.getElem?_eq_some_iff.mp hi).1
  rw [unserved_iff, choice?, hi, Option.bind_some, served?, guestFor?, List.countP_eq_length_filter]
  simp [hlt, and_comm]

theorem exists_last_occurrence {α : Type} [DecidableEq α] {xs : List α} {a : α} (h : a ∈ xs) :
    ∃ i, xs[i]? = some a ∧ xs.count a = (xs.take i).count a + 1 := by
  have hpos : 0 < xs.count a := List.count_pos_iff.mpr h
  have hlast : (xs.filter (· == a))[xs.count a - 1]? = some a := by
    rw [List.filter_beq]
    simp [hpos]
  obtain ⟨i, hi, hcount⟩ := (getElem?_filter_eq_some_iff (by simp)).mp hlast
  refine ⟨i, hi, ?_⟩
  rw [List.count_eq_countP, List.count_eq_countP] at *
  omega

/-- All enabled ids are served if none of those without a guest occurs more often than it is
registered. -/
theorem forall_not_unserved_iff : (∀ i, ¬ Unserved c idOf registered enabled i) ↔
    ∀ id ∈ enabled, c.generators.guests.get? id = none →
      enabled.count id ≤ registered.countP (idOf · = id) := by
  constructor
  · intro h id hid hguest
    obtain ⟨i, hi, hcount⟩ := exists_last_occurrence hid
    have hserved := h i
    rw [unserved_iff_count hi] at hserved
    have hless : (enabled.take i).count id < registered.countP (idOf · = id) :=
      not_le.mp fun hle => hserved ⟨hguest, hle⟩
    omega
  · intro h i hunserved
    obtain ⟨-, id, hi, -⟩ := id hunserved
    obtain ⟨hguest, hle⟩ := (unserved_iff_count hi).mp hunserved
    have hbound := h id (List.mem_of_getElem? hi) hguest
    have hmore : (enabled.take i).count id < (enabled.take enabled.length).count id :=
      countP_take_lt hi (by simp) (List.getElem?_eq_some_iff.mp hi).1
    rw [List.take_length] at hmore
    omega

/-- The id that a planned generator runs under. -/
def Planned.idBy (idOf : γ → String) : Planned γ → String
  | .registered g => idOf g
  | .guest id _ _ => id

theorem idBy_of_choice? {p : Planned γ} (h : choice? c idOf registered enabled i = some p) :
    enabled[i]? = some (p.idBy idOf) := by
  obtain ⟨id, hi, hserved⟩ := Option.bind_eq_some_iff.mp h
  rw [hi]
  rcases Option.or_eq_some_iff.mp hserved with hregistered | ⟨-, hguest⟩
  · obtain ⟨g, hg, rfl⟩ := Option.map_eq_some_iff.mp hregistered
    have hid : idOf g = id := by simpa using List.of_mem_filter (List.mem_of_getElem? hg)
    exact congrArg some hid.symm
  · obtain ⟨guest, -, rfl⟩ := Option.map_eq_some_iff.mp hguest
    rfl

theorem planGenerators_ok {plan : List (Planned γ)}
    (h : planGenerators c idOf enabled registered = .ok plan) :
    plan.length = enabled.length ∧ ∀ i, plan[i]? = choice? c idOf registered enabled i := by
  have hspec := planGenerators_spec c idOf enabled registered
  rwa [h] at hspec

/-- Planning succeeds if everything enabled is served. -/
theorem exists_plan_iff : (∃ plan, planGenerators c idOf enabled registered = .ok plan) ↔
    ∀ i, ¬ Unserved c idOf registered enabled i := by
  constructor
  · rintro ⟨plan, hplan⟩ i hunserved
    obtain ⟨hlength, hchoice⟩ := planGenerators_ok hplan
    obtain ⟨hlt, hnone⟩ := unserved_iff.mp hunserved
    rw [← hchoice i, List.getElem?_eq_none_iff, hlength] at hnone
    omega
  · intro h
    have hspec := planGenerators_spec c idOf enabled registered
    cases hplan : planGenerators c idOf enabled registered with
    | ok plan => exact ⟨plan, rfl⟩
    | error f =>
      rw [hplan] at hspec
      obtain ⟨i, id, hi, -, hnone, -⟩ := hspec
      exact absurd (unserved_iff.mpr ⟨(List.getElem?_eq_some_iff.mp hi).1, hnone⟩) (h i)

/-- A plan has the enabled ids. -/
theorem map_idBy_of_plan {plan : List (Planned γ)}
    (h : planGenerators c idOf enabled registered = .ok plan) :
    plan.map (Planned.idBy idOf) = enabled := by
  obtain ⟨hlength, hchoice⟩ := planGenerators_ok h
  refine List.ext_getElem? fun i => ?_
  rw [List.getElem?_map]
  cases hplanned : plan[i]? with
  | none =>
    rw [List.getElem?_eq_none_iff, hlength] at hplanned
    rw [List.getElem?_eq_none hplanned]
    rfl
  | some p => exact (idBy_of_choice? ((hchoice i).symm.trans hplanned)).symm

/-- Generators are built under the ids that they are planned for. -/
theorem ids_of_buildGenerators {plan : List (Planned (HostGenerator ε))} {w w' : World ε}
    {generators : List (Generator ε)}
    (h : outcome (plan.mapM (buildGenerator c)) w = (.ok generators, w')) :
    generators.map (·.id) = plan.map (Planned.idBy (·.id)) := by
  induction plan generalizing generators w w' with
  | nil =>
    obtain rfl := Except.ok.inj (Prod.mk.inj h).1
    rfl
  | cons planned plan ih =>
    rw [List.mapM_cons] at h
    obtain ⟨g, w₁, hfirst, h⟩ := outcome_bind_eq_ok.mp h
    obtain ⟨gs, w₂, hrest, h⟩ := outcome_bind_eq_ok.mp h
    obtain rfl := Except.ok.inj (Prod.mk.inj h).1
    have hid : g.id = planned.idBy (·.id) := by
      cases planned with
      | registered g' =>
        obtain rfl := Except.ok.inj (Prod.mk.inj hfirst).1
        rfl
      | guest id path args =>
        obtain ⟨image, w₃, -, hfirst⟩ := outcome_bind_eq_ok.mp hfirst
        obtain rfl := Except.ok.inj (Prod.mk.inj hfirst).1
        rfl
    rw [List.map_cons, List.map_cons, hid, ih hrest]

/-- Planning succeeds just if no id without a guest is enabled more often than it is registered, and
fails for the first occurrence that is not served. A plan has one generator for each enabled id, in
their order: the registered one that belongs to the occurrence, or else the guest of the id. No
registered generator is planned twice, and the generators built from a plan have the enabled ids. -/
theorem planGenerators_matches (c : Config) (enabled : List String)
    (registered : List (HostGenerator ε)) :
    ((∃ plan, planGenerators c (·.id) enabled registered = .ok plan) ↔
      ∀ id ∈ enabled, c.generators.guests.get? id = none →
        enabled.count id ≤ registered.countP (·.id = id)) ∧
    (∀ f, planGenerators c (·.id) enabled registered = .error f →
      ∃ i id, enabled[i]? = some id ∧ f = .unknownGenerator id ∧
        Unserved c (·.id) registered enabled i ∧
          ∀ j < i, ¬ Unserved c (·.id) registered enabled j) ∧
    ∀ plan, planGenerators c (·.id) enabled registered = .ok plan →
      plan.length = enabled.length ∧
      (∀ n i, Pairs (·.id) registered enabled n i →
        ∃ g, registered[n]? = some g ∧ plan[i]? = some (.registered g)) ∧
      (∀ i id, enabled[i]? = some id → (∀ n, ¬ Pairs (·.id) registered enabled n i) →
        ∃ guest, c.generators.guests.get? id = some guest ∧
          plan[i]? = some (.guest id (guest.image.getD c.sandbox.compilerImage) guest.args)) ∧
      (∀ n i j, Pairs (·.id) registered enabled n i → Pairs (·.id) registered enabled n j → i = j) ∧
      ∀ w w' generators, outcome (plan.mapM (buildGenerator c)) w = (.ok generators, w') →
        generators.map (·.id) = enabled := by
  refine ⟨exists_plan_iff.trans forall_not_unserved_iff, fun f hf => ?_, fun plan hplan => ?_⟩
  · have hspec := planGenerators_spec c (·.id) enabled registered
    rw [hf] at hspec
    obtain ⟨i, id, hi, rfl, hnone, hbefore⟩ := hspec
    refine ⟨i, id, hi, rfl, unserved_iff.mpr ⟨(List.getElem?_eq_some_iff.mp hi).1, hnone⟩, ?_⟩
    intro j hj hunserved
    exact hbefore j hj (unserved_iff.mp hunserved).2
  · obtain ⟨hlength, hchoice⟩ := planGenerators_ok hplan
    refine ⟨hlength, fun n i hpair => ?_, fun i id hi hnone => ?_, fun _ _ _ hi hj => hi.unique hj, ?_⟩
    · obtain ⟨g, hn, hg⟩ := hpair.choice?_eq (c := c)
      exact ⟨g, hn, (hchoice i).trans hg⟩
    · have hlt : i < plan.length := hlength ▸ (List.getElem?_eq_some_iff.mp hi).1
      have hguest := hchoice i
      rw [choice?_eq_guestFor hi hnone, guestFor?] at hguest
      cases hfound : c.generators.guests.get? id with
      | none => simp [hfound, hlt.not_ge] at hguest
      | some guest => exact ⟨guest, rfl, by rw [hguest, hfound]; rfl⟩
    · intro w w' generators hbuild
      rw [ids_of_buildGenerators hbuild, map_idBy_of_plan hplan]

/-- A guest that steps in when a registered generator of its id is used up. -/
def relievingGuest : Config := { generators := { guests := [("a", { args := ["--slow"] })] } }

/-- A generator that writes nothing. -/
def silent (id : String) : HostGenerator Unit := ⟨id, fun _ => pure {}⟩

/-- Of three occurrences of an id the first two take the two generators of the id, wherever these
were registered, and the third one its guest; an id without a guest can only be enabled as often as
it is registered. -/
theorem third_occurrence_relieved :
    (∃ plan, planGenerators relievingGuest (·.id) ["a", "b", "a", "a"]
        [silent "b", silent "a", silent "a"] = .ok plan ∧ plan.length = 4 ∧
      (Pairs (·.id) [silent "b", silent "a", silent "a"] ["a", "b", "a", "a"] 2 2 ∧
        ∃ g, plan[2]? = some (.registered g)) ∧
      plan[3]? = some (.guest "a" ⟨"protoc-wrapper.wasm"⟩ ["--slow"])) ∧
    ¬ ∃ plan, planGenerators relievingGuest (·.id) ["b", "a", "b"] [silent "b", silent "a"] = .ok plan := by
  have hplans := planGenerators_matches relievingGuest ["a", "b", "a", "a"]
    [silent "b", silent "a", silent "a"]
  obtain ⟨plan, hplan⟩ := hplans.1.mpr (by decide)
  obtain ⟨hlength, hregistered, hguest, -⟩ := hplans.2.2 plan hplan
  have hpair : Pairs (·.id) [silent "b", silent "a", silent "a"] ["a", "b", "a", "a"] 2 2 :=
    ⟨silent "a", rfl, rfl, by decide⟩
  have hthird : ∀ n, ¬ Pairs (·.id) [silent "b", silent "a", silent "a"] ["a", "b", "a", "a"] n 3 := by
    rintro n ⟨g, hn, hi, hcount⟩
    have hid : "a" = g.id := Option.some.inj hi
    have hless := countP_take_lt (p := (·.id = g.id)) hn (by simp) (List.getElem?_eq_some_iff.mp hn).1
    simp only [← hid] at hcount hless
    rw [hcount] at hless
    exact absurd hless (by decide)
  obtain ⟨g, -, hg⟩ := hregistered 2 2 hpair
  obtain ⟨guest, hfound, hlast⟩ := hguest 3 "a" rfl hthird
  obtain rfl : (⟨none, ["--slow"]⟩ : GuestConfig) = guest := Option.some.inj hfound
  refine ⟨⟨plan, hplan, hlength, ⟨hpair, g, hg⟩, hlast⟩, ?_⟩
  rw [(planGenerators_matches relievingGuest ["b", "a", "b"] [silent "b", silent "a"]).1]
  decide

end ProtoForge.Pipeline
