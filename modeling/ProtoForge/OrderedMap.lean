/-!
# Ordered maps

Finite maps from texts, kept as lists in ascending order of their keys.
-/
namespace ProtoForge

/-- A map from texts; its entries ascend by key. -/
abbrev OrderedMap (α : Type) := List (String × α)

namespace OrderedMap

variable {α : Type}

/-- The value of a key. -/
def get? (m : OrderedMap α) (k : String) : Option α := m.lookup k

/-- Whether a key has a value. -/
def contains (m : OrderedMap α) (k : String) : Bool := (m.get? k).isSome

/-- Sets the value of a key. -/
def insert : OrderedMap α → String → α → OrderedMap α
  | [], k, v => [(k, v)]
  | (k', v') :: rest, k, v =>
      if k = k' then (k, v) :: rest
      else if k < k' then (k, v) :: (k', v') :: rest
      else (k', v') :: insert rest k v

/-- Sets the value of a key that has none yet. -/
def insertNew (m : OrderedMap α) (k : String) (v : α) : OrderedMap α :=
  if m.contains k then m else m.insert k v

/-- The map of a list of entries; later ones win. -/
def ofList (es : List (String × α)) : OrderedMap α := es.foldl (fun m e => m.insert e.1 e.2) []

/-- The keys in ascending order. -/
def keys (m : OrderedMap α) : List String := m.map (·.1)

theorem get?_insert_self (m : OrderedMap α) (k : String) (v : α) : (m.insert k v).get? k = some v := by
  induction m with
  | nil => simp [insert, get?]
  | cons e rest ih =>
      obtain ⟨k', v'⟩ := e
      simp only [insert]
      split
      · simp [get?]
      · split
        · simp [get?]
        · rename_i h _
          have hb : (k == k') = false := by simpa using h
          simpa [get?, List.lookup_cons, hb] using ih

theorem get?_insert_of_ne (m : OrderedMap α) {k j : String} (v : α) (h : j ≠ k) :
    (m.insert k v).get? j = m.get? j := by
  have hb : (j == k) = false := by simpa using h
  induction m with
  | nil => simp [insert, get?, List.lookup_cons, hb]
  | cons e rest ih =>
      obtain ⟨k', v'⟩ := e
      simp only [insert]
      split
      · rename_i he
        subst he
        simp [get?, List.lookup_cons, hb]
      · split
        · simp [get?, List.lookup_cons, hb]
        · simp only [get?, List.lookup_cons] at ih ⊢
          split <;> simp_all

end OrderedMap

end ProtoForge
