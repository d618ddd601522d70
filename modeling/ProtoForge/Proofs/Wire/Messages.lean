import ProtoForge.Proofs.Wire.Records

/-!
# Messages read back

The entries of a record are read one after the other, each into its field. A
record that conforms to its type holds at most one value of a field that is not
repeated and every required field, so reading its bytes gives it back.
-/
namespace ProtoForge.Wire

/-- The values that a field can hold; the messages among them have a property. -/
def Field.Fits (nested : MessageType → Record → Prop) (f : Field) : Value → Prop
  | .varint v => f.label ≠ .packed ∧ f.kind.Holds v
  | .fixed64 _ => f.kind = .double
  | .text _ => f.kind = .text
  | .bytes _ => f.kind = .bytes
  | .packed vs => f.label = .packed ∧ vs ≠ [] ∧ ∀ v ∈ vs, f.kind.Holds v
  | .message m => ∃ t, f.kind = .message t ∧ nested t m

theorem Field.Fits.mono {P Q : MessageType → Record → Prop} {f : Field} {v : Value}
    (h : f.Fits P v) (hPQ : ∀ t m, P t m → Q t m) : f.Fits Q v := by
  cases v with
  | message m => exact h.imp fun t hm => ⟨hm.1, hPQ t m hm.2⟩
  | _ => exact h

/-- The fields of which a later value is joined to the earlier one. -/
def Field.Joins (f : Field) : Prop :=
  f.label = .packed ∨ f.label ≠ .repeated ∧ ∃ t, f.kind = .message t

theorem Field.Joins.not_repeated {f : Field} (h : f.Joins) : f.label ≠ .repeated := by
  rcases h with h | h
  · simp [h]
  · exact h.1

/-- The messages that a reader gives back, whatever follows them. -/
def Survives (nested : MessageReader) (t : MessageType) (m : Record) : Prop :=
  m.encode.length < 2 ^ 64 →
    ∀ rest, Gives (nested t t.initial (encodeDelimited m.encode ++ rest)) m rest

variable {P Q : MessageType → Record → Prop} {nested : MessageReader} {depth n : ℕ}
  {t : MessageType} {f : Field} {v : Value} {word : UInt64} {vs us : List UInt64}
  {m r s s' es : Record} {b rest : Bytes}

namespace MessageType

theorem mem_fields (h : t.field? n = some f) : f ∈ t.fields := List.mem_of_find?_eq_some h

theorem number_of_field? (h : t.field? n = some f) : f.number = n := by
  simpa using List.find?_some h

/-- The numbers of the fields leave room for the layout in a key of 32 bits. -/
theorem number_bounds (hf : f ∈ t.fields) : 0 < f.number ∧ f.number < 2 ^ 29 := by
  have hall : ∀ f ∈ t.fields, 0 < f.number ∧ f.number < 2 ^ 29 := by cases t <;> decide
  exact hall f hf

/-- No two fields of a type have the same number. -/
theorem field?_number (hf : f ∈ t.fields) : t.field? f.number = some f := by
  have hall : ∀ f ∈ t.fields, t.field? f.number = some f := by cases t <;> decide
  exact hall f hf

theorem kind_of_required (hf : f ∈ t.fields) (h : f.label = .required) :
    f.kind = .text ∨ f.kind = .bool := by
  have hall : ∀ f ∈ t.fields, f.label = .required → f.kind = .text ∨ f.kind = .bool := by
    cases t <;> decide
  exact hall f hf h

/-- A later value of a required field takes the place of the earlier one. -/
theorem not_joins_of_required (hf : f ∈ t.fields) (h : f.label = .required) : ¬ f.Joins := by
  rintro (hpacked | ⟨-, t', hkind⟩)
  · simp [h] at hpacked
  · simpa [hkind] using kind_of_required hf h

theorem isSorted_initial (t : MessageType) : t.initial.IsSorted := by
  have hall : (t.fields.map (·.number)).Pairwise (· ≤ ·) := by cases t <;> decide
  rw [initial, Record.IsSorted, List.pairwise_map]
  exact (List.pairwise_map.mp hall).sublist List.filter_sublist

/-- Only the required fields hold something before anything is read. -/
theorem all_initial (h : ∀ f, t.field? n = some f → f.label ≠ .required) :
    t.initial.all n = [] := by
  refine Record.all_eq_nil_iff.mpr fun e he => ?_
  rintro rfl
  obtain ⟨f, hf, rfl⟩ := List.mem_map.mp he
  obtain ⟨hf, hlabel⟩ := List.mem_filter.mp hf
  exact h f (field?_number hf) (by simpa using hlabel)

end MessageType

theorem readWord_encodeWord (h : f.kind.Holds word) (s : Record) (rest : Bytes) :
    Gives (readWord f s (encodeWord word ++ rest)) (s.storeWord f word) rest := by
  refine (readVarint_encodeVarint word.toNat_lt rest).bind fun h' => ?_
  dsimp only
  rw [h.2]
  exact ⟨h', rfl⟩

theorem Record.packedWords_set (hs : s.IsSorted) :
    (s.set n (.packed us)).packedWords n = us := by
  rw [packedWords, get?, all_set hs, if_pos rfl]
  rfl

theorem Record.set_set (hs : s.IsSorted) (v v' : Value) :
    (s.set n v).set n v' = s.set n v' := by
  refine ((hs.set n v).set n v').ext (hs.set n v') fun k => ?_
  rw [all_set (hs.set n v), all_set hs, all_set hs]
  split_ifs <;> rfl

/-- Words are added to those that a packed field has. -/
theorem readWords_encode (hs : s.IsSorted) (hlabel : f.label = .packed)
    (hvs : ∀ v ∈ vs, f.kind.Holds v) (rest : Bytes) :
    Gives (readUntil (readWord f) rest.length (s.set f.number (.packed us))
      (vs.flatMap encodeWord ++ rest)) (s.set f.number (.packed (us ++ vs))) rest := by
  induction vs generalizing us with
  | nil =>
    rw [List.append_nil]
    exact readUntil_of_le le_rfl
  | cons v vs ih =>
    obtain ⟨hv, hvs⟩ := List.forall_mem_cons.mp hvs
    have hstep := readWord_encodeWord hv (s.set f.number (.packed us))
      (vs.flatMap encodeWord ++ rest)
    rw [Record.storeWord, hlabel, Record.packedWords_set hs, Record.set_set hs] at hstep
    rw [List.flatMap_cons, List.append_assoc, List.append_cons]
    exact readUntil_step hstep (by simp) (ih hvs)

theorem length_le_encodeDelimited (b : Bytes) : b.length ≤ (encodeDelimited b).length := by
  simp [encodeDelimited]

/-- A field is read as one value, unless it holds messages or many numbers. -/
theorem readField_of_scalar (nested : MessageReader) (s : Record) {k : Kind} (hkind : f.kind = k)
    (hmessage : ∀ t, k ≠ .message t)
    (hsingle : k.wireType = .varint → f.label ≠ .repeated ∧ f.label ≠ .packed)
    (hread : Gives (readScalar k b) v rest) :
    Gives (readField nested f k.wireType s b) (s.store f v) rest := by
  have heq : readField nested f k.wireType s b =
      readScalar k b >>= fun read => pure (s.store f read.1, read.2) := by
    obtain ⟨number, name, label, kind⟩ := f
    subst hkind
    cases kind <;> cases label <;> simp [Kind.wireType] at hmessage hsingle <;>
      simp [readField, expectWireType, Kind.wireType] <;> rfl
  rw [heq]
  exact hread.bind fun h => ⟨h, rfl⟩

/-- A field of many numbers is read as one of them or as a stretch of them. -/
theorem readField_of_words (hkind : f.kind.wireType = .varint)
    (hmany : f.label = .repeated ∨ f.label = .packed) (s : Record) (b : Bytes) :
    readField nested f .varint s b = readWord f s b ∧
      readField nested f .lengthDelimited s b = readStretch (readWord f) s b := by
  obtain ⟨number, name, label, kind⟩ := f
  cases kind <;> cases label <;> simp [Kind.wireType] at hkind hmany <;> exact ⟨rfl, rfl⟩

theorem readField_of_message (hkind : f.kind = .message t) (s : Record) (b : Bytes) :
    readField nested f .lengthDelimited s b = (do
      let start := if f.label = .repeated then t.initial else (s.message? f.number).getD t.initial
      let (m, rest) ← nested t start b
      pure (s.store f (.message m), rest)) := by
  obtain ⟨number, name, label, kind⟩ := f
  obtain rfl : kind = .message t := hkind
  rfl

/-- What is read for a value is stored in its field. -/
theorem readField_encode (hs : s.IsSorted) (hfits : f.Fits (Survives nested) v)
    (hnew : f.Joins → s.all f.number = []) (hlength : v.encode.length < 2 ^ 64) (rest : Bytes) :
    Gives (readField nested f v.wireType s (v.encode ++ rest)) (s.store f v) rest := by
  cases v with
  | varint word =>
    obtain ⟨hlabel, hword⟩ := hfits
    by_cases hrepeated : f.label = .repeated
    · have hstep := readWord_encodeWord hword s rest
      rw [Record.storeWord, hrepeated] at hstep
      exact (readField_of_words hword.1 (Or.inl hrepeated) s _).1 ▸ hstep
    · have hmessage : ∀ t, f.kind ≠ .message t := fun t ht => by
        simp [ht, Kind.Holds, Kind.wireType] at hword
      have hread := readField_of_scalar nested s rfl hmessage
        (fun _ => ⟨hrepeated, hlabel⟩) (readScalar_varint hword rest)
      rw [hword.1] at hread
      exact hread
  | fixed64 bits =>
    exact readField_of_scalar nested s hfits (by nofun) (by nofun) (readScalar_double bits rest)
  | text text =>
    have htext := (length_le_encodeDelimited (Bytes.ofText text)).trans_lt hlength
    exact readField_of_scalar nested s hfits (by nofun) (by nofun) (readScalar_text htext rest)
  | bytes content =>
    have hcontent := (length_le_encodeDelimited content).trans_lt hlength
    exact readField_of_scalar nested s hfits (by nofun) (by nofun) (readScalar_bytes hcontent rest)
  | packed words =>
    obtain ⟨hlabel, hwords, hholds⟩ := hfits
    obtain ⟨word, words, rfl⟩ := List.exists_cons_of_ne_nil hwords
    obtain ⟨hword, hwords⟩ := List.forall_mem_cons.mp hholds
    have hnone : s.packedWords f.number = [] := by
      rw [Record.packedWords, Record.get?, hnew (Or.inl hlabel)]
      rfl
    have hstep := readWord_encodeWord hword s (words.flatMap encodeWord ++ rest)
    rw [Record.storeWord, hlabel, hnone] at hstep
    have hloop := readUntil_step hstep (by simp) (readWords_encode hs hlabel hwords rest)
    rw [← List.append_assoc, ← List.flatMap_cons] at hloop
    have hread := readStretch_encodeDelimited ((length_le_encodeDelimited _).trans_lt hlength) hloop
    rw [Record.store, hlabel]
    exact (readField_of_words hword.1 (Or.inr hlabel) s _).2 ▸ hread
  | message m =>
    obtain ⟨t, hkind, hm⟩ := hfits
    have hstart : (if f.label = .repeated then t.initial
        else (s.message? f.number).getD t.initial) = t.initial := by
      split
      · rfl
      · rename_i hlabel
        rw [Record.message?, Record.get?, hnew (Or.inr ⟨hlabel, t, hkind⟩)]
        rfl
    have hread := hm ((length_le_encodeDelimited _).trans_lt hlength) rest
    refine (readField_of_message hkind s _).symm ▸ ?_
    rw [hstart]
    exact hread.bind fun h => ⟨h, rfl⟩

/-- An entry is stored in the field of its number. -/
theorem readEntry_encode (hs : s.IsSorted) (hf : t.field? n = some f)
    (hfits : f.Fits (Survives nested) v) (hnew : f.Joins → s.all n = [])
    (hlength : v.encode.length < 2 ^ 64) (rest : Bytes) :
    Gives (readEntry nested depth t s (encodeKey n v.wireType ++ v.encode ++ rest))
      (s.store f v) rest := by
  obtain rfl := MessageType.number_of_field? hf
  obtain ⟨hpos, hsmall⟩ := MessageType.number_bounds (MessageType.mem_fields hf)
  rw [List.append_assoc]
  refine (readKey_encodeKey hpos hsmall v.wireType (v.encode ++ rest)).bind fun h => ?_
  obtain ⟨h', hread⟩ := readField_encode hs hfits hnew hlength rest
  dsimp only
  rw [hf]
  dsimp only
  rw [hread]
  exact ⟨h'.trans h, rfl⟩

/-- A record becomes another one as entries are stored in it, each in a field that it fits. -/
inductive Reads (nested : MessageType → Record → Prop) (t : MessageType) :
    Record → Record → Record → Prop
  | done (s : Record) : Reads nested t s [] s
  | next {s s' es : Record} {n : ℕ} {f : Field} {v : Value} (hf : t.field? n = some f)
      (hfits : f.Fits nested v) (hnew : f.Joins → s.all n = [])
      (hrest : Reads nested t (s.store f v) es s') : Reads nested t s ((n, v) :: es) s'

theorem Reads.gives (depth : ℕ) (h : Reads (Survives nested) t s es s') (hs : s.IsSorted)
    (hlength : (encodeEntries es).length < 2 ^ 64) (rest : Bytes) :
    Gives (readUntil (readEntry nested depth t) rest.length s (encodeEntries es ++ rest))
      s' rest := by
  induction h with
  | done s => exact readUntil_of_le le_rfl
  | @next s s' es n f v hf hfits hnew _ ih =>
    rw [encodeEntries, List.length_append, List.length_append] at hlength
    rw [encodeEntries, List.append_assoc]
    refine readUntil_step ?_ (by simp) (ih (hs.store f v) (by omega))
    exact readEntry_encode hs hf hfits hnew (by omega) _

theorem Reads.decode_eq (h : Reads (Survives (readMessage maxDepth)) t t.initial es s')
    (hlength : (encodeEntries es).length < 2 ^ 64) : decode t (encodeEntries es) = .ok s' := by
  have hread := h.gives maxDepth t.isSorted_initial hlength []
  rw [List.append_nil] at hread
  obtain ⟨h', hread⟩ := hread
  rw [decode, ← List.length_nil, hread]
  rfl

theorem Reads.isSorted (h : Reads P t s es s') (hs : s.IsSorted) : s'.IsSorted := by
  induction h with
  | done s => exact hs
  | @next s s' es n f v _ _ _ _ ih => exact ih (hs.store f v)

/-- What a field holds after all entries were read. -/
theorem Reads.all_eq (h : Reads P t s es s') (hs : s.IsSorted) (hf : t.field? n = some f) :
    s'.all n = f.label.gather (s.all n) (es.all n) := by
  induction h with
  | done s => exact (Label.gather_nil _ _).symm
  | @next s s' es k g v hg _ _ _ ih =>
    rw [ih (hs.store g v), Record.all_store hs, Record.all_cons, MessageType.number_of_field? hg]
    split_ifs with hk
    · obtain rfl : f = g := by simpa [hk, hf] using hg
      exact (Label.gather_cons _ _ _ _).symm
    · rfl

theorem Reads.all_of_unknown (h : Reads P t s es s') (hs : s.IsSorted)
    (hn : t.field? n = none) : s'.all n = s.all n := by
  induction h with
  | done s => rfl
  | @next s s' es k g v hg _ _ _ ih =>
    rw [ih (hs.store g v), Record.all_store hs, if_neg]
    rintro rfl
    simp [MessageType.number_of_field? hg, hg] at hn

/-- Entries that fit can be read if those of joined fields are the only ones of their number. -/
theorem exists_reads (hs : s.IsSorted)
    (hfits : ∀ e ∈ es, ∃ f, t.field? e.1 = some f ∧ f.Fits P e.2)
    (hsingle : ∀ f ∈ t.fields, f.Joins →
      (s.all f.number).length + (es.all f.number).length ≤ 1) :
    ∃ s', Reads P t s es s' := by
  induction es generalizing s with
  | nil => exact ⟨s, .done s⟩
  | cons e es ih =>
    obtain ⟨⟨f, hf, hfits⟩, hrest⟩ := List.forall_mem_cons.mp hfits
    have hnumber := MessageType.number_of_field? hf
    have hnew : f.Joins → s.all e.1 = [] := fun hjoins => by
      have := hsingle f (MessageType.mem_fields hf) hjoins
      rw [Record.all_cons, if_pos hnumber.symm, List.length_cons, hnumber] at this
      exact List.length_eq_zero_iff.mp (by omega)
    obtain ⟨s', hs'⟩ := ih (hs.store f e.2) hrest fun g hg hjoins => by
      have hroom := hsingle g hg hjoins
      rw [Record.all_cons] at hroom
      rw [Record.all_store hs, hnumber]
      split_ifs at hroom ⊢ with hk
      · obtain rfl : f = g := by simpa [hk, MessageType.field?_number hg] using hf.symm
        rw [Label.gather_singleton hjoins.not_repeated, List.length_singleton]
        rw [List.length_cons] at hroom
        omega
      · exact hroom
    exact ⟨s', .next hf hfits hnew hs'⟩

/-- Records that conform to a type; the messages in them have a property. -/
structure IsMessage (P : MessageType → Record → Prop) (t : MessageType) (r : Record) : Prop where
  sorted : r.IsSorted
  fits : ∀ e ∈ r, ∃ f, t.field? e.1 = some f ∧ f.Fits P e.2
  single : ∀ f ∈ t.fields, f.label ≠ .repeated → (r.all f.number).length ≤ 1
  complete : ∀ f ∈ t.fields, f.label = .required → r.all f.number ≠ []

namespace IsMessage

theorem all_of_unknown (h : IsMessage P t r) (hn : t.field? n = none) : r.all n = [] := by
  refine Record.all_eq_nil_iff.mpr fun e he => ?_
  rintro rfl
  obtain ⟨f, hf, -⟩ := h.fits e he
  simp [hf] at hn

/-- A conforming record is what its own entries make of the empty message. -/
theorem reads (h : IsMessage P t r) : Reads P t t.initial r r := by
  have hs := t.isSorted_initial
  have hinitial : ∀ f, t.field? f.number = some f → f.label ≠ .required →
      t.initial.all f.number = [] := fun f hf hlabel =>
    MessageType.all_initial fun g hg => Option.some.inj (hf.symm.trans hg) ▸ hlabel
  obtain ⟨s', hreads⟩ := exists_reads hs h.fits fun f hf hjoins => by
    have hlabel : f.label ≠ .required := fun hrequired =>
      MessageType.not_joins_of_required hf hrequired hjoins
    rw [hinitial f (MessageType.field?_number hf) hlabel, List.length_nil, Nat.zero_add]
    exact h.single f hf hjoins.not_repeated
  obtain rfl : s' = r := by
    refine (hreads.isSorted hs).ext h.sorted fun k => ?_
    cases hf : t.field? k with
    | none =>
      rw [hreads.all_of_unknown hs hf, h.all_of_unknown hf]
      exact MessageType.all_initial (by simp [hf])
    | some f =>
      obtain rfl := MessageType.number_of_field? hf
      rw [hreads.all_eq hs hf]
      by_cases hrepeated : f.label = .repeated
      · rw [Label.gather_of_repeated hrepeated, hinitial f hf (by simp [hrepeated]),
          List.nil_append]
      · have hmem := MessageType.mem_fields hf
        refine Label.gather_of_single hrepeated (h.single f hmem hrepeated) fun hnone => ?_
        exact hinitial f hf fun hrequired => h.complete f hmem hrequired hnone
  exact hreads

/-- A message is given back by the reader of nested messages. -/
theorem survives (depth : ℕ) (h : IsMessage (Survives (readMessage depth)) t r) :
    Survives (readMessage (depth + 1)) t r := fun hlength rest =>
  readStretch_encodeDelimited hlength (h.reads.gives depth t.isSorted_initial hlength rest)

/-- The bytes of a message are read as the message. -/
theorem decode_encode (h : IsMessage (Survives (readMessage maxDepth)) t r)
    (hlength : r.encode.length < 2 ^ 64) : decode t r.encode = .ok r :=
  h.reads.decode_eq hlength

theorem mono (h : IsMessage P t r) (hPQ : ∀ t m, P t m → Q t m) : IsMessage Q t r where
  sorted := h.sorted
  fits e he := (h.fits e he).imp fun _ hf => ⟨hf.1, hf.2.mono hPQ⟩
  single := h.single
  complete := h.complete

end IsMessage

/-- Records that conform to a type, with messages in them down to a depth. -/
def Conforms : (depth : ℕ) → MessageType → Record → Prop
  | 0 => IsMessage fun _ _ => False
  | depth + 1 => IsMessage (Conforms depth)

theorem Conforms.survives (h : Conforms depth t r) : Survives (readMessage (depth + 1)) t r := by
  induction depth generalizing t r with
  | zero => exact IsMessage.survives _ (h.mono fun _ _ => False.elim)
  | succ depth ih => exact IsMessage.survives _ (h.mono fun _ _ => ih)

/-- The record with the given values of the given fields. -/
def Record.ofFields (fields : List (ℕ × List Value)) : Record :=
  fields.flatMap fun p => p.2.map fun v => (p.1, v)

section Fields

variable {fields : List (ℕ × List Value)} {p : ℕ × List Value}

theorem Record.ofFields_cons (p : ℕ × List Value) (fields : List (ℕ × List Value)) :
    ofFields (p :: fields) = (p.2.map fun v => (p.1, v)) ++ ofFields fields := rfl

theorem Record.mem_ofFields {e : ℕ × Value} :
    e ∈ ofFields fields ↔ ∃ p ∈ fields, p.1 = e.1 ∧ e.2 ∈ p.2 := by
  simp only [ofFields, List.mem_flatMap, List.mem_map]
  constructor
  · rintro ⟨p, hp, v, hv, rfl⟩
    exact ⟨p, hp, rfl, hv⟩
  · rintro ⟨p, hp, hnumber, hv⟩
    exact ⟨p, hp, e.2, hv, Prod.ext hnumber rfl⟩

theorem Record.isSorted_ofFields (h : fields.Pairwise fun p q => p.1 < q.1) :
    (ofFields fields).IsSorted := by
  induction fields with
  | nil => exact List.Pairwise.nil
  | cons p fields ih =>
    obtain ⟨hfirst, hrest⟩ := List.pairwise_cons.mp h
    refine (isSorted_map p.1 id p.2).append (ih hrest) fun e he e' he' => ?_
    obtain ⟨v, -, rfl⟩ := List.mem_map.mp he
    obtain ⟨q, hq, hnumber, -⟩ := mem_ofFields.mp he'
    exact hnumber ▸ (hfirst q hq).le

theorem Record.all_ofFields (h : fields.Pairwise fun p q => p.1 < q.1) (hp : p ∈ fields) :
    (ofFields fields).all p.1 = p.2 := by
  induction fields with
  | nil => simp at hp
  | cons q fields ih =>
    obtain ⟨hfirst, hrest⟩ := List.pairwise_cons.mp h
    have hq : all (q.2.map fun v => (q.1, v)) p.1 = if q.1 = p.1 then q.2 else [] := by
      simpa using all_map q.1 id q.2 p.1
    rw [ofFields_cons, all_append, hq]
    rcases List.mem_cons.mp hp with rfl | hp
    · have hnone : (ofFields fields).all p.1 = [] := all_eq_nil_iff.mpr fun e he => by
        obtain ⟨q, hq, hnumber, -⟩ := mem_ofFields.mp he
        exact hnumber ▸ (hfirst q hq).ne'
      rw [if_pos rfl, hnone, List.append_nil]
    · rw [if_neg (hfirst p hp).ne, ih hrest hp, List.nil_append]

/-- The values of a field that a type has. -/
def FitsField (P : MessageType → Record → Prop) (t : MessageType) (p : ℕ × List Value) : Prop :=
  ∃ f, t.field? p.1 = some f ∧ (∀ v ∈ p.2, f.Fits P v) ∧ (f.label = .repeated ∨ p.2.length ≤ 1)

theorem fitsField_optional {α : Type} {g : α → Value} (hf : t.field? n = some f)
    (h : ∀ x, f.Fits P (g x)) (x : Option α) : FitsField P t (n, x.toList.map g) :=
  ⟨f, hf, by cases x <;> simp [h], by cases x <;> simp⟩

theorem fitsField_repeated {α : Type} {g : α → Value} {xs : List α} (hf : t.field? n = some f)
    (hlabel : f.label = .repeated) (h : ∀ x ∈ xs, f.Fits P (g x)) :
    FitsField P t (n, xs.map g) :=
  ⟨f, hf, List.forall_mem_map.mpr h, Or.inl hlabel⟩

/-- A record conforms to a type without required fields if each of its fields does. -/
theorem isMessage_ofFields (h : fields.Pairwise fun p q => p.1 < q.1)
    (hfits : ∀ p ∈ fields, FitsField P t p)
    (hoptional : ∀ f ∈ t.fields, f.label ≠ .required) : IsMessage P t (.ofFields fields) where
  sorted := Record.isSorted_ofFields h
  fits e he := by
    obtain ⟨p, hp, hnumber, hv⟩ := Record.mem_ofFields.mp he
    obtain ⟨f, hf, hall, -⟩ := hfits p hp
    exact ⟨f, hnumber ▸ hf, hall e.2 hv⟩
  single f hf hlabel := by
    by_cases hnone : (Record.ofFields fields).all f.number = []
    · simp [hnone]
    · obtain ⟨p, hp, hnumber⟩ : ∃ p ∈ fields, p.1 = f.number := by
        simp only [Record.all_eq_nil_iff, not_forall, not_not] at hnone
        obtain ⟨e, he, hnumber⟩ := hnone
        obtain ⟨p, hp, hfst, -⟩ := Record.mem_ofFields.mp he
        exact ⟨p, hp, hfst.trans hnumber⟩
      obtain ⟨g, hg, -, hsize⟩ := hfits p hp
      obtain rfl : f = g := by simpa [hnumber, MessageType.field?_number hf] using hg
      rw [← hnumber, Record.all_ofFields h hp]
      exact hsize.resolve_left hlabel
  complete f hf hlabel := absurd hlabel (hoptional f hf)

end Fields

end ProtoForge.Wire
