import ProtoForge.Proofs.Plugin.Layout
import ProtoForge.Proofs.Wire.Messages

/-!
# Requests and responses on the wire

The messages that a generator is given and answers with conform to their types,
so reading their bytes gives them back. Responses one after the other are read as
their merge.
-/
namespace ProtoForge

open Wire

/-- A descriptor that is read back as a part of a request. -/
def FileDescriptor.IsReadable (d : FileDescriptor) : Prop :=
  Survives (readMessage maxDepth) .fileDescriptor d.record

/-- A descriptor that conforms to its type can be a part of a request. -/
theorem FileDescriptor.isReadable_of_conforms {d : FileDescriptor}
    (h : Conforms 99 .fileDescriptor d.record) : d.IsReadable := h.survives

/-- A descriptor with nothing but a name and imports can be a part of a request. -/
theorem FileDescriptor.isReadable_ofImports (name : String) (imports : List String) :
    (ofImports name imports).IsReadable := by
  refine isReadable_of_conforms (?_ : IsMessage (Conforms 98) _ _)
  have hfields : (ofImports name imports).record =
      .ofFields [(1, [.text name]), (3, imports.map .text)] := by
    simp [ofImports, Record.ofFields, Function.comp_def]
  rw [hfields]
  refine isMessage_ofFields (by simp) ?_ (by decide)
  simp only [List.forall_mem_cons]
  refine ⟨fitsField_optional (x := some name) rfl (fun s => ?name) , ?_, List.forall_mem_nil _⟩
  case name => exact rfl
  exact fitsField_repeated rfl rfl fun s _ => rfl

namespace Plugin

variable {P : MessageType → Record → Prop} {r : Record}

theorem text?_of_all {n : ℕ} {s : Option String} (h : r.all n = s.toList.map .text) :
    r.text? n = s := by
  cases s <;> simp [Record.text?, Record.get?, h]

theorem varint?_of_all {n : ℕ} {v : Option UInt64} (h : r.all n = v.toList.map .varint) :
    r.varint? n = v := by
  cases v <;> simp [Record.varint?, Record.get?, h]

theorem texts_of_all {n : ℕ} {xs : List String} (h : r.all n = xs.map .text) : r.texts n = xs := by
  simp [Record.texts, h, List.filterMap_map, Function.comp_def]

theorem message?_of_all {n : ℕ} {α : Type} {g : α → Record} {x : Option α}
    (h : r.all n = x.toList.map fun a => .message (g a)) : r.message? n = x.map g := by
  cases x <;> simp [Record.message?, Record.get?, h]

theorem messages_of_all {n : ℕ} {α : Type} {g : α → Record} {xs : List α}
    (h : r.all n = xs.map fun a => .message (g a)) : r.messages n = xs.map g := by
  simp [Record.messages, h, List.filterMap_map, Function.comp_def]

/-- A signed number of 32 bits is read with its sign. -/
theorem holds_int32 (n : Int32) : Kind.int32.Holds n.toInt64.toUInt64 := by
  have hlow : -2147483648 ≤ n.toInt := n.le_toInt
  have hhigh : n.toInt < 2147483648 := n.toInt_lt
  have hsizes : Width.size 31 = 2147483648 ∧ Width.size 32 = 4294967296 ∧
      Width.size 64 = 18446744073709551616 := by decide
  obtain ⟨h31, h32, h64⟩ := hsizes
  refine ⟨rfl, UInt64.toNat_inj.mp ?_⟩
  rw [Kind.normalize, UInt64.toNat_ofNat', h31, h32, h64, toNat_signed]
  split_ifs <;> omega

theorem signed_of_all {n : ℕ} {v : Option Int32}
    (h : r.all n = v.toList.map fun n => .varint n.toInt64.toUInt64) :
    (r.varint? n).map (fun n => n.toInt64.toInt32) = v := by
  rw [varint?_of_all (v := v.map fun n => n.toInt64.toUInt64) (by rw [h]; cases v <;> rfl)]
  cases v <;> simp

/-- Of two values of an optional field the later one is kept. -/
theorem gather_optional {α β : Type} (g : α → β) (x y : Option α) :
    Label.optional.gather [] (x.toList.map g ++ y.toList.map g) = (y <|> x).toList.map g := by
  cases x <;> cases y <;> rfl

namespace ResponseFile

/-- The values of the fields of an entry. -/
def fields (f : ResponseFile) : List (ℕ × List Value) :=
  [(1, f.name.toList.map .text), (2, f.insertionPoint.toList.map .text),
    (15, f.content.toList.map .text)]

theorem toRecord_eq (f : ResponseFile) : f.toRecord = .ofFields f.fields := by
  simp [toRecord, textEntry, Record.ofFields, fields, Function.comp_def]

theorem isMessage (f : ResponseFile) : IsMessage P .generatedFile f.toRecord := by
  rw [toRecord_eq]
  refine isMessage_ofFields (by simp [fields]) ?_ (by decide)
  simp only [fields, List.forall_mem_cons]
  refine ⟨fitsField_optional rfl ?_ _, fitsField_optional rfl ?_ _, fitsField_optional rfl ?_ _,
    List.forall_mem_nil _⟩
  all_goals exact fun _ => rfl

theorem all_toRecord (f : ResponseFile) : ∀ p ∈ f.fields, f.toRecord.all p.1 = p.2 := by
  rw [toRecord_eq]
  exact fun p => Record.all_ofFields (by simp [fields])

theorem ofRecord_toRecord (f : ResponseFile) : ofRecord f.toRecord = f := by
  have hall := f.all_toRecord
  simp only [fields, List.forall_mem_cons] at hall
  obtain ⟨hname, hpoint, hcontent, -⟩ := hall
  rw [ofRecord, text?_of_all hname, text?_of_all hpoint, text?_of_all hcontent]

end ResponseFile

namespace Version

/-- The values of the fields of a version. -/
def fields (v : Version) : List (ℕ × List Value) :=
  let signed (n : Option Int32) := n.toList.map fun n => Value.varint n.toInt64.toUInt64
  [(1, signed v.major), (2, signed v.minor), (3, signed v.patch), (4, v.suffix.toList.map .text)]

theorem toRecord_eq (v : Version) : v.toRecord = .ofFields v.fields := by
  simp [toRecord, textEntry, signedEntry, Record.ofFields, fields, Function.comp_def]

theorem isMessage (v : Version) : IsMessage P .version v.toRecord := by
  rw [toRecord_eq]
  refine isMessage_ofFields (by simp [fields]) ?_ (by decide)
  simp only [fields, List.forall_mem_cons]
  refine ⟨fitsField_optional rfl ?_ _, fitsField_optional rfl ?_ _, fitsField_optional rfl ?_ _,
    fitsField_optional rfl (fun s => ?text) _, List.forall_mem_nil _⟩
  case text => exact rfl
  all_goals exact fun n => ⟨by decide, holds_int32 n⟩

theorem all_toRecord (v : Version) : ∀ p ∈ v.fields, v.toRecord.all p.1 = p.2 := by
  rw [toRecord_eq]
  exact fun p => Record.all_ofFields (by simp [fields])

theorem ofRecord_toRecord (v : Version) : ofRecord v.toRecord = v := by
  have hall := v.all_toRecord
  simp only [fields, List.forall_mem_cons] at hall
  obtain ⟨hmajor, hminor, hpatch, hsuffix, -⟩ := hall
  dsimp only [ofRecord]
  rw [signed_of_all hmajor, signed_of_all hminor, signed_of_all hpatch,
    text?_of_all hsuffix]

end Version

namespace Response

/-- The values of the fields of a response. -/
def fields (r : Response) : List (ℕ × List Value) :=
  [(1, r.error.toList.map .text), (2, r.supportedFeatures.toList.map .varint),
    (15, r.files.map fun f => .message f.toRecord)]

theorem toRecord_eq (r : Response) : r.toRecord = .ofFields r.fields := by
  simp [toRecord, textEntry, Record.ofFields, fields, Function.comp_def]

theorem isMessage (r : Response) :
    IsMessage (Survives (readMessage maxDepth)) .generatorResponse r.toRecord := by
  rw [toRecord_eq]
  refine isMessage_ofFields (by simp [fields]) ?_ (by decide)
  simp only [fields, List.forall_mem_cons]
  refine ⟨fitsField_optional rfl (fun s => ?error) _, fitsField_optional rfl (fun n => ?features) _,
    fitsField_repeated rfl rfl fun f _ => ?file, List.forall_mem_nil _⟩
  case error => exact rfl
  case features => exact ⟨by decide, rfl, UInt64.ofNat_toNat⟩
  case file => exact ⟨.generatedFile, rfl, IsMessage.survives 99 f.isMessage⟩

theorem all_toRecord (r : Response) : ∀ p ∈ r.fields, r.toRecord.all p.1 = p.2 := by
  rw [toRecord_eq]
  exact fun p => Record.all_ofFields (by simp [fields])

theorem ofRecord_of_all {s : Record} (r : Response) (h : ∀ p ∈ r.fields, s.all p.1 = p.2) :
    ofRecord s = r := by
  simp only [fields, List.forall_mem_cons] at h
  obtain ⟨herror, hfeatures, hfiles, -⟩ := h
  rw [ofRecord, text?_of_all herror, varint?_of_all hfeatures, messages_of_all hfiles,
    List.map_map]
  simp [Function.comp_def, ResponseFile.ofRecord_toRecord]

theorem decode_encode (r : Response) (h : r.encode.length < 2 ^ 64) :
    decode r.encode = .ok r := by
  rw [decode, encode, r.isMessage.decode_encode h]
  exact congrArg Except.ok (r.ofRecord_of_all r.all_toRecord)

/-- A later value of a field of a response replaces the earlier one or comes after it. -/
theorem not_joins : ∀ f ∈ MessageType.generatorResponse.fields, ¬ f.Joins := by
  simp [MessageType.fields, Field.Joins]

/-- Two responses one after the other are read as their merge. -/
theorem decode_append (a b : Response) (h : (a.encode ++ b.encode).length < 2 ^ 64) :
    decode (a.encode ++ b.encode) = .ok (a.merge b) := by
  have hsorted := MessageType.generatorResponse.isSorted_initial
  have happend : a.encode ++ b.encode = encodeEntries (a.toRecord ++ b.toRecord) :=
    (encodeEntries_append _ _).symm
  obtain ⟨s, hs⟩ := exists_reads hsorted
    (List.forall_mem_append.mpr ⟨a.isMessage.fits, b.isMessage.fits⟩)
    fun f hf hjoins => absurd hjoins (not_joins f hf)
  rw [happend] at h ⊢
  rw [decode, hs.decode_eq h]
  refine congrArg Except.ok (ofRecord_of_all _ ?_)
  have ha := a.all_toRecord
  have hb := b.all_toRecord
  simp only [fields, List.forall_mem_cons] at ha hb ⊢
  obtain ⟨herror, hfeatures, hfiles, -⟩ := ha
  obtain ⟨herror', hfeatures', hfiles', -⟩ := hb
  refine ⟨?_, ?_, ?_, List.forall_mem_nil _⟩
  · rw [hs.all_eq hsorted rfl, Record.all_append, herror, herror']
    exact gather_optional _ a.error b.error
  · rw [hs.all_eq hsorted rfl, Record.all_append, hfeatures, hfeatures']
    exact gather_optional _ a.supportedFeatures b.supportedFeatures
  · rw [hs.all_eq hsorted rfl, Record.all_append, hfiles, hfiles']
    exact List.map_append.symm

end Response

namespace Request

/-- The values of the fields of a request. -/
def fields (r : Request) : List (ℕ × List Value) :=
  [(1, r.filesToGenerate.map .text), (2, r.parameter.toList.map .text),
    (3, r.compilerVersion.toList.map fun v => .message v.toRecord),
    (15, r.files.map fun d => .message d.record),
    (17, r.sourceFiles.map fun d => .message d.record)]

theorem toRecord_eq (r : Request) : r.toRecord = .ofFields r.fields := by
  simp [toRecord, textEntry, Record.ofFields, fields, Function.comp_def]

theorem isMessage (r : Request) (hfiles : ∀ d ∈ r.files ++ r.sourceFiles, d.IsReadable) :
    IsMessage (Survives (readMessage maxDepth)) .generatorRequest r.toRecord := by
  obtain ⟨hfiles, hsources⟩ := List.forall_mem_append.mp hfiles
  rw [toRecord_eq]
  refine isMessage_ofFields (by simp [fields]) ?_ (by decide)
  simp only [fields, List.forall_mem_cons]
  refine ⟨fitsField_repeated rfl rfl fun s _ => ?name, fitsField_optional rfl (fun s => ?parameter) _,
    fitsField_optional rfl (fun v => ?version) _, fitsField_repeated rfl rfl fun d hd => ?file,
    fitsField_repeated rfl rfl fun d hd => ?source, List.forall_mem_nil _⟩
  case name => exact rfl
  case parameter => exact rfl
  case version => exact ⟨.version, rfl, IsMessage.survives 99 v.isMessage⟩
  case file => exact ⟨.fileDescriptor, rfl, hfiles d hd⟩
  case source => exact ⟨.fileDescriptor, rfl, hsources d hd⟩

theorem all_toRecord (r : Request) : ∀ p ∈ r.fields, r.toRecord.all p.1 = p.2 := by
  rw [toRecord_eq]
  exact fun p => Record.all_ofFields (by simp [fields])

theorem ofRecord_toRecord (r : Request) : ofRecord r.toRecord = r := by
  have hall := r.all_toRecord
  simp only [fields, List.forall_mem_cons] at hall
  obtain ⟨hnames, hparameter, hversion, hfiles, hsources, -⟩ := hall
  rw [ofRecord, texts_of_all hnames, text?_of_all hparameter, message?_of_all hversion,
    messages_of_all hfiles, messages_of_all hsources, Option.map_map]
  simp [Function.comp_def, Version.ofRecord_toRecord]

theorem decode_encode (r : Request) (hfiles : ∀ d ∈ r.files ++ r.sourceFiles, d.IsReadable)
    (h : r.encode.length < 2 ^ 64) : decode r.encode = .ok r := by
  rw [decode, encode, (r.isMessage hfiles).decode_encode h]
  exact congrArg Except.ok r.ofRecord_toRecord

end Request

/-- Whatever a response holds, its bytes are read as it; two responses one after the other are
read as their merge, the later error and features before the earlier ones; and a request of
readable descriptors is read back, signed version numbers included. A length is written in at
most 64 bits. The bytes are the fields in the order of their numbers, each after its tag. -/
theorem messages_survive_wire :
    (∀ r : Response, r.encode.length < 2 ^ 64 → Response.decode r.encode = .ok r) ∧
    (∀ a b : Response, (a.encode ++ b.encode).length < 2 ^ 64 →
      Response.decode (a.encode ++ b.encode) = .ok
        { error := b.error <|> a.error
          supportedFeatures := b.supportedFeatures <|> a.supportedFeatures
          files := a.files ++ b.files }) ∧
    (∀ r : Request, (∀ d ∈ r.files ++ r.sourceFiles, d.IsReadable) → r.encode.length < 2 ^ 64 →
      Request.decode r.encode = .ok r) ∧
    (∀ r : Response, r.encode = delimited [0x0a] (r.error.toList.map Bytes.ofText) ++
      varints [0x10] (r.supportedFeatures.toList.map (·.toNat)) ++
      delimited [0x7a] (r.files.map (·.toRecord.encode))) ∧
    (∀ f : ResponseFile, f.toRecord.encode =
      delimited [0x0a] (f.name.toList.map Bytes.ofText) ++
      delimited [0x12] (f.insertionPoint.toList.map Bytes.ofText) ++
      delimited [0x7a] (f.content.toList.map Bytes.ofText)) ∧
    (∀ r : Request, r.encode = delimited [0x0a] (r.filesToGenerate.map Bytes.ofText) ++
      delimited [0x12] (r.parameter.toList.map Bytes.ofText) ++
      delimited [0x1a] (r.compilerVersion.toList.map (·.toRecord.encode)) ++
      delimited [0x7a] (r.files.map (·.encode)) ++
      delimited [0x8a, 0x01] (r.sourceFiles.map (·.encode))) ∧
    (∀ v : Version, v.toRecord.encode =
      varints [0x08] (v.major.toList.map fun n => (n.toInt % 2 ^ 64).toNat) ++
      varints [0x10] (v.minor.toList.map fun n => (n.toInt % 2 ^ 64).toNat) ++
      varints [0x18] (v.patch.toList.map fun n => (n.toInt % 2 ^ 64).toNat) ++
      delimited [0x22] (v.suffix.toList.map Bytes.ofText)) :=
  ⟨Response.decode_encode, Response.decode_append, Request.decode_encode, Response.encode_eq,
    ResponseFile.encode_eq, Request.encode_eq, Version.encode_eq⟩

/-- A refusal without a reason, and all features. -/
def plainResponse : Response where
  error := some ""
  supportedFeatures := some 0xffffffffffffffff
  files := [{ name := some "a.rs", content := some "" }, { content := some "é" }]

/-- A file that goes into another one. -/
def laterResponse : Response where
  files := [{ name := some "a.rs", insertionPoint := some "end", content := none }]

/-- A question about one file that imports another one, from a compiler before all others. -/
def plainRequest : Request where
  filesToGenerate := ["a.proto"]
  compilerVersion := some { major := some (-1), minor := some 0, suffix := some "" }
  files := [.ofImports "b.proto" [], .ofImports "a.proto" ["b.proto"]]
  sourceFiles := [.ofImports "a.proto" ["b.proto"]]

theorem plain_messages_survive :
    plainResponse.encode.length < 2 ^ 64 ∧
    Response.decode plainResponse.encode = .ok plainResponse ∧
    (plainResponse.encode ++ laterResponse.encode).length < 2 ^ 64 ∧
    Response.decode (plainResponse.encode ++ laterResponse.encode) = .ok
      { plainResponse with files := plainResponse.files ++ laterResponse.files } ∧
    (∀ d ∈ plainRequest.files ++ plainRequest.sourceFiles, d.IsReadable) ∧
    plainRequest.encode.length < 2 ^ 64 ∧
    Request.decode plainRequest.encode = .ok plainRequest := by
  have hplain : plainResponse.encode.length < 2 ^ 64 := by cbv
  have hboth : (plainResponse.encode ++ laterResponse.encode).length < 2 ^ 64 := by cbv
  have hrequest : plainRequest.encode.length < 2 ^ 64 := by cbv
  have hfiles : ∀ d ∈ plainRequest.files ++ plainRequest.sourceFiles, d.IsReadable := by
    simp [plainRequest, FileDescriptor.isReadable_ofImports]
  obtain ⟨hread, happend, hreadRequest, -⟩ := messages_survive_wire
  exact ⟨hplain, hread _ hplain, hboth, happend _ _ hboth, hfiles, hrequest,
    hreadRequest _ hfiles hrequest⟩

end Plugin

end ProtoForge
