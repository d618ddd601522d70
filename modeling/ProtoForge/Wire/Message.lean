import ProtoForge.Wire.Record

/-!
# Message types

The fields of the file descriptors, of their parts, and of the messages that
a compiler and its generators exchange.
-/
namespace ProtoForge.Wire

/-- The message types. -/
inductive MessageType where
  | fileDescriptorSet
  | fileDescriptor
  | descriptor
  | extensionRange
  | reservedRange
  | extensionRangeOptions
  | fieldDescriptor
  | oneofDescriptor
  | enumDescriptor
  | enumReservedRange
  | enumValueDescriptor
  | serviceDescriptor
  | methodDescriptor
  | fileOptions
  | messageOptions
  | fieldOptions
  | oneofOptions
  | enumOptions
  | enumValueOptions
  | serviceOptions
  | methodOptions
  | uninterpretedOption
  | namePart
  | sourceCodeInfo
  | location
  | version
  | generatorRequest
  | generatedFile
  | generatorResponse
  deriving DecidableEq, Repr

/-- The type of a single value of a field. -/
inductive Kind where
  | int32
  | int64
  | uint64
  | bool
  | double
  | text
  | bytes
  | message (t : MessageType)
  deriving DecidableEq, Repr

/-- How often a field occurs. A required field is present even when it was not read. -/
inductive Label where
  | optional
  | required
  | repeated
  | packed
  deriving DecidableEq, Repr

/-- A field of a message type. -/
structure Field where
  number : Nat
  name : String
  label : Label
  kind : Kind
  deriving DecidableEq, Repr

/-- The layout of a single value of a kind. -/
def Kind.wireType : Kind → WireType
  | .int32 | .int64 | .uint64 | .bool => .varint
  | .double => .sixtyFourBit
  | .text | .bytes | .message _ => .lengthDelimited

/-- A varint as a value of a kind: 32-bit numbers keep their sign, truth is zero or one. -/
def Kind.normalize (k : Kind) (n : Nat) : UInt64 :=
  match k with
  | .int32 =>
      let low := n % Width.size 32
      UInt64.ofNat (if low < Width.size 31 then low else low + (Width.size 64 - Width.size 32))
  | .bool => if n = 0 then 0 else 1
  | _ => UInt64.ofNat n

namespace MessageType

/-- The name of a message type in error messages. -/
def name : MessageType → String
  | fileDescriptorSet => "FileDescriptorSet"
  | fileDescriptor => "FileDescriptorProto"
  | descriptor => "DescriptorProto"
  | extensionRange => "ExtensionRange"
  | reservedRange => "ReservedRange"
  | extensionRangeOptions => "ExtensionRangeOptions"
  | fieldDescriptor => "FieldDescriptorProto"
  | oneofDescriptor => "OneofDescriptorProto"
  | enumDescriptor => "EnumDescriptorProto"
  | enumReservedRange => "EnumReservedRange"
  | enumValueDescriptor => "EnumValueDescriptorProto"
  | serviceDescriptor => "ServiceDescriptorProto"
  | methodDescriptor => "MethodDescriptorProto"
  | fileOptions => "FileOptions"
  | messageOptions => "MessageOptions"
  | fieldOptions => "FieldOptions"
  | oneofOptions => "OneofOptions"
  | enumOptions => "EnumOptions"
  | enumValueOptions => "EnumValueOptions"
  | serviceOptions => "ServiceOptions"
  | methodOptions => "MethodOptions"
  | uninterpretedOption => "UninterpretedOption"
  | namePart => "NamePart"
  | sourceCodeInfo => "SourceCodeInfo"
  | location => "Location"
  | version => "Version"
  | generatorRequest => "CodeGeneratorRequest"
  | generatedFile => "ResponseFile"
  | generatorResponse => "CodeGeneratorResponse"

/-- The open list of options that every option message has. -/
def uninterpreted : Field :=
  ⟨999, "uninterpreted_option", .repeated, .message uninterpretedOption⟩

/-- The bounds of a range of numbers. -/
def bounds : List Field := [⟨1, "start", .optional, .int32⟩, ⟨2, "end", .optional, .int32⟩]

/-- The fields of a message type in ascending order of their numbers. -/
def fields : MessageType → List Field
  | fileDescriptorSet => [⟨1, "file", .repeated, .message fileDescriptor⟩]
  | fileDescriptor => [
      ⟨1, "name", .optional, .text⟩,
      ⟨2, "package", .optional, .text⟩,
      ⟨3, "dependency", .repeated, .text⟩,
      ⟨4, "message_type", .repeated, .message descriptor⟩,
      ⟨5, "enum_type", .repeated, .message enumDescriptor⟩,
      ⟨6, "service", .repeated, .message serviceDescriptor⟩,
      ⟨7, "extension", .repeated, .message fieldDescriptor⟩,
      ⟨8, "options", .optional, .message fileOptions⟩,
      ⟨9, "source_code_info", .optional, .message sourceCodeInfo⟩,
      ⟨10, "public_dependency", .repeated, .int32⟩,
      ⟨11, "weak_dependency", .repeated, .int32⟩,
      ⟨12, "syntax", .optional, .text⟩]
  | descriptor => [
      ⟨1, "name", .optional, .text⟩,
      ⟨2, "field", .repeated, .message fieldDescriptor⟩,
      ⟨3, "nested_type", .repeated, .message descriptor⟩,
      ⟨4, "enum_type", .repeated, .message enumDescriptor⟩,
      ⟨5, "extension_range", .repeated, .message extensionRange⟩,
      ⟨6, "extension", .repeated, .message fieldDescriptor⟩,
      ⟨7, "options", .optional, .message messageOptions⟩,
      ⟨8, "oneof_decl", .repeated, .message oneofDescriptor⟩,
      ⟨9, "reserved_range", .repeated, .message reservedRange⟩,
      ⟨10, "reserved_name", .repeated, .text⟩]
  | extensionRange => bounds ++ [⟨3, "options", .optional, .message extensionRangeOptions⟩]
  | reservedRange => bounds
  | extensionRangeOptions => [uninterpreted]
  | fieldDescriptor => [
      ⟨1, "name", .optional, .text⟩,
      ⟨2, "extendee", .optional, .text⟩,
      ⟨3, "number", .optional, .int32⟩,
      ⟨4, "label", .optional, .int32⟩,
      ⟨5, "r#type", .optional, .int32⟩,
      ⟨6, "type_name", .optional, .text⟩,
      ⟨7, "default_value", .optional, .text⟩,
      ⟨8, "options", .optional, .message fieldOptions⟩,
      ⟨9, "oneof_index", .optional, .int32⟩,
      ⟨10, "json_name", .optional, .text⟩,
      ⟨17, "proto3_optional", .optional, .bool⟩]
  | oneofDescriptor => [
      ⟨1, "name", .optional, .text⟩,
      ⟨2, "options", .optional, .message oneofOptions⟩]
  | enumDescriptor => [
      ⟨1, "name", .optional, .text⟩,
      ⟨2, "value", .repeated, .message enumValueDescriptor⟩,
      ⟨3, "options", .optional, .message enumOptions⟩,
      ⟨4, "reserved_range", .repeated, .message enumReservedRange⟩,
      ⟨5, "reserved_name", .repeated, .text⟩]
  | enumReservedRange => bounds
  | enumValueDescriptor => [
      ⟨1, "name", .optional, .text⟩,
      ⟨2, "number", .optional, .int32⟩,
      ⟨3, "options", .optional, .message enumValueOptions⟩]
  | serviceDescriptor => [
      ⟨1, "name", .optional, .text⟩,
      ⟨2, "method", .repeated, .message methodDescriptor⟩,
      ⟨3, "options", .optional, .message serviceOptions⟩]
  | methodDescriptor => [
      ⟨1, "name", .optional, .text⟩,
      ⟨2, "input_type", .optional, .text⟩,
      ⟨3, "output_type", .optional, .text⟩,
      ⟨4, "options", .optional, .message methodOptions⟩,
      ⟨5, "client_streaming", .optional, .bool⟩,
      ⟨6, "server_streaming", .optional, .bool⟩]
  | fileOptions => [
      ⟨1, "java_package", .optional, .text⟩,
      ⟨8, "java_outer_classname", .optional, .text⟩,
      ⟨9, "optimize_for", .optional, .int32⟩,
      ⟨10, "java_multiple_files", .optional, .bool⟩,
      ⟨11, "go_package", .optional, .text⟩,
      ⟨16, "cc_generic_services", .optional, .bool⟩,
      ⟨17, "java_generic_services", .optional, .bool⟩,
      ⟨18, "py_generic_services", .optional, .bool⟩,
      ⟨20, "java_generate_equals_and_hash", .optional, .bool⟩,
      ⟨23, "deprecated", .optional, .bool⟩,
      ⟨27, "java_string_check_utf8", .optional, .bool⟩,
      ⟨31, "cc_enable_arenas", .optional, .bool⟩,
      ⟨36, "objc_class_prefix", .optional, .text⟩,
      ⟨37, "csharp_namespace", .optional, .text⟩,
      ⟨39, "swift_prefix", .optional, .text⟩,
      ⟨40, "php_class_prefix", .optional, .text⟩,
      ⟨41, "php_namespace", .optional, .text⟩,
      ⟨42, "php_generic_services", .optional, .bool⟩,
      ⟨44, "php_metadata_namespace", .optional, .text⟩,
      ⟨45, "ruby_package", .optional, .text⟩,
      uninterpreted]
  | messageOptions => [
      ⟨1, "message_set_wire_format", .optional, .bool⟩,
      ⟨2, "no_standard_descriptor_accessor", .optional, .bool⟩,
      ⟨3, "deprecated", .optional, .bool⟩,
      ⟨7, "map_entry", .optional, .bool⟩,
      uninterpreted]
  | fieldOptions => [
      ⟨1, "ctype", .optional, .int32⟩,
      ⟨2, "packed", .optional, .bool⟩,
      ⟨3, "deprecated", .optional, .bool⟩,
      ⟨5, "lazy", .optional, .bool⟩,
      ⟨6, "jstype", .optional, .int32⟩,
      ⟨10, "weak", .optional, .bool⟩,
      uninterpreted]
  | oneofOptions => [uninterpreted]
  | enumOptions => [
      ⟨2, "allow_alias", .optional, .bool⟩,
      ⟨3, "deprecated", .optional, .bool⟩,
      uninterpreted]
  | enumValueOptions => [⟨1, "deprecated", .optional, .bool⟩, uninterpreted]
  | serviceOptions => [⟨33, "deprecated", .optional, .bool⟩, uninterpreted]
  | methodOptions => [
      ⟨33, "deprecated", .optional, .bool⟩,
      ⟨34, "idempotency_level", .optional, .int32⟩,
      uninterpreted]
  | uninterpretedOption => [
      ⟨2, "name", .repeated, .message namePart⟩,
      ⟨3, "identifier_value", .optional, .text⟩,
      ⟨4, "positive_int_value", .optional, .uint64⟩,
      ⟨5, "negative_int_value", .optional, .int64⟩,
      ⟨6, "double_value", .optional, .double⟩,
      ⟨7, "string_value", .optional, .bytes⟩,
      ⟨8, "aggregate_value", .optional, .text⟩]
  | namePart => [⟨1, "name_part", .required, .text⟩, ⟨2, "is_extension", .required, .bool⟩]
  | sourceCodeInfo => [⟨1, "location", .repeated, .message location⟩]
  | location => [
      ⟨1, "path", .packed, .int32⟩,
      ⟨2, "span", .packed, .int32⟩,
      ⟨3, "leading_comments", .optional, .text⟩,
      ⟨4, "trailing_comments", .optional, .text⟩,
      ⟨6, "leading_detached_comments", .repeated, .text⟩]
  | version => [
      ⟨1, "major", .optional, .int32⟩,
      ⟨2, "minor", .optional, .int32⟩,
      ⟨3, "patch", .optional, .int32⟩,
      ⟨4, "suffix", .optional, .text⟩]
  | generatorRequest => [
      ⟨1, "file_to_generate", .repeated, .text⟩,
      ⟨2, "parameter", .optional, .text⟩,
      ⟨3, "compiler_version", .optional, .message version⟩,
      ⟨15, "proto_file", .repeated, .message fileDescriptor⟩,
      ⟨17, "source_file_descriptors", .repeated, .message fileDescriptor⟩]
  | generatedFile => [
      ⟨1, "name", .optional, .text⟩,
      ⟨2, "insertion_point", .optional, .text⟩,
      ⟨15, "content", .optional, .text⟩]
  | generatorResponse => [
      ⟨1, "error", .optional, .text⟩,
      ⟨2, "supported_features", .optional, .uint64⟩,
      ⟨15, "file", .repeated, .message generatedFile⟩]

/-- The field of a number. -/
def field? (t : MessageType) (number : Nat) : Option Field :=
  t.fields.find? (·.number = number)

/-- What a message holds before anything is read: its required fields, unset. -/
def initial (t : MessageType) : Record :=
  (t.fields.filter (·.label = .required)).map fun f =>
    (f.number, if f.kind = .text then .text "" else .varint 0)

end MessageType

end ProtoForge.Wire
