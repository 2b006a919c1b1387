import TagWire.Sample.Custom

/-! A schema for trying out the engine: records of all kinds of fields and tags, two of them within
themselves, and the self-describing types. -/
namespace TagWire.Sample

open Shape (scalar sequence optional boxed record custom)

abbrev bool : Shape := scalar .bool
abbrev int (k : IntKind) : Shape := scalar (.int k)
abbrev float32 : Shape := scalar .float32
abbrev float64 : Shape := scalar .float64
abbrev text : Shape := scalar .text
abbrev uuid : Shape := scalar .uuid
abbrev octets : Shape := scalar .octets
abbrev time : Shape := scalar .time
abbrev variant : Shape := scalar .variant

def endpoint : Shape := custom 0
def blob : Shape := custom 1
def claim : Shape := custom 2

def recordType (name : String) (fields : List Field) : RecordType where
  name := name
  path := "ras_oracle::types::" ++ name
  fields := fields

def licenseInfo : RecordType := recordType "LicenseInfo" [
  ⟨"uuid", uuid, ",1"⟩, ⟨"count", int .i32, ",2"⟩, ⟨"name", text, ",3"⟩]

def entry : RecordType := recordType "Entry" [
  ⟨"id", uuid, ",1"⟩, ⟨"weight", int .u32, "null-size,2"⟩, ⟨"name", text, ",3"⟩]

def recordTypes : List RecordType := [
  licenseInfo,
  entry,
  recordType "ClusterSessions" [
    ⟨"cluster", uuid, ",1"⟩, ⟨"total", int .i64, ",2"⟩, ⟨"licenses", sequence (record 0), ",3"⟩],
  recordType "SessionInfo" [
    ⟨"uuid", uuid, ",1"⟩, ⟨"app_id", text, ",2"⟩, ⟨"started_at", time, ",5"⟩,
    ⟨"cpu_time", float32, "double,4"⟩, ⟨"hibernate", bool, ",3"⟩,
    ⟨"memory_current", int .i64, "int,6,9"⟩, ⟨"properties", sequence variant, ",7,10"⟩,
    ⟨"local_note", text, "-"⟩],
  recordType "Wrapper" [
    ⟨"inner", optional (boxed (record 0)), ",1"⟩,
    ⟨"nested", sequence (sequence (int .u8)), ",2"⟩],
  recordType "Versioned" [⟨"second", int .i32, ",2,2"⟩, ⟨"first", int .i32, ",1,1"⟩],
  recordType "Reordered" [
    ⟨"c", int .u8, ",3"⟩, ⟨"a", int .u8, ",1"⟩, ⟨"skipped", int .u8, "-"⟩, ⟨"b", int .u8, ",2"⟩],
  recordType "Overrides" [
    ⟨"port", int .u32, "short,1"⟩, ⟨"id", text, "uuid,2"⟩,
    ⟨"boxed", optional (boxed (int .i64)), "int,3"⟩, ⟨"created_ms", int .i64, "time,4"⟩],
  recordType "UnknownCodecField" [⟨"value", int .i32, "int24,1"⟩],
  recordType "Envelope" [
    ⟨"endpoint", endpoint, ",1"⟩, ⟨"blob", blob, ",2"⟩, ⟨"trailer", int .u8, ",3"⟩,
    ⟨"extra", optional endpoint, ",4"⟩],
  recordType "Flags" [⟨"id", uuid, ",1"⟩, ⟨"enabled", bool, ",2"⟩, ⟨"label", text, ",3"⟩],
  recordType "Port" [⟨"value", int .u32, "port16,1"⟩, ⟨"flags", int .i64, "byte,2"⟩],
  recordType "Reversed" [⟨"text", text, "reversed-string,1"⟩],
  recordType "Batch" [
    ⟨"owner", uuid, ",1"⟩, ⟨"limit", int .i64, "int,2,3"⟩, ⟨"entries", sequence (record 1), ",3"⟩,
    ⟨"tags", sequence text, ",4,5"⟩],
  recordType "Tree" [⟨"label", int .u8, ",1"⟩, ⟨"children", sequence (record 14), ",2"⟩],
  recordType "Chain" [⟨"v", int .u8, ",1"⟩, ⟨"next", optional (boxed (record 15)), ",2,1"⟩],
  recordType "Scalars" [
    ⟨"b", bool, ",1"⟩, ⟨"i8v", int .i8, ",2"⟩, ⟨"u8v", int .u8, ",3"⟩, ⟨"i16v", int .i16, ",4"⟩,
    ⟨"u16v", int .u16, ",5"⟩, ⟨"i32v", int .i32, ",6"⟩, ⟨"u32v", int .u32, ",7"⟩,
    ⟨"i64v", int .i64, ",8"⟩, ⟨"u64v", int .u64, ",9"⟩, ⟨"isz", int .isize, ",10"⟩,
    ⟨"usz", int .usize, ",11"⟩, ⟨"f", float32, ",12"⟩, ⟨"d", float64, ",13"⟩, ⟨"s", text, ",14"⟩,
    ⟨"id", uuid, ",15"⟩, ⟨"raw", octets, ",16"⟩, ⟨"t", time, ",17"⟩, ⟨"v", variant, ",18"⟩],
  recordType "Nothing" [],
  recordType "AllIgnored" [⟨"a", int .i32, "-"⟩, ⟨"b", text, "-,1,1"⟩],
  recordType "BadTag" [⟨"a", int .u8, ",1"⟩, ⟨"b", int .u8, "byte,1,2,3"⟩],
  recordType "CodecOnRecord" [⟨"inner", record 0, "int,1"⟩, ⟨"tail", int .u8, ",2"⟩]]

def customs : List Custom := [Endpoint.type, Blob.type, Claim.type]

def schema : TagWire.Schema := .ofLists recordTypes customs (by decide)

def recordNamed? (name : String) : Option Nat := recordTypes.findIdx? (·.name == name)

def shapeNamed? (name : String) : Option Shape :=
  match name with
  | "Endpoint" => some endpoint
  | "Blob" => some blob
  | "Claim" => some claim
  | _ => (recordNamed? name).map record

def spare : Nat := recordTypes.length

def schemaWith (R : RecordType) (h : ∀ f ∈ R.fields, f.shape.rank ≤ spare) : TagWire.Schema :=
  schema.declare spare R h

end TagWire.Sample
