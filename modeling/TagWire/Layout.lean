import TagWire.Schema.Basic
import TagWire.Tag

/-! The layout of a record: its descriptors in wire order. -/
namespace TagWire

def RecordType.layout (R : RecordType) : Except Error (List Descriptor) :=
  Descriptor.ofTags R.name R.tags

def RecordType.layoutAt (R : RecordType) (version : Int) : Except Error (List Descriptor) :=
  (·.filter (·.isPresent version)) <$> R.layout

end TagWire
