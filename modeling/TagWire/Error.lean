import TagWire.Attempt
import TagWire.Config.Fault
import TagWire.Text.Quoted

/-! Everything that can go wrong, by cause. The wording, the class, and the byte position that an
error reports are functions of the cause. -/
namespace TagWire

inductive Cause
  | ended
  | broke
  | full
  deriving DecidableEq

def Cause.message : Cause → String
  | .ended => "failed to fill whole buffer"
  | .broke => "source broke"
  | .full => "sink full"

inductive TagFault
  | parts
  | number
  | version
  deriving DecidableEq

def TagFault.message : TagFault → String
  | .parts => "too many values in tag"
  | .number => "wire number is not an integer"
  | .version => "minimum version is not an integer"

inductive Error
  | io (op : String) (offset : Nat) (cause : Cause)
  | nullExpected (op : String) (offset : Nat) (byte : UInt8)
  | invalidBool (offset : Nat) (byte : UInt8)
  | unknownMarker (offset : Nat) (marker : UInt8)
  | invalidUtf8 (offset : Nat)
  | sizeOverflow (op : String) (offset : Nat)
  | lengthLimit (op : String) (offset length limit : Nat)
  | timeOutOfRange (ticks : Int)
  | valueOutOfRange (op : String) (value : Int)
  | invalidUuid
  | unknownCodec (name : String)
  | invalidTag (record : String) (field : Nat) (tag : String) (fault : TagFault)
  | unsupportedTarget (codec target : String)
  | noSuchField (record : String) (field : Nat)
  | depthExceeded (limit : Nat)
  | overConsumed (op : String) (consumed available : Nat)
  | missingValue (target : String)
  | noCodecName
  | config (fault : Config.Fault)
  | custom (message : String)
  /-- No buffer of this length can be had. No call comes back with this: the run is over where it
  arises, and what was still to be done on the way back is not done. -/
  | unallocatable (length : Nat)

namespace Error

inductive Class
  | io
  | format
  | schema
  | type
  | invalidCall
  | config
  | fatal
  deriving DecidableEq

def kind : Error → Class
  | io .. => .io
  | nullExpected .. | invalidBool .. | unknownMarker .. | invalidUtf8 .. | sizeOverflow ..
  | lengthLimit .. | timeOutOfRange .. | valueOutOfRange .. | invalidUuid | custom .. => .format
  | unknownCodec .. | invalidTag .. | noCodecName => .schema
  | unsupportedTarget .. | noSuchField .. | depthExceeded .. | overConsumed .. => .type
  | missingValue .. => .invalidCall
  | config .. => .config
  | unallocatable _ => .fatal

/-- Whether the run is over, with nothing for a caller to go on with. -/
def isFatal (e : Error) : Bool := e.kind = .fatal

/-- The byte at which the offending value starts, where the error knows it. -/
def offset? : Error → Option Nat
  | io _ offset _ | nullExpected _ offset _ | invalidBool offset _ | unknownMarker offset _
  | invalidUtf8 offset | sizeOverflow _ offset | lengthLimit _ offset _ _ => some offset
  | _ => none

def isTruncated : Error → Bool
  | io _ _ .ended => true
  | _ => false

def atByte (offset : Nat) : String := " at byte " ++ toString offset

def message : Error → String
  | io op offset cause => op ++ ": I/O error" ++ atByte offset ++ ": " ++ cause.message
  | nullExpected op offset byte =>
    op ++ ": null expected" ++ atByte offset ++ ", found 0x" ++ Text.hexByte byte
  | invalidBool offset byte => "bool: invalid byte 0x" ++ Text.hexByte byte ++ atByte offset
  | unknownMarker offset marker =>
    "value: unknown type marker " ++ toString marker.toNat ++ atByte offset
  | invalidUtf8 offset => "string: invalid UTF-8" ++ atByte offset
  | sizeOverflow op offset => op ++ ": varint overflows 64 bits" ++ atByte offset
  | lengthLimit op offset length limit =>
    op ++ ": length " ++ toString length ++ " exceeds limit " ++ toString limit ++ atByte offset
  | timeOutOfRange ticks =>
    "time: ticks " ++ toString ticks ++ " are outside the representable range"
  | valueOutOfRange op value =>
    op ++ ": value " ++ toString value ++ " does not fit the wire width"
  | invalidUuid => "uuid"
  | unknownCodec name => "codec <" ++ name ++ "> is not registered"
  | invalidTag record field tag fault =>
    "invalid tag " ++ Text.quoted tag ++ " on " ++ record ++ " field #" ++ toString field ++ ": " ++
      fault.message
  | unsupportedTarget codec target =>
    "codec <" ++ codec ++ "> cannot handle target type " ++ target
  | noSuchField record field => record ++ " has no field #" ++ toString field
  | depthExceeded limit => "nesting depth limit " ++ toString limit ++ " exceeded"
  | overConsumed op consumed available =>
    op ++ ": consumed " ++ toString consumed ++ " bytes but only " ++ toString available ++
      " were available"
  | missingValue target => target ++ ": required value is not set"
  | noCodecName => "Registry error: codec name list is empty"
  | config fault => "Configuration error: " ++ fault.message
  | custom message => "Custom error: " ++ message
  | unallocatable _ => "capacity overflow"

end Error

end TagWire
