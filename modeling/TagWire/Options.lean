import TagWire.Stream.Reader

/-! What a single call of the encoder or decoder is told. -/
namespace TagWire

structure Options where
  /-- Fields whose minimum version is higher are not on the wire. -/
  version : Int := 0
  /-- Most levels of values within values. -/
  maxDepth : Nat := 64
  maxItems : Nat := 1048576
  maxText : Nat := 16777216
  deriving DecidableEq

namespace Options

def atVersion (version : Int) : Options := { version }

def withMaxDepth (o : Options) (n : Nat) : Options := { o with maxDepth := n }

def withMaxItems (o : Options) (n : Nat) : Options := { o with maxItems := n }

def withMaxText (o : Options) (n : Nat) : Options := { o with maxText := n }

def limits (o : Options) : Limits := { maxText := o.maxText, maxItems := o.maxItems }

end Options

end TagWire
