/-
Synod.Wire.Checksum -- the 32-bit cyclic redundancy check

The reflected CRC-32: the register starts with all bits set, every byte enters at
the low end and is divided out bit by bit, and the register is complemented at
the end.
-/

namespace Synod.Wire.Checksum

set_option autoImplicit false

/-- The generator, lowest power first. -/
def generator : UInt32 := 0xEDB88320

/-- Divides out one bit. -/
def shift (register : UInt32) : UInt32 :=
  if register &&& 1 = 1 then (register >>> 1) ^^^ generator else register >>> 1

def feed (register : UInt32) (byte : UInt8) : UInt32 :=
  shift (shift (shift (shift (shift (shift (shift (shift (register ^^^ byte.toUInt32))))))))

def checksum (bytes : List UInt8) : UInt32 := (bytes.foldl feed 0xFFFFFFFF) ^^^ 0xFFFFFFFF

end Synod.Wire.Checksum
