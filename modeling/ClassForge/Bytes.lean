/-!
# Numbers as bytes

Class files store every number with its most significant byte first.
-/

namespace ClassForge.Bytes

/-- The two bytes of a 16-bit number. -/
def ofUInt16 (n : UInt16) : List UInt8 :=
  [(n >>> 8).toUInt8, n.toUInt8]

/-- The four bytes of a 32-bit number. -/
def ofUInt32 (n : UInt32) : List UInt8 :=
  [(n >>> 24).toUInt8, (n >>> 16).toUInt8, (n >>> 8).toUInt8, n.toUInt8]

/-- The eight bytes of a 64-bit number. -/
def ofUInt64 (n : UInt64) : List UInt8 :=
  ofUInt32 (n >>> 32).toUInt32 ++ ofUInt32 n.toUInt32

/-- The 16-bit number with the given bytes. -/
def toUInt16 (a b : UInt8) : UInt16 :=
  a.toUInt16 <<< 8 ||| b.toUInt16

/-- The 32-bit number with the given bytes. -/
def toUInt32 (a b c d : UInt8) : UInt32 :=
  a.toUInt32 <<< 24 ||| b.toUInt32 <<< 16 ||| c.toUInt32 <<< 8 ||| d.toUInt32

/-- The 64-bit number with the given halves. -/
def toUInt64 (high low : UInt32) : UInt64 :=
  high.toUInt64 <<< 32 ||| low.toUInt64

end ClassForge.Bytes
