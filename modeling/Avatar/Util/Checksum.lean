import Avatar.Lib.Bytes

/-! The 1-wire CRC-8 of `avatar/util/checksum.py`. -/

namespace Avatar
open Bytes

namespace Crc8

/-- What the low nibble of a byte contributes. -/
def R1 : List Byte :=
  [0x00, 0x5e, 0xbc, 0xe2, 0x61, 0x3f, 0xdd, 0x83,
   0xc2, 0x9c, 0x7e, 0x20, 0xa3, 0xfd, 0x1f, 0x41]

/-- What the high nibble of a byte contributes. -/
def R2 : List Byte :=
  [0x00, 0x9d, 0x23, 0xbe, 0x46, 0xdb, 0x65, 0xf8,
   0x8c, 0x11, 0xaf, 0x32, 0xca, 0x57, 0xe9, 0x74]

/-- The body of the loop of `add_bytes`. The indices are masked to the length of the tables. -/
def addByte (crc byte : Byte) : Byte :=
  let x := byte ^^^ crc
  R1.getD (x &&& 0xF).toNat 0 ^^^ R2.getD ((x >>> 4) &&& 0xF).toNat 0

def addBytes (crc : Byte) (data : List Byte) : Byte := data.foldl addByte crc

end Crc8

/-- `Crc8(data).get_crc()`. -/
def crc8 (data : List Byte) : Byte := Crc8.addBytes 0 data

end Avatar
