import FerroHttp.Lib.Text

/-!
# Compress — gzip response compression

The gzip container around raw DEFLATE output; the compressor itself is a parameter.
-/

namespace FerroHttp

open Text

/-- One bit of the reflected CRC-32. -/
def crc32Bit (crc : UInt32) : UInt32 := (crc >>> 1) ^^^ (0xedb88320 &&& (0 - (crc &&& 1)))

/-- One byte: eight bits. -/
def crc32Byte (crc : UInt32) (byte : UInt8) : UInt32 :=
  (List.range 8).foldl (fun crc _ => crc32Bit crc) (crc ^^^ byte.toUInt32)

/-- Standard CRC-32, reflected, with the polynomial 0xEDB88320. -/
def crc32 (data : Bytes) : UInt32 := ~~~(data.foldl crc32Byte 0xffffffff)

/-- Four bytes, the low one first. -/
def toLeBytes (n : UInt32) : Bytes :=
  [n.toUInt8, (n >>> 8).toUInt8, (n >>> 16).toUInt8, (n >>> 24).toUInt8]

/-- Header, the compressor's output at level 6, checksum and length. -/
def gzipEncode (deflate : Bytes → Nat → Bytes) (data : Bytes) : Bytes :=
  [0x1f, 0x8b, 0x08, 0x00, 0, 0, 0, 0, 0x00, 0xff] ++ deflate data 6 ++ toLeBytes (crc32 data) ++
    toLeBytes (UInt32.ofNat data.length)

example : crc32 (utf8 "123456789") = 0xcbf43926 := by decide +kernel

end FerroHttp
