/-!
# Hashing names

The 64-bit FNV-1a hash of a text's UTF-8 bytes.  It is stable across runs, so
hashes may be stored and compared.
-/

namespace ShaderAssets
namespace Text

/-- One byte is mixed in by exclusive or, then the hash is multiplied by the
64-bit FNV prime. -/
def fnvStep (hash : UInt64) (byte : UInt8) : UInt64 :=
  (hash ^^^ byte.toUInt64) * 0x100000001b3

/-- The FNV-1a hash of a text, starting from the 64-bit offset basis. -/
def fnv1a (s : String) : UInt64 :=
  s.toByteArray.data.toList.foldl fnvStep 0xcbf29ce484222325

end Text
end ShaderAssets
