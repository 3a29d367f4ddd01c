/-!
# Compressions

The document of a snapshot is compressed by a package of its own, of which only this much is used.

* `Compression`, compressing bytes and getting them back;
* `Compression.Lossless`, what is relied on.
-/

namespace RubyIndex

/-- How bytes are compressed.  Not all bytes can be decompressed; the text says why. -/
structure Compression where
  compress : List UInt8 → List UInt8
  decompress : List UInt8 → Except String (List UInt8)

/-- Decompressing undoes compressing. -/
def Compression.Lossless (z : Compression) : Prop :=
  ∀ content, z.decompress (z.compress content) = .ok content

end RubyIndex
