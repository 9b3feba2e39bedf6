/-
# Lists of elements and of scalars

Elements and scalars of one group have encodings of one length, so a list of
them is written without separators and read back given their number.  Reading
takes a byte string of exactly the right length whose every piece is canonical.

The right length is a product of machine words of 64 bits.  A caller who names
the number himself may name one for which it is none, and then the call aborts
(`readElements`, `readScalars`).  Within the library the number is one, or that
of the bases of a statement, which are held in memory: there the product is a
machine word, and `decodeElements` and `decodeScalars` are all of the reading.
-/

import ThreeMove.Group.Basic

namespace ThreeMove

/-- Cuts a byte string into `count` pieces of `size` bytes. -/
def chunks (size : Nat) : Nat → Bytes → List Bytes
  | 0, _ => []
  | count + 1, data => data.take size :: chunks size count (data.drop size)

/-- Reads `count` pieces of `size` bytes each, and nothing else. -/
def decodeChunks {α : Type} (size : Nat) (decoder : Bytes → Option α) (data : Bytes)
    (count : Nat) : Option (List α) :=
  if data.length = size * count then (chunks size count data).mapM decoder else none

/-- Reads `count` pieces, for a number that the caller chooses.  The product of the two numbers is
checked: the call aborts where it does not fit in 64 bits. -/
def readChunks {α : Type} (size : Nat) (decoder : Bytes → Option α) (data : Bytes)
    (count : Nat) : Except Abort (Option (List α)) :=
  if size * count < UInt64.size then .ok (decodeChunks size decoder data count)
  else .error .lengthOverflow

namespace PrimeGroup

variable {G : Type} [PrimeGroup G]

/-- The encodings of the elements in order. Source: `serialize_elements`. -/
def encodeElements (elements : List G) : Bytes := elements.flatMap encode

/-- Reads exactly `count` elements. -/
def decodeElements (data : Bytes) (count : Nat) : Option (List G) :=
  decodeChunks (elementLength G) decode data count

/-- Reads exactly `count` elements, for any number. Source: `deserialize_elements`. -/
def readElements (data : Bytes) (count : Nat) : Except Abort (Option (List G)) :=
  readChunks (elementLength G) decode data count

variable (G)

/-- The big-endian encodings of the scalars in order. Source: `serialize_scalars`. -/
def encodeScalars (scalars : List Nat) : Bytes :=
  scalars.flatMap (Bytes.padded (scalarLength G))

/-- Reads a big-endian number below the order. -/
def decodeScalar (data : Bytes) : Option Nat :=
  if Bytes.beValue data < order G then some (Bytes.beValue data) else none

/-- Reads exactly `count` scalars. -/
def decodeScalars (data : Bytes) (count : Nat) : Option (List Nat) :=
  decodeChunks (scalarLength G) (decodeScalar G) data count

/-- Reads exactly `count` scalars, for any number. Source: `deserialize_scalars`. -/
def readScalars (data : Bytes) (count : Nat) : Except Abort (Option (List Nat)) :=
  readChunks (scalarLength G) (decodeScalar G) data count

end PrimeGroup
end ThreeMove
