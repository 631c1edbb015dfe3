/-
How a decode can fail, and the counts of one that does not.

* `DecodeError`: the input ends too early, or it is not allowed; with the
  message for either;
* `Outcome`: the bytes read, produced and left over by a decode.
-/

namespace Deflate

/-- Why a byte string is not a complete stream. -/
inductive DecodeError where
  /-- The input ends before the final block does. -/
  | truncated (consumed produced : Nat)
  /-- The bytes before `offset` hold an item that is not allowed. -/
  | corrupt (offset : Nat) (detail : String)
  deriving Repr, DecidableEq

namespace DecodeError

/-- All that is said about an item that is not allowed. -/
def badItem : String :=
  "invalid block type, stored length, Huffman code, or back-reference distance"

def isTruncated : DecodeError → Bool
  | .truncated .. => true
  | .corrupt .. => false

def message : DecodeError → String
  | .truncated consumed produced =>
      s!"truncated deflate stream: input exhausted after {consumed} bytes " ++
        s!"({produced} bytes decoded, final block not reached)"
  | .corrupt offset detail => s!"corrupt deflate stream at input offset {offset}: {detail}"

end DecodeError

/-- The counts of a successful decode. -/
structure Outcome where
  /-- The bytes of the stream, up to the end of its final block. -/
  consumed : Nat
  /-- The bytes of output. -/
  produced : Nat
  /-- The bytes of the input after the stream. -/
  trailing : Nat
  deriving Repr, DecidableEq

end Deflate
