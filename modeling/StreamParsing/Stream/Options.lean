import StreamParsing.Encoding.Basic

/-!
How a stream over a device is set up.
-/

namespace StreamParsing

set_option autoImplicit false

structure ReadOptions where
  chunkSize : Nat
  encoding : Encoding
  deriving DecidableEq, Repr

namespace ReadOptions

def standard : ReadOptions := ⟨1024, .utf8⟩

/-- Sets the chunk size, which is at least one. -/
def withChunkSize (o : ReadOptions) (n : Nat) : ReadOptions := { o with chunkSize := max n 1 }

def withEncoding (o : ReadOptions) (e : Encoding) : ReadOptions := { o with encoding := e }

end ReadOptions

end StreamParsing
