/-!
What a program leaves behind: the texts of its two output channels and its exit code.
-/

namespace StreamParsing

set_option autoImplicit false

structure Report where
  output : String
  errors : String
  exitCode : Nat
  deriving DecidableEq, Repr

end StreamParsing
