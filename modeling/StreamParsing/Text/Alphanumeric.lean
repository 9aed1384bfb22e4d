import StreamParsing.Text.Alphabetic
import StreamParsing.Text.Numeric

/-!
Characters that words consist of.
-/

namespace StreamParsing.Text

set_option autoImplicit false

def isAlphanumeric (c : Char) : Bool := isAlphabetic c || isNumeric c

end StreamParsing.Text
