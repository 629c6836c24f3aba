import Conformance.Error
import Conformance.Path

namespace Conformance

structure Corpus where
  /-- The files below a folder whose paths pass a test; those right in the
  folder, or at any depth. -/
  list : (root : String) → (recursive : Bool) → (String → Bool) → Except Error (List String)
  read : (path : String) → Except Error ByteArray
  describe : String

end Conformance
