/-
Fingerprints of documents.

The fingerprint of a value is the digest of its JSON text after every whole number has been
spelled as an integer, so that `100` and `100.0` have the same one.
-/
import DocumentRules.Digest.Sha256
import DocumentRules.Document.Json

namespace DocumentRules

namespace Value

mutual

/-- The value with every whole number of magnitude below `2 ^ 63` as an `int`, at every depth. -/
def canonical : Value → Value
  | .float x => ofNumber x
  | .list items => .list (canonicalItems items)
  | .map entries => .map (canonicalEntries entries)
  | v => v

def canonicalItems : List Value → List Value
  | [] => []
  | v :: vs => canonical v :: canonicalItems vs

def canonicalEntries : List (String × Value) → List (String × Value)
  | [] => []
  | (k, v) :: es => (k, canonical v) :: canonicalEntries es

end

/-- The digest of the canonical JSON text, in small hexadecimal digits. -/
def fingerprint (v : Value) : String := Sha256.hex v.canonical.jsonText

end Value

def Document.fingerprint (d : Document) : String := d.value.fingerprint

end DocumentRules
