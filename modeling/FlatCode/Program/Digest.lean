import FlatCode.Program.Document
import FlatCode.Digest.Sha256

/-!
# Digests of programs

The digest of a program is the hash of one text (`Program.canonicalText`): the documents of its
instructions with the fields of every object in order. The text is ASCII, so its characters are its
bytes.
-/

namespace FlatCode.Program

/-- The text that the digest is taken of. -/
def canonicalText (program : Program) : List Char :=
  Json.write .canonical program.instructionsJson

/-- The digest of a program, in hexadecimal. -/
def digest (program : Program) : String :=
  Sha256.sha256 (program.canonicalText.map fun c => UInt8.ofNat c.toNat)

end FlatCode.Program
