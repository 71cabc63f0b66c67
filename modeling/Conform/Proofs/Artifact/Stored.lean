import Conform.Artifact.Stored
import Conform.Proofs.Base64
import Conform.Proofs.Json.Documents

/-! Artifacts come back from a store as they went in, up to the repair of their
texts. The source is octets, so nothing of it is lost. -/
namespace Conform.Artifact

/-- The members of a stored artifact. -/
def storedMembers (signature format source : Bytes) : List (Bytes × Json) :=
  [(utf8 "signature", .string signature), (utf8 "format", .string format),
    (utf8 "source", .string (Base64.encode source))]

theorem updatedMembers_stored (a : Artifact) (signature format source : Bytes) :
    updatedMembers a (storedMembers signature format source) = some ⟨signature, format, source⟩ := by
  have lowerSignature : (utf8 "signature").all isLower = true := by decide
  have lowerFormat : (utf8 "format").all isLower = true := by decide
  have lowerSource : (utf8 "source").all isLower = true := by decide
  rw [storedMembers, updatedMembers, Utf8.foldsTo_lower lowerSignature, if_pos (by decide)]
  simp only [updatedText]
  rw [updatedMembers, Utf8.foldsTo_lower lowerFormat, if_neg (by decide),
    Utf8.foldsTo_lower lowerFormat, if_pos (by decide)]
  simp only [updatedText]
  rw [updatedMembers, Utf8.foldsTo_lower lowerSource, if_neg (by decide),
    Utf8.foldsTo_lower lowerSource, if_neg (by decide), Utf8.foldsTo_lower lowerSource,
    if_pos (by decide)]
  simp only [updatedSource, Base64.decode?_encode, updatedMembers]

theorem repairedMembers_stored (signature format source : Bytes) :
    Json.repairedMembers (storedMembers signature format source) =
      storedMembers (Utf8.repaired signature) (Utf8.repaired format) source := by
  simp only [storedMembers, Json.repairedMembers, Json.repaired,
    Utf8.repaired_lower (show (utf8 "signature").all isLower = true by decide),
    Utf8.repaired_lower (show (utf8 "format").all isLower = true by decide),
    Utf8.repaired_lower (show (utf8 "source").all isLower = true by decide),
    Utf8.repaired_of_valid (Base64.valid_encode source)]

/-- What is read from a stored artifact is the artifact with its texts repaired. -/
theorem readStored?_stored (a : Artifact) : readStored? a.stored =
    some ⟨Utf8.repaired a.signature, Utf8.repaired a.format, a.source⟩ := by
  have sound : (Json.object (storedMembers a.signature a.format a.source)).Sound :=
    ⟨⟨trivial, trivial⟩, ⟨trivial, trivial⟩, ⟨trivial, trivial⟩, trivial⟩
  have shallow : (Json.object (storedMembers a.signature a.format a.source)).depth ≤ 10000 := by
    simp [storedMembers, Json.depth, Json.depthMembers]
  have read : Json.readStored? a.stored =
      some (.object (storedMembers (Utf8.repaired a.signature) (Utf8.repaired a.format) a.source)) := by
    rw [← repairedMembers_stored]
    exact Json.readStored?_write sound shallow
  rw [readStored?, read]
  exact updatedMembers_stored _ _ _ _

end Conform.Artifact
