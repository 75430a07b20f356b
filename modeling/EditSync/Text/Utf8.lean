/-! Text as octets. -/

namespace EditSync.Text.Utf8

def encode (cs : List Char) : List UInt8 := cs.flatMap String.utf8EncodeChar

/-- Octets that are no UTF-8 have no text. -/
def decode? (bs : List UInt8) : Option (List Char) :=
  bs.toByteArray.utf8Decode?.map Array.toList

theorem encode_append (cs ds : List Char) : encode (cs ++ ds) = encode cs ++ encode ds := by
  simp [encode]

@[simp] theorem decode?_encode (cs : List Char) : decode? (encode cs) = some cs := by
  have : (encode cs).toByteArray = cs.utf8Encode := rfl
  simp [decode?, this, List.utf8Decode?_utf8Encode]

end EditSync.Text.Utf8
