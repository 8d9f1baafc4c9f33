import Verdict.Document.Refusal

/-!
# Texts as bytes
-/

namespace Verdict

theorem textBytes_eq_flatMap (s : String) :
    textBytes s = s.toList.flatMap String.utf8EncodeChar := by
  rw [textBytes, String.toUTF8, ← String.utf8Encode_toList, List.utf8Encode]
  exact List.toList_data_toByteArray

theorem textBytes_append (s t : String) : textBytes (s ++ t) = textBytes s ++ textBytes t := by
  simp [textBytes]

theorem fromUTF8?_textBytes (s : String) :
    String.fromUTF8? (textBytes s).toByteArray = some s := by
  have hbytes : (textBytes s).toByteArray = s.toUTF8 := ByteArray.ext (by simp [textBytes])
  rw [hbytes]
  exact dif_pos s.isValidUTF8

end Verdict
