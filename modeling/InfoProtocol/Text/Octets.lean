/-!
# Text as octets

Texts travel as octets in UTF-8. Every text has its octets; not all octets spell a text.
-/

namespace InfoProtocol

abbrev Octets := List UInt8

namespace Text

def octets (s : String) : Octets := s.toUTF8.data.toList

def ofOctets? (o : Octets) : Option String := String.fromUTF8? ⟨o.toArray⟩

theorem octets_ofList (l : List Char) :
    octets (String.ofList l) = l.flatMap String.utf8EncodeChar := by
  change (String.ofList l).toByteArray.data.toList = _
  rw [String.toByteArray_ofList, List.utf8Encode, List.data_toByteArray]

theorem octets_eq (s : String) : octets s = s.toList.flatMap String.utf8EncodeChar := by
  rw [← octets_ofList, String.ofList_toList]

theorem octets_append (s t : String) : octets (s ++ t) = octets s ++ octets t := by
  rw [octets_eq, octets_eq, octets_eq, String.toList_append, List.flatMap_append]

theorem ofOctets?_octets (s : String) : ofOctets? (octets s) = some s := by
  have hb : (⟨(octets s).toArray⟩ : ByteArray) = s.toByteArray := rfl
  rw [ofOctets?, hb, String.fromUTF8?, dif_pos s.isValidUTF8]
  rfl

end Text

end InfoProtocol
