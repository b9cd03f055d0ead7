/-! Texts as bytes, and the order in which names and texts are listed. -/

namespace CommentStrip.Text

/-- The bytes of a text in UTF-8. -/
def bytes (s : String) : List UInt8 := s.toUTF8.data.toList

/-- The first character in which two texts differ decides, and a text comes before its continuations.
In UTF-8 this is the order of the bytes. -/
def isBefore (s t : String) : Bool :=
  s.toList.lex t.toList fun a b => a.toNat < b.toNat

end CommentStrip.Text
