import StyleAudit.Text.Utf8

/-! # Octets

File names, arguments and scripts of a machine are sequences of bytes. They are held as characters
U+0000 to U+00FF, one for each byte, so that scripts can be read with character literals. -/

namespace StyleAudit.Machine
set_option autoImplicit false

open Text

abbrev Octets := List Char

namespace Octets

def ofByte (b : UInt8) : Char := Char.ofNat b.toNat

def ofBytes (bytes : ByteArray) : Octets := bytes.data.toList.map ofByte

/-- The bytes of a text in UTF-8. -/
def ofText (text : String) : Octets := ofBytes text.toUTF8

def toBytes (o : Octets) : ByteArray := ⟨(o.map fun c => UInt8.ofNat c.toNat).toArray⟩

/-- The text that the bytes stand for. -/
def toText (o : Octets) : String := Utf8.lossyText (toBytes o)

end Octets

end StyleAudit.Machine
