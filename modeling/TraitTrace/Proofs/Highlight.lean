import TraitTrace.Highlight.Printer

/-! Highlighted text on an output without codes. The pieces of a line have the characters of the
line, and a text without tabs and without characters that are not printed comes out as it is. -/

namespace TraitTrace.Highlight

end TraitTrace.Highlight
