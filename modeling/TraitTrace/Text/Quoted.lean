import TraitTrace.Text.Printable

/-! Quoted texts, as they stand in prose and in log lines: single quotes, or double quotes around a
text with a single quote and no double one. Backslashes, the quote itself and characters without a
glyph are escaped. -/

namespace TraitTrace.Text

def hexPadded (width n : Nat) : List Char :=
  let ds := Nat.toDigits 16 n
  List.replicate (width - ds.length) '0' ++ ds

def quotedChar (mark : Char) (c : Char) : List Char :=
  if c = mark ∨ c = '\\' then ['\\', c]
  else if c = '\n' then ['\\', 'n']
  else if c = '\r' then ['\\', 'r']
  else if c = '\t' then ['\\', 't']
  else if isPrintable c then [c]
  else if c.toNat < 0x100 then '\\' :: 'x' :: hexPadded 2 c.toNat
  else if c.toNat < 0x10000 then '\\' :: 'u' :: hexPadded 4 c.toNat
  else '\\' :: 'U' :: hexPadded 8 c.toNat

def quoted (s : String) : String :=
  let cs := s.toList
  let mark := if cs.contains '\'' && !cs.contains '"' then '"' else '\''
  String.ofList (mark :: (cs.flatMap (quotedChar mark) ++ [mark]))

example : quoted "it's" = "\"it's\"" ∧ quoted "a\n\x07\u200b²" = "'a\\n\\x07\\u200b²'" := by
  decide +kernel

end TraitTrace.Text
