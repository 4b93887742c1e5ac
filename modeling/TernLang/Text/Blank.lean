/-!
Blanks around a text. These are the blanks of all scripts, with the separators of the control range,
and not only those that separate tokens.
-/
namespace TernLang.Text

def blankPoints : List Nat :=
  [0x9, 0xa, 0xb, 0xc, 0xd, 0x1c, 0x1d, 0x1e, 0x1f, 0x20, 0x85, 0xa0, 0x1680, 0x2000, 0x2001,
   0x2002, 0x2003, 0x2004, 0x2005, 0x2006, 0x2007, 0x2008, 0x2009, 0x200a, 0x2028, 0x2029, 0x202f,
   0x205f, 0x3000]

def isBlankPoint (c : Char) : Bool := blankPoints.contains c.toNat

def trimStart (cs : List Char) : List Char := cs.dropWhile isBlankPoint

def trimEnd (cs : List Char) : List Char := (trimStart cs.reverse).reverse

def trim (s : String) : String := String.ofList (trimEnd (trimStart s.toList))

end TernLang.Text
