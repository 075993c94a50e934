import BmpFeed.Regex.CharSet
import BmpFeed.Text.Case

/-!
# Names of character properties

The sets that `\p` and the classes in `[: :]` name.
-/

namespace BmpFeed.Regex

open Text GeneralCategory

/-- A property's name without blanks, dashes and underscores, in lower case. -/
def looseName (s : List Char) : String :=
  String.ofList ((s.filter fun c => !(c = ' ' || c = '-' || c = '_')).map Char.toLower)

def categories (gs : List GeneralCategory) : CharSet :=
  .unions (gs.map fun g => .property (.category g))

/-- The general categories by their loose names. -/
def categoryNames : List (List String × List GeneralCategory) :=
  [(["l", "letter"],
     [uppercaseLetter, lowercaseLetter, titlecaseLetter, modifierLetter, otherLetter]),
   (["lc", "casedletter"], [uppercaseLetter, lowercaseLetter, titlecaseLetter]),
   (["lu", "uppercaseletter"], [uppercaseLetter]),
   (["ll", "lowercaseletter"], [lowercaseLetter]),
   (["lt", "titlecaseletter"], [titlecaseLetter]),
   (["lm", "modifierletter"], [modifierLetter]),
   (["lo", "otherletter"], [otherLetter]),
   (["m", "mark", "combiningmark"], [nonspacingMark, spacingMark, enclosingMark]),
   (["mn", "nonspacingmark"], [nonspacingMark]),
   (["mc", "spacingmark"], [spacingMark]),
   (["me", "enclosingmark"], [enclosingMark]),
   (["n", "number"], [decimalNumber, letterNumber, otherNumber]),
   (["nd", "decimalnumber", "digit"], [decimalNumber]),
   (["nl", "letternumber"], [letterNumber]),
   (["no", "othernumber"], [otherNumber]),
   (["p", "punctuation", "punct"],
     [connectorPunctuation, dashPunctuation, openPunctuation, closePunctuation, initialPunctuation,
      finalPunctuation, otherPunctuation]),
   (["pc", "connectorpunctuation"], [connectorPunctuation]),
   (["pd", "dashpunctuation"], [dashPunctuation]),
   (["ps", "openpunctuation"], [openPunctuation]),
   (["pe", "closepunctuation"], [closePunctuation]),
   (["pi", "initialpunctuation"], [initialPunctuation]),
   (["pf", "finalpunctuation"], [finalPunctuation]),
   (["po", "otherpunctuation"], [otherPunctuation]),
   (["s", "symbol"], [mathSymbol, currencySymbol, modifierSymbol, otherSymbol]),
   (["sm", "mathsymbol"], [mathSymbol]),
   (["sc", "currencysymbol"], [currencySymbol]),
   (["sk", "modifiersymbol"], [modifierSymbol]),
   (["so", "othersymbol"], [otherSymbol]),
   (["z", "separator"], [spaceSeparator, lineSeparator, paragraphSeparator]),
   (["zs", "spaceseparator"], [spaceSeparator]),
   (["zl", "lineseparator"], [lineSeparator]),
   (["zp", "paragraphseparator"], [paragraphSeparator]),
   (["c", "other"], [control, format, surrogate, privateUse, unassigned]),
   (["cc", "control", "cntrl"], [control]),
   (["cf", "format"], [format]),
   (["cs", "surrogate"], [surrogate]),
   (["co", "privateuse"], [privateUse]),
   (["cn", "unassigned"], [unassigned])]

def categorySet? (name : String) : Option CharSet :=
  match name with
  | "any" => some .any
  | "ascii" => some (.range 0 0x7F)
  | "assigned" => some (.compl (categories [unassigned]))
  | _ => (categoryNames.find? fun e => e.1.contains name).map fun e => categories e.2

/-- Properties that hold or do not hold of a character. -/
def binarySet? (name : String) : Option CharSet :=
  match name with
  | "alphabetic" | "alpha" =>
    some (.unions
      [categories [uppercaseLetter, lowercaseLetter, titlecaseLetter, modifierLetter, otherLetter,
        letterNumber], .range 0x24B6 0x24E9, .range 0x1F130 0x1F149, .range 0x1F150 0x1F169,
        .range 0x1F170 0x1F189])
  | "lowercase" | "lower" => some (categories [lowercaseLetter])
  | "uppercase" | "upper" => some (categories [uppercaseLetter])
  | "whitespace" | "space" | "wspace" => some (.property .blank)
  | "joincontrol" | "joinc" => some (.range 0x200C 0x200D)
  | _ => none

/-- The blocks of letters of the commoner scripts, by loose name. -/
def scripts : List (List String × List (Nat × Nat)) :=
  [(["latin", "latn"],
     [(0x41, 0x5A), (0x61, 0x7A), (0xAA, 0xAA), (0xBA, 0xBA), (0xC0, 0xD6), (0xD8, 0xF6),
      (0xF8, 0x2B8), (0x2E0, 0x2E4), (0x1D00, 0x1D25), (0x1D2C, 0x1D5C), (0x1D62, 0x1D65),
      (0x1D6B, 0x1D77), (0x1D79, 0x1DBE), (0x1E00, 0x1EFF), (0x2071, 0x2071), (0x207F, 0x207F),
      (0x2090, 0x209C), (0x212A, 0x212B), (0x2132, 0x2132), (0x214E, 0x214E), (0x2160, 0x2188),
      (0x2C60, 0x2C7F), (0xA722, 0xA787), (0xA78B, 0xA7CA), (0xA7F2, 0xA7FF), (0xAB30, 0xAB5A),
      (0xAB5C, 0xAB64), (0xFB00, 0xFB06), (0xFF21, 0xFF3A), (0xFF41, 0xFF5A)]),
   (["greek", "grek"],
     [(0x370, 0x373), (0x375, 0x377), (0x37A, 0x37D), (0x37F, 0x37F), (0x384, 0x384),
      (0x386, 0x386), (0x388, 0x38A), (0x38C, 0x38C), (0x38E, 0x3A1), (0x3A3, 0x3E1),
      (0x3F0, 0x3FF), (0x1D26, 0x1D2A), (0x1F00, 0x1FFE), (0x2126, 0x2126)]),
   (["cyrillic", "cyrl"],
     [(0x400, 0x484), (0x487, 0x52F), (0x1C80, 0x1C88), (0x1D2B, 0x1D2B), (0x1D78, 0x1D78),
      (0x2DE0, 0x2DFF), (0xA640, 0xA69F), (0xFE2E, 0xFE2F)]),
   (["armenian", "armn"], [(0x531, 0x556), (0x559, 0x58A), (0x58D, 0x58F), (0xFB13, 0xFB17)]),
   (["hebrew", "hebr"], [(0x591, 0x5C7), (0x5D0, 0x5EA), (0x5EF, 0x5F4), (0xFB1D, 0xFB4F)]),
   (["arabic", "arab"],
     [(0x600, 0x604), (0x606, 0x60B), (0x60D, 0x61A), (0x61C, 0x61E), (0x620, 0x63F),
      (0x641, 0x64A), (0x656, 0x66F), (0x671, 0x6DC), (0x6DE, 0x6FF), (0x750, 0x77F),
      (0x8A0, 0x8FF), (0xFB50, 0xFDFF), (0xFE70, 0xFEFC)]),
   (["devanagari", "deva"], [(0x900, 0x950), (0x955, 0x963), (0x966, 0x97F), (0xA8E0, 0xA8FF)]),
   (["thai"], [(0xE01, 0xE3A), (0xE40, 0xE5B)]),
   (["hangul", "hang"],
     [(0x1100, 0x11FF), (0x302E, 0x302F), (0x3131, 0x318E), (0x3200, 0x321E), (0xA960, 0xA97C),
      (0xAC00, 0xD7A3), (0xD7B0, 0xD7FB), (0xFFA0, 0xFFDC)]),
   (["hiragana", "hira"], [(0x3041, 0x3096), (0x309D, 0x309F), (0x1B001, 0x1B11F)]),
   (["katakana", "kana"],
     [(0x30A1, 0x30FA), (0x30FD, 0x30FF), (0x31F0, 0x31FF), (0x32D0, 0x32FE), (0x3300, 0x3357),
      (0xFF66, 0xFF6F), (0xFF71, 0xFF9D)]),
   (["han", "hani"],
     [(0x2E80, 0x2FD5), (0x3005, 0x3005), (0x3007, 0x3007), (0x3021, 0x3029), (0x3038, 0x303B),
      (0x3400, 0x4DBF), (0x4E00, 0x9FFF), (0xF900, 0xFAD9), (0x20000, 0x323AF)])]

def scriptSet? (name : String) : Option CharSet :=
  (scripts.find? fun e => e.1.contains name).map fun e =>
    .unions (e.2.map fun r => .range r.1 r.2)

/-- The set of a property named alone. -/
def namedSet? (name : String) : Option CharSet :=
  ((binarySet? name).or (categorySet? name)).or (scriptSet? name)

/-- The set of the characters whose property `name` is `value`. -/
def valueSet? (name value : String) : Option CharSet :=
  match name with
  | "gc" | "generalcategory" => categorySet? value
  | "sc" | "script" | "scx" | "scriptextensions" => scriptSet? value
  | _ => none

/-- The set of a name in `[: :]`. -/
def asciiSet? (name : String) : Option CharSet :=
  match name with
  | "alnum" => some (.unions [.range 48 57, .range 65 90, .range 97 122])
  | "alpha" => some (.unions [.range 65 90, .range 97 122])
  | "ascii" => some (.range 0 127)
  | "blank" => some (.unions [.range 9 9, .range 32 32])
  | "cntrl" => some (.unions [.range 0 31, .range 127 127])
  | "digit" => some (.range 48 57)
  | "graph" => some (.range 33 126)
  | "lower" => some (.range 97 122)
  | "print" => some (.range 32 126)
  | "punct" => some (.unions [.range 33 47, .range 58 64, .range 91 96, .range 123 126])
  | "space" => some (.unions [.range 9 13, .range 32 32])
  | "upper" => some (.range 65 90)
  | "word" => some (.unions [.range 48 57, .range 65 90, .range 95 95, .range 97 122])
  | "xdigit" => some (.unions [.range 48 57, .range 65 70, .range 97 102])
  | _ => none

end BmpFeed.Regex
