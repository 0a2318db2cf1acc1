/-!
Names of characters: those of ASCII and of the Latin characters behind it, with the common names of
the control characters. Capitals and small letters of a name count as the same.
-/

set_option autoImplicit false
set_option relaxedAutoImplicit false

namespace Assay.Text

/-- The names of characters by rising code points. -/
def charNames : List (String × Nat) :=
  [("null", 0), ("nul", 0), ("backspace", 8), ("bs", 8), ("character tabulation", 9), ("tab", 9),
    ("ht", 9), ("line feed", 10), ("new line", 10), ("lf", 10), ("line tabulation", 11), ("vt", 11),
    ("form feed", 12), ("ff", 12), ("carriage return", 13), ("cr", 13), ("escape", 27), ("esc", 27),
    ("space", 32), ("exclamation mark", 33), ("quotation mark", 34), ("number sign", 35),
    ("dollar sign", 36), ("percent sign", 37), ("ampersand", 38), ("apostrophe", 39),
    ("left parenthesis", 40), ("right parenthesis", 41), ("asterisk", 42), ("plus sign", 43),
    ("comma", 44), ("hyphen-minus", 45), ("full stop", 46), ("solidus", 47), ("digit zero", 48),
    ("digit one", 49), ("digit two", 50), ("digit three", 51), ("digit four", 52),
    ("digit five", 53), ("digit six", 54), ("digit seven", 55), ("digit eight", 56),
    ("digit nine", 57), ("colon", 58), ("semicolon", 59), ("less-than sign", 60),
    ("equals sign", 61), ("greater-than sign", 62), ("question mark", 63), ("commercial at", 64),
    ("latin capital letter a", 65), ("latin capital letter b", 66), ("latin capital letter c", 67),
    ("latin capital letter d", 68), ("latin capital letter e", 69), ("latin capital letter f", 70),
    ("latin capital letter g", 71), ("latin capital letter h", 72), ("latin capital letter i", 73),
    ("latin capital letter j", 74), ("latin capital letter k", 75), ("latin capital letter l", 76),
    ("latin capital letter m", 77), ("latin capital letter n", 78), ("latin capital letter o", 79),
    ("latin capital letter p", 80), ("latin capital letter q", 81), ("latin capital letter r", 82),
    ("latin capital letter s", 83), ("latin capital letter t", 84), ("latin capital letter u", 85),
    ("latin capital letter v", 86), ("latin capital letter w", 87), ("latin capital letter x", 88),
    ("latin capital letter y", 89), ("latin capital letter z", 90), ("left square bracket", 91),
    ("reverse solidus", 92), ("right square bracket", 93), ("circumflex accent", 94),
    ("low line", 95), ("grave accent", 96), ("latin small letter a", 97),
    ("latin small letter b", 98), ("latin small letter c", 99), ("latin small letter d", 100),
    ("latin small letter e", 101), ("latin small letter f", 102), ("latin small letter g", 103),
    ("latin small letter h", 104), ("latin small letter i", 105), ("latin small letter j", 106),
    ("latin small letter k", 107), ("latin small letter l", 108), ("latin small letter m", 109),
    ("latin small letter n", 110), ("latin small letter o", 111), ("latin small letter p", 112),
    ("latin small letter q", 113), ("latin small letter r", 114), ("latin small letter s", 115),
    ("latin small letter t", 116), ("latin small letter u", 117), ("latin small letter v", 118),
    ("latin small letter w", 119), ("latin small letter x", 120), ("latin small letter y", 121),
    ("latin small letter z", 122), ("left curly bracket", 123), ("vertical line", 124),
    ("right curly bracket", 125), ("tilde", 126), ("delete", 127), ("del", 127),
    ("no-break space", 160), ("nbsp", 160), ("inverted exclamation mark", 161), ("cent sign", 162),
    ("pound sign", 163), ("currency sign", 164), ("yen sign", 165), ("broken bar", 166),
    ("section sign", 167), ("diaeresis", 168), ("copyright sign", 169),
    ("feminine ordinal indicator", 170), ("left-pointing double angle quotation mark", 171),
    ("not sign", 172), ("soft hyphen", 173), ("shy", 173), ("registered sign", 174),
    ("macron", 175), ("degree sign", 176), ("plus-minus sign", 177), ("superscript two", 178),
    ("superscript three", 179), ("acute accent", 180), ("micro sign", 181), ("pilcrow sign", 182),
    ("middle dot", 183), ("cedilla", 184), ("superscript one", 185),
    ("masculine ordinal indicator", 186), ("right-pointing double angle quotation mark", 187),
    ("vulgar fraction one quarter", 188), ("vulgar fraction one half", 189),
    ("vulgar fraction three quarters", 190), ("inverted question mark", 191),
    ("latin capital letter a with grave", 192), ("latin capital letter a with acute", 193),
    ("latin capital letter a with circumflex", 194), ("latin capital letter a with tilde", 195),
    ("latin capital letter a with diaeresis", 196), ("latin capital letter a with ring above", 197),
    ("latin capital letter ae", 198), ("latin capital letter c with cedilla", 199),
    ("latin capital letter e with grave", 200), ("latin capital letter e with acute", 201),
    ("latin capital letter e with circumflex", 202), ("latin capital letter e with diaeresis", 203),
    ("latin capital letter i with grave", 204), ("latin capital letter i with acute", 205),
    ("latin capital letter i with circumflex", 206), ("latin capital letter i with diaeresis", 207),
    ("latin capital letter eth", 208), ("latin capital letter n with tilde", 209),
    ("latin capital letter o with grave", 210), ("latin capital letter o with acute", 211),
    ("latin capital letter o with circumflex", 212), ("latin capital letter o with tilde", 213),
    ("latin capital letter o with diaeresis", 214), ("multiplication sign", 215),
    ("latin capital letter o with stroke", 216), ("latin capital letter u with grave", 217),
    ("latin capital letter u with acute", 218), ("latin capital letter u with circumflex", 219),
    ("latin capital letter u with diaeresis", 220), ("latin capital letter y with acute", 221),
    ("latin capital letter thorn", 222), ("latin small letter sharp s", 223),
    ("latin small letter a with grave", 224), ("latin small letter a with acute", 225),
    ("latin small letter a with circumflex", 226), ("latin small letter a with tilde", 227),
    ("latin small letter a with diaeresis", 228), ("latin small letter a with ring above", 229),
    ("latin small letter ae", 230), ("latin small letter c with cedilla", 231),
    ("latin small letter e with grave", 232), ("latin small letter e with acute", 233),
    ("latin small letter e with circumflex", 234), ("latin small letter e with diaeresis", 235),
    ("latin small letter i with grave", 236), ("latin small letter i with acute", 237),
    ("latin small letter i with circumflex", 238), ("latin small letter i with diaeresis", 239),
    ("latin small letter eth", 240), ("latin small letter n with tilde", 241),
    ("latin small letter o with grave", 242), ("latin small letter o with acute", 243),
    ("latin small letter o with circumflex", 244), ("latin small letter o with tilde", 245),
    ("latin small letter o with diaeresis", 246), ("division sign", 247),
    ("latin small letter o with stroke", 248), ("latin small letter u with grave", 249),
    ("latin small letter u with acute", 250), ("latin small letter u with circumflex", 251),
    ("latin small letter u with diaeresis", 252), ("latin small letter y with acute", 253),
    ("latin small letter thorn", 254), ("latin small letter y with diaeresis", 255)]

/-- The code point of the character with a name. -/
def namedPoint? (name : String) : Option Nat := charNames.lookup name.toLower

end Assay.Text
