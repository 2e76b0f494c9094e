import Descent.Text.Blank
import Descent.Unicode.CaseVariant
import Descent.Unicode.Property

namespace Descent.Regex

-- A set of characters, as a pattern describes it.
inductive CharClass where
  | none
  | range (first last : Char)
  | inCategory (kind : Unicode.Category)
  | alphabetic
  | digit
  | blank
  | word
  | union (a b : CharClass)
  | intersection (a b : CharClass)
  | complement (a : CharClass)
  -- the characters with a case variant in the set
  | variants (a : CharClass)
  -- the same for the letters of ASCII alone
  | asciiVariants (a : CharClass)
  deriving DecidableEq

namespace CharClass

-- The other case of a letter of ASCII.
def asciiSwap (c : Char) : Char :=
  if c.isUpper then c.toLower else c.toUpper

def contains : CharClass → Char → Bool
  | none, _ => false
  | range first last, c => first ≤ c && c ≤ last
  | inCategory kind, c => Unicode.category c = kind
  | alphabetic, c => Unicode.isAlphabetic c
  | digit, c => Unicode.isDecimalDigit c
  | blank, c => Text.isBlank c
  | word, c => Unicode.isWordChar c
  | union a b, c => a.contains c || b.contains c
  | intersection a b, c => a.contains c && b.contains c
  | complement a, c => !a.contains c
  | variants a, c => (Unicode.caseVariants c).any a.contains
  | asciiVariants a, c => a.contains c || a.contains (asciiSwap c)

def char (c : Char) : CharClass := range c c

def unionAll (classes : List CharClass) : CharClass := classes.foldr union none

def difference (a b : CharClass) : CharClass := intersection a (complement b)

def symmetricDifference (a b : CharClass) : CharClass := union (difference a b) (difference b a)

def asciiDigit : CharClass := range '0' '9'

def asciiBlank : CharClass := union (range '\t' '\r') (char ' ')

def asciiWord : CharClass :=
  unionAll [range '0' '9', range 'A' 'Z', char '_', range 'a' 'z']

-- The named classes of ASCII characters.
def named? : String → Option CharClass
  | "alnum" => some (unionAll [range '0' '9', range 'A' 'Z', range 'a' 'z'])
  | "alpha" => some (unionAll [range 'A' 'Z', range 'a' 'z'])
  | "ascii" => some (range '\x00' '\x7f')
  | "blank" => some (unionAll [char '\t', char ' '])
  | "cntrl" => some (unionAll [range '\x00' '\x1f', char '\x7f'])
  | "digit" => some asciiDigit
  | "graph" => some (range '!' '~')
  | "lower" => some (range 'a' 'z')
  | "print" => some (range ' ' '~')
  | "punct" => some (unionAll [range '!' '/', range ':' '@', range '[' '\x60', range '{' '~'])
  | "space" => some asciiBlank
  | "upper" => some (range 'A' 'Z')
  | "word" => some asciiWord
  | "xdigit" => some (unionAll [range '0' '9', range 'A' 'F', range 'a' 'f'])
  | _ => Option.none

def ofCategories (chosen : Unicode.Category → Bool) : CharClass :=
  unionAll ((Unicode.Category.all.filter chosen).map inCategory)

-- The name of a property without case, blanks, hyphens, underscores and a leading `is`.
def normalName (name : List Char) : String :=
  let plain := (name.filter fun c => !(c = ' ' || c = '_' || c = '-')).map Char.toLower
  String.ofList (match plain with
    | 'i' :: 's' :: rest => if rest.isEmpty || rest = ['c'] then plain else rest
    | _ => plain)

-- General categories by abbreviation and by name.
def ofCategoryName? (name : String) : Option CharClass :=
  match name with
  | "any" => some (complement none)
  | "assigned" => some (ofCategories (· ≠ .unassigned))
  | "ascii" => some (range '\x00' '\x7f')
  | "l" | "letter" => some (ofCategories (·.toClass = .letter))
  | "lc" | "casedletter" =>
    some (ofCategories fun kind =>
      kind = .uppercaseLetter || kind = .lowercaseLetter || kind = .titlecaseLetter)
  | "m" | "mark" | "combiningmark" => some (ofCategories (·.toClass = .mark))
  | "n" | "number" => some (ofCategories (·.toClass = .number))
  | "p" | "punctuation" | "punct" => some (ofCategories (·.toClass = .punctuation))
  | "s" | "symbol" => some (ofCategories (·.toClass = .symbol))
  | "z" | "separator" => some (ofCategories (·.toClass = .separator))
  | "c" | "other" => some (ofCategories (·.toClass = .other))
  | "lu" | "uppercaseletter" => some (inCategory .uppercaseLetter)
  | "ll" | "lowercaseletter" => some (inCategory .lowercaseLetter)
  | "lt" | "titlecaseletter" => some (inCategory .titlecaseLetter)
  | "lm" | "modifierletter" => some (inCategory .modifierLetter)
  | "lo" | "otherletter" => some (inCategory .otherLetter)
  | "mn" | "nonspacingmark" => some (inCategory .nonspacingMark)
  | "mc" | "spacingmark" => some (inCategory .spacingMark)
  | "me" | "enclosingmark" => some (inCategory .enclosingMark)
  | "nd" | "decimalnumber" | "digit" => some (inCategory .decimalNumber)
  | "nl" | "letternumber" => some (inCategory .letterNumber)
  | "no" | "othernumber" => some (inCategory .otherNumber)
  | "pc" | "connectorpunctuation" => some (inCategory .connectorPunctuation)
  | "pd" | "dashpunctuation" => some (inCategory .dashPunctuation)
  | "ps" | "openpunctuation" => some (inCategory .openPunctuation)
  | "pe" | "closepunctuation" => some (inCategory .closePunctuation)
  | "pi" | "initialpunctuation" => some (inCategory .initialPunctuation)
  | "pf" | "finalpunctuation" => some (inCategory .finalPunctuation)
  | "po" | "otherpunctuation" => some (inCategory .otherPunctuation)
  | "sm" | "mathsymbol" => some (inCategory .mathSymbol)
  | "sc" | "currencysymbol" => some (inCategory .currencySymbol)
  | "sk" | "modifiersymbol" => some (inCategory .modifierSymbol)
  | "so" | "othersymbol" => some (inCategory .otherSymbol)
  | "zs" | "spaceseparator" => some (inCategory .spaceSeparator)
  | "zl" | "lineseparator" => some (inCategory .lineSeparator)
  | "zp" | "paragraphseparator" => some (inCategory .paragraphSeparator)
  | "cc" | "control" | "cntrl" => some (inCategory .control)
  | "cf" | "format" => some (inCategory .format)
  | "cs" | "surrogate" => some (inCategory .surrogate)
  | "co" | "privateuse" => some (inCategory .privateUse)
  | "cn" | "unassigned" => some (inCategory .unassigned)
  | _ => Option.none

-- A property by its name alone.
def ofProperty? (name : String) : Option CharClass :=
  match name with
  | "alphabetic" | "alpha" => some alphabetic
  | "whitespace" | "wspace" | "space" => some blank
  | _ => ofCategoryName? name

-- A property by name and value.
def ofPropertyValue? (name value : String) : Option CharClass :=
  match name with
  | "generalcategory" | "gc" => ofCategoryName? value
  | _ => Option.none

end CharClass

end Descent.Regex
