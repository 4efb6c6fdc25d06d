import CodeSurvey.Pattern.Basic
import CodeSurvey.Text.Blank

/-!
# Patterns of source text

The twelve patterns by which headers, declarations, import targets, comments, quotes and white space
are recognised. A name is an ASCII letter, an underscore or a dollar sign, followed by any number of
these and ASCII digits; white space is the Unicode property.
-/

namespace CodeSurvey.Pattern

open Text (isBlank)

/-- Whether a name can start with a character. -/
def startsName (c : Char) : Bool :=
  c.isAlpha || c == '_' || c == '$'

/-- Whether a name can go on with a character. -/
def continuesName (c : Char) : Bool :=
  c.isAlphanum || c == '_' || c == '$'

/-- Holds for the three characters that quote an import target. -/
def isQuote (c : Char) : Bool :=
  c == '\x27' || c == '"' || c == '\x60'

/-- A run of white space, possibly empty. -/
def blanks : Pattern := many isBlank

/-- A run of at least one blank. -/
def gap : Pattern := many1 isBlank

/-- A given character. -/
def char (c : Char) : Pattern := one (· == c)

/-- A name. -/
def name : Pattern := seq (one startsName) (many continuesName)

/-- A keyword, white space and a name, which is kept. -/
def declaration (keyword : Pattern) : Pattern :=
  inOrder [keyword, gap, capture name]

/-- Names of functions declared by keyword. -/
def functionName : Pattern := declaration (word "function".toList)

/-- Names of classes. -/
def className : Pattern := declaration (word "class".toList)

/-- Names of declared variables. -/
def variableDeclaration : Pattern :=
  declaration (either (word "const".toList) (either (word "let".toList) (word "var".toList)))

/-- The header of a function up to the brace that opens its body. -/
def functionHeader : Pattern :=
  inOrder [functionName, blanks, char '(', many (· != ')'), char ')', blanks, char '\x7b']

/-- The header of a method up to the brace that opens its body: a line that starts with a name and a
parenthesis, and no semicolon before the brace. -/
def methodHeader : Pattern :=
  inOrder [char '\n', blanks, capture name, blanks, char '(', many (· != ';'), char ')', blanks,
    char '\x7b']

/-- The header of a class up to the brace that opens its body. -/
def classHeader : Pattern :=
  inOrder [className, blanks, optional (inOrder [word "extends".toList, gap, name]), blanks,
    char '\x7b']

/-- Quotes around a target, which is kept and not empty. -/
def quotedTarget : Pattern :=
  inOrder [one isQuote, capture (many1 fun c => !isQuote c), one isQuote]

/-- An import declaration, up to the first quoted target. -/
def staticImport : Pattern :=
  inOrder [word "import".toList, many fun c => !isQuote c, quotedTarget]

/-- A call of a function with a quoted target alone. -/
def targetCall (function : String) : Pattern :=
  inOrder [word (function ++ "(").toList, blanks, quotedTarget, blanks, char ')']

/-- A require call. -/
def requireCall : Pattern := targetCall "require"

/-- An import call. -/
def dynamicImport : Pattern := targetCall "import"

/-- A comment from two slashes to the end of its line. -/
def lineComment : Pattern :=
  inOrder [word "//".toList, many fun c => c != '\r' && c != '\n']

/-- A single or double quote. -/
def quote : Pattern := one fun c => c == '\x27' || c == '"'

end CodeSurvey.Pattern
