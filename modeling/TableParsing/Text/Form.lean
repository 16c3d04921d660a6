/-!
# Printed forms of values

Values are shown to programmers as atoms, applied names, records and lists. A form is such a picture
of a value; it is printed either on one line or with one field, argument or item a line, each level
four spaces deeper.
-/

namespace TableParsing

/-- The outline of a value: a word, a name with arguments or with named fields, or a sequence. -/
inductive Form where
  | atom (text : String)
  | applied (name : String) (arguments : List Form)
  | record (name : String) (fields : List (String × Form))
  | list (items : List Form)

namespace Form

def nat (n : Nat) : Form := .atom (toString n)

/-- The picture of a value that is known by a number of its kind, such as `StateID(3)`. -/
def numbered (kind : String) (index : Nat) : Form := .applied kind [nat index]

mutual

/-- A form on one line. Braces of a record stand off its fields, parentheses and brackets do not
stand off what they hold. -/
def inline : Form → String
  | .atom text => text
  | .applied name [] => name
  | .applied name arguments => name ++ "(" ++ inlineItems arguments ++ ")"
  | .record name [] => name
  | .record name fields => name ++ " \x7b " ++ inlineFields fields ++ " \x7d"
  | .list items => "[" ++ inlineItems items ++ "]"

def inlineFields : List (String × Form) → String
  | [] => ""
  | [(label, f)] => label ++ ": " ++ f.inline
  | (label, f) :: rest => label ++ ": " ++ f.inline ++ ", " ++ inlineFields rest

def inlineItems : List Form → String
  | [] => ""
  | [f] => f.inline
  | f :: rest => f.inline ++ ", " ++ inlineItems rest

end

def lineBreak (level : Nat) : String := "\n" ++ "".pushn ' ' (4 * level)

mutual

/-- A form with one field, argument or item a line, each followed by a comma. Forms without any take
no line of their own. -/
def indented (level : Nat) : Form → String
  | .atom text => text
  | .applied name [] => name
  | .applied name arguments =>
    name ++ "(" ++ indentedItems (level + 1) arguments ++ lineBreak level ++ ")"
  | .record name [] => name
  | .record name fields =>
    name ++ " \x7b" ++ indentedFields (level + 1) fields ++ lineBreak level ++ "\x7d"
  | .list [] => "[]"
  | .list items => "[" ++ indentedItems (level + 1) items ++ lineBreak level ++ "]"

def indentedFields (level : Nat) : List (String × Form) → String
  | [] => ""
  | (label, f) :: rest =>
    lineBreak level ++ label ++ ": " ++ f.indented level ++ "," ++ indentedFields level rest

def indentedItems (level : Nat) : List Form → String
  | [] => ""
  | f :: rest => lineBreak level ++ f.indented level ++ "," ++ indentedItems level rest

end

/-- A form over several lines, starting at the left margin. -/
def pretty (f : Form) : String := f.indented 0

end Form

end TableParsing
