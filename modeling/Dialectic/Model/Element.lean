/-
  This file defines references to the elements of a model.

  Key definitions include:
    * `Element`
    * `Element.display`
    * `Element.before`
-/

namespace Dialectic

------------------------------------------------------------
-- Elements
------------------------------------------------------------

/-
  An element that relations connect: a class of equivalent
  statements or an argument, given by its title.
-/
inductive Element where
| statement (title : String)
| argument (title : String)
deriving DecidableEq, Repr

namespace Element

/- The title of an element. -/
def title : Element → String
| statement title => title
| argument title => title

/- An element is a class of statements. -/
def isStatement : Element → Bool
| statement _ => true
| argument _ => false

/- An element is an argument. -/
def isArgument : Element → Bool
| statement _ => false
| argument _ => true

/- The text of an element: its title in brackets. -/
def display : Element → String
| statement title => "[" ++ title ++ "]"
| argument title => "<" ++ title ++ ">"

/-
  Statements come before arguments, and elements of one kind
  are ordered by their titles.
-/
def before : Element → Element → Bool
| statement a, statement b => decide (a < b)
| statement _, argument _ => true
| argument _, statement _ => false
| argument a, argument b => decide (a < b)

end Element

end Dialectic
