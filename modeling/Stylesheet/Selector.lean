import Stylesheet.Error
import Stylesheet.Text.Splitting

/-!
# Selectors

Selector lists are separated by commas.  The selectors of a nested block are
combined with every selector of the enclosing block: `&` stands for the
enclosing selector, and a selector without it becomes a descendant.
-/

namespace Stylesheet.Selector

/-- The selectors of a list, with single spaces; empty entries are left out. -/
def parseList (text : Text) : Except Error (List Text) :=
  let selectors := (text.splitCommas.map Text.collapse).filter (!·.isEmpty)
  if selectors.isEmpty then .error (.form .selectorExpected) else .ok selectors

/-- Puts the enclosing selector in the place of the first `&`. -/
def replaceParent (parent : Text) : Text → Text
  | [] => []
  | c :: rest =>
      if c == '&' then parent ++ rest else c :: replaceParent parent rest

/-- A nested selector in full. -/
def nest (parent child : Text) : Except Error Text :=
  if child.contains '&' then
    let selector := replaceParent parent child
    if selector.contains '&' then .error (.ampersandLeft selector)
    else .ok selector
  else .ok (parent ++ ' ' :: child)

/-- The selectors of a nested block in full, those of the first enclosing
selector first.  At the top level selectors stand for themselves. -/
def combine (parents : Option (List Text)) (children : List Text) :
    Except Error (List Text) :=
  match parents with
  | none => .ok children
  | some parents =>
      (parents.flatMap fun parent => children.map
        fun child => (parent, child)).mapM
        fun (parent, child) => nest parent child

/-- The universal selector matches every element. -/
def isHarmful (selector : Text) : Bool :=
  selector.contains '*'

end Stylesheet.Selector
