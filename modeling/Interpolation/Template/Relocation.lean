import Interpolation.Template.Reader
import Interpolation.Template.Rendering

/-! The same parts and errors with other positions, and one template put behind another. -/

namespace Interpolation.Template

variable (f : Position → Position)

def Placeholder.relocate (placeholder : Placeholder) : Placeholder :=
  ⟨placeholder.reference, f placeholder.position⟩

def Item.relocate : Item → Item
  | character c => character c
  | placeholder p => placeholder (p.relocate f)

def Part.relocate : Part → Part
  | literal text => literal text
  | placeholder p => placeholder (p.relocate f)

def relocate (template : Template) : Template :=
  ⟨template.parts.map (Part.relocate f)⟩

def Error.relocate : Error → Error
  | unclosedPlaceholder p => unclosedPlaceholder (f p)
  | strayClosingBrace p => strayClosingBrace (f p)
  | emptyPlaceholder p => emptyPlaceholder (f p)
  | missingName p => missingName (f p)
  | unexpectedCharacter c p => unexpectedCharacter c (f p)
  | undeclaredName name p => undeclaredName name (f p)

def RenderError.relocate : RenderError → RenderError
  | unboundName name p => unboundName name (f p)

def unplaced (template : Template) : Template :=
  template.relocate fun _ => .start

def Part.attach : Part → List Part → List Part
  | literal first, literal second :: parts => literal (first ++ second) :: parts
  | part, parts => part :: parts

def concat : List Part → List Part → List Part
  | [], parts => parts
  | [last], parts => last.attach parts
  | part :: next :: rest, parts => part :: concat (next :: rest) parts

instance : Append Template :=
  ⟨fun first second => ⟨concat first.parts second.parts⟩⟩

end Interpolation.Template
