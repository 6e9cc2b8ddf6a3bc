import Scriptlet.Form.Element

/-!
# Form builders

A builder gathers the markup of elements until it is flushed.  Builders made
from one another share nothing.
-/

namespace Scriptlet

structure Form where
  buffer : Text := []
deriving DecidableEq

namespace Form

def add (element : Element) (form : Form) : Form :=
  ⟨form.buffer ++ element.render⟩

def flush (form : Form) : Text × Form :=
  (form.buffer, ⟨[]⟩)

def newScope (_ : Form) : Form := {}

@[simp] theorem buffer_add (element : Element) (form : Form) :
    (form.add element).buffer = form.buffer ++ element.render := rfl

end Form

end Scriptlet
