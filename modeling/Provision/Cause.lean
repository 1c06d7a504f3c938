import Provision.Text.Position
/-!
# Causes

An error of any kind, as those who only report it see it: a text, and the
texts of what lies behind it, outermost first. Two more things are kept of
each link: the position in a document that its text ends in, since reports
leave it out; and whether it is itself the expiry of a deadline, since retry
policies ask for it.
-/

namespace Provision

/-- One error in a chain. -/
structure Link where
  /-- What it says, but for the position that it ends in. -/
  text : String
  /-- The position in a document that it ends in. -/
  position : Option Position
  /-- Whether it is itself the expiry of a deadline. -/
  expired : Bool
  deriving Repr, DecidableEq

namespace Link

/-- An error that says no more than a text. -/
def ofText (text : String) : Link := ⟨text, none, false⟩

/-- All that an error says. -/
def message (l : Link) : String :=
  match l.position with
  | none => l.text
  | some p => l.text ++ p.message

/-- An ordinary error that says what another one says, after an
introduction. -/
def under (intro : String) (l : Link) : Link := ⟨intro ++ l.text, l.position, false⟩

@[simp] theorem message_ofText (text : String) : (ofText text).message = text := rfl

@[simp] theorem message_under (intro : String) (l : Link) :
    (l.under intro).message = intro ++ l.message := by
  cases h : l.position <;> simp [under, message, h, String.append_assoc]

end Link

/-- An error together with the errors behind it. -/
structure Cause where
  /-- The error itself. -/
  head : Link
  /-- The errors behind it, each the reason of the one before. -/
  sources : List Link
  deriving Repr, DecidableEq

namespace Cause

/-- An error that is only a text. -/
def ofText (text : String) : Cause := ⟨.ofText text, []⟩

/-- The expiry of a deadline, as a timer reports it. -/
def elapsed : Cause := ⟨⟨"deadline has elapsed", none, true⟩, []⟩

/-- An ordinary error with a text of its own that another one explains. -/
def wrap (text : String) (c : Cause) : Cause := ⟨.ofText text, c.head :: c.sources⟩

/-- The error and all behind it, outermost first. -/
def links (c : Cause) : List Link := c.head :: c.sources

/-- What the error says. -/
def message (c : Cause) : String := c.head.message

@[simp] theorem links_wrap (text : String) (c : Cause) :
    (c.wrap text).links = .ofText text :: c.links := rfl

end Cause

end Provision
