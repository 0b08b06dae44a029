import PeerNet.Markup.Reference

/-!
# Written markup

Tags with attributes as text. Values are escaped, so that they read back as
they are.
-/

set_option autoImplicit false

namespace PeerNet.Markup

def attributeText (entry : String × String) : List Char :=
  ' ' :: entry.1.toList ++ '=' :: '"' :: escape entry.2.toList ++ ['"']

def tagText (name : String) (attributes : List (String × String)) : List Char :=
  name.toList ++ attributes.flatMap attributeText

def openingText (name : String) (attributes : List (String × String)) : List Char :=
  '<' :: tagText name attributes ++ ['>']

def selfClosingText (name : String) (attributes : List (String × String)) : List Char :=
  '<' :: tagText name attributes ++ ['/', '>']

def closingText (name : String) : List Char :=
  '<' :: '/' :: name.toList ++ ['>']

end PeerNet.Markup
