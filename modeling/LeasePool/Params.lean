import LeasePool.Keyed
import LeasePool.Text.Quoted

/-!
Parameters: what a factory is told about the resources to make, as text under text. A bundle keeps
its keys in order and each key once, so equal bundles are equal as data; its description never
shows the value of a secret key.
-/

namespace LeasePool

structure Params where
  entries : List (String × String)
  keyed : Keyed entries
deriving DecidableEq

namespace Params

def empty : Params := ⟨[], List.Pairwise.nil⟩

instance : Inhabited Params := ⟨empty⟩

def insert (params : Params) (key value : String) : Params :=
  ⟨Keyed.insert key value params.entries, Keyed.insert_keyed params.keyed key value⟩

/-- The bundle that setting the pairs from first to last gives. -/
def ofList (pairs : List (String × String)) : Params :=
  pairs.foldl (fun params pair => params.insert pair.1 pair.2) empty

/-- The parameters in order of their keys. -/
def toList (params : Params) : List (String × String) := params.entries

def get? (params : Params) (key : String) : Option String := Keyed.find? key params.entries

def isEmpty (params : Params) : Bool := params.entries.isEmpty

/-- The keys, in lower case, whose values a description hides. -/
def secretKeys : List String := ["password", "passwd", "secret", "token"]

/-- The key is secret in whatever case its letters from a to z are written. -/
def isSecret (key : String) : Bool :=
  secretKeys.contains (String.ofList (key.toList.map Char.toLower))

/-- What stands for the value of a secret key. -/
def mask : String := "***"

/-- The value that a description shows under a key. -/
def shown (key value : String) : String := if isSecret key then mask else value

def describeEntry (hidden : Char → Bool) (entry : String × String) : String :=
  Text.quotedWith hidden entry.1 ++ ": " ++ Text.quotedWith hidden (shown entry.1 entry.2)

/-- The description of a bundle on one line, if the characters that `hidden` selects cannot be
shown. -/
def describeWith (hidden : Char → Bool) (params : Params) : String :=
  "\x7b" ++ String.intercalate ", " (params.entries.map (describeEntry hidden)) ++ "\x7d"

/-- The description of a bundle with one indented line for each parameter, if the characters that
`hidden` selects cannot be shown. -/
def describeLinesWith (hidden : Char → Bool) (params : Params) : String :=
  if params.isEmpty then "\x7b\x7d"
  else
    "\x7b\n" ++
      String.join (params.entries.map fun entry => "    " ++ describeEntry hidden entry ++ ",\n")
    ++ "\x7d"

def describe (params : Params) : String := params.describeWith Text.isUnprintable

def describeLines (params : Params) : String := params.describeLinesWith Text.isUnprintable

end Params
end LeasePool
