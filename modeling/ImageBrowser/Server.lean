import ImageBrowser.Tools.Basic

/-!
Making the server that offers the tools. What the server's constructor accepts decides what it is
given; when a part that the server needs is not installed, there is none.
-/

namespace ImageBrowser.Server

inductive Dependency
  | protocolLibrary
  | stoneInterface
  deriving DecidableEq, Repr

def Dependency.message : Dependency → String
  | protocolLibrary =>
    "stonebrowser-mcp requires the mcp package. Install with: pip install reahl-stonebrowser"
  | stoneInterface =>
    "stonebrowser-mcp requires reahl-parseltongue. Install project dependencies first."

def name : String := "StoneBrowserMCP"

def version : String := "0.1.0"

structure ConstructorParameter where
  name : String
  takesOthers : Bool
  deriving DecidableEq, Repr

def acceptsVersion (parameters : List ConstructorParameter) : Bool :=
  parameters.any fun p => p.takesOthers || p.name = "version"

/-- Nothing is known of a constructor that cannot be inspected. -/
def arguments (parameters : Option (List ConstructorParameter)) : List (String × Value) :=
  ("name", .text name) ::
    if (parameters.map acceptsVersion).getD false then [("version", .text version)] else []

def initial (settings : Settings) : World :=
  { settings := settings, selectionListeners := ({} : Subscribers Listener).subscribe .tree }

end ImageBrowser.Server
