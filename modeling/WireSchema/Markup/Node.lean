/-!
The tree of a markup document: elements with their attributes, child elements, text and the
line they were read at.
-/

namespace WireSchema.Markup

structure Node where
  name : String
  attributes : List (String × String) := []
  children : List Node := []
  text : String := ""
  line : Nat := 0

namespace Node

instance : Inhabited Node := ⟨{ name := "" }⟩

def attribute? (node : Node) (name : String) : Option String :=
  (node.attributes.find? fun entry => entry.1 == name).map (·.2)

def hasAttribute (node : Node) (name : String) : Bool :=
  node.attributes.any fun entry => entry.1 == name

def childrenNamed (node : Node) (name : String) : List Node :=
  node.children.filter fun child => child.name == name

def child? (node : Node) (name : String) : Option Node :=
  node.children.find? fun child => child.name == name

def unknownAttributes (node : Node) (known : List String) : List String :=
  (node.attributes.map (·.1)).filter fun name => !known.contains name

def unknownChildren (node : Node) (known : List String) : List Node :=
  node.children.filter fun child => !known.contains child.name

mutual
def height : Node → Nat
  | ⟨_, _, children, _, _⟩ => heights children + 1

def heights : List Node → Nat
  | [] => 0
  | node :: rest => max (height node) (heights rest)
end

end Node

end WireSchema.Markup
