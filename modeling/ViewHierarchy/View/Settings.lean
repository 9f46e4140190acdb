import ViewHierarchy.View.Node

/-! What a reader of views is told about names and about the length of values. -/
namespace ViewHierarchy

structure Settings where
  containerTypes : List String
  reservedNames : List String
  rootPatterns : List String
  maxPropLength : Int
  recursionMarker : String

namespace Settings

def defaultContainerTypes : List String :=
  [ "VStack", "HStack", "ZStack", "ScrollView", "List", "Group", "Section", "Form", "TabView",
    "NavigationStack", "NavigationView", "LazyVStack", "LazyHStack", "LazyVGrid", "LazyHGrid",
    "Grid", "GeometryReader" ]

def defaultReservedNames : List String := ["ForEach", "AnyView"]

def defaultRootPatterns : List String := ["content", "main", "root", "app"]

def default : Settings :=
  ⟨defaultContainerTypes, defaultReservedNames, defaultRootPatterns, 60, "/* recursion */"⟩

/-- Names that are never replaced by the declaration of the same name. -/
def isReserved (st : Settings) (name : String) : Bool :=
  decide (name ∈ st.containerTypes) || decide (name ∈ st.reservedNames)

/-- The kind of an element by its name alone. -/
def classify (st : Settings) (name : String) : NodeKind :=
  if name = "ForEach" then .forEach
  else if name ∈ st.containerTypes then .container
  else .view

end Settings

end ViewHierarchy
