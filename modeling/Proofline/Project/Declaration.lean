import Proofline.Project.Compilation

/-!
# Declarations and their obligations

The parser yields a tree of declarations. A declaration gives rise to a
verification unit when it can be verified and nobody has switched that off:
neither on the declaration itself nor on the module that most closely encloses
it. What encloses that module has no say.
-/

namespace Proofline

/-- What a declaration declares. -/
inductive DeclarationKind where
  | module
  | classType
  | datatype
  | method
  | function
  /-- A lemma, whose body proves what it states. -/
  | proposition
  | field
  | constant
deriving DecidableEq, Repr, Inhabited

namespace DeclarationKind

/-- All kinds. -/
def all : List DeclarationKind :=
  [module, classType, datatype, method, function, proposition, field, constant]

/-- The name under which a kind is written. -/
def name : DeclarationKind → String
  | module => "module"
  | classType => "class"
  | datatype => "datatype"
  | method => "method"
  | function => "function"
  | proposition => "lemma"
  | field => "field"
  | constant => "constant"

/-- The kind with the given name. -/
def ofName? (text : String) : Option DeclarationKind :=
  all.find? fun kind => kind.name = text

@[simp]
theorem ofName?_name (kind : DeclarationKind) : ofName? kind.name = some kind := by
  cases kind <;> decide

end DeclarationKind

/-- A node of the declaration tree. -/
structure Declaration where
  name : String
  kind : DeclarationKind
  uri : String
  range : Range
  /-- Whether there is something to verify. -/
  canVerify : Bool
  /-- Whether verification is asked for; an attribute can switch it off. -/
  verify : Bool
  /-- Whether the members of a module are verified. -/
  verifyMembers : Bool
  /-- Whether the declaration was synthesized rather than written. -/
  autoGenerated : Bool
  ghost : Bool
  /-- The members in order; a place may be empty. -/
  members : List (Option Declaration)

namespace Declaration

/-- Whether the declaration is a module. -/
def isModule (declaration : Declaration) : Bool :=
  declaration.kind = .module

/-- Whether the declaration is to be verified, when its enclosing module
verifies its members. -/
def isCandidate (compilation : Compilation) (declaration : Declaration) : Bool :=
  !declaration.isModule && declaration.canVerify && !declaration.autoGenerated &&
    declaration.verify && compilation.isRoot declaration.uri

mutual

/-- The verification units in a declaration, in preorder. The flag tells
whether an enclosing module verifies its members. -/
def units (compilation : Compilation) (verifying : Bool) : Declaration → List Declaration
  | declaration@⟨_, kind, _, _, _, _, verifyMembers, _, _, members⟩ =>
      let own := if verifying && declaration.isCandidate compilation then [declaration] else []
      own ++ memberUnits compilation (if kind = .module then verifyMembers else verifying) members

/-- The verification units in a list of members, in order. -/
def memberUnits (compilation : Compilation) (verifying : Bool) :
    List (Option Declaration) → List Declaration
  | [] => []
  | none :: rest => memberUnits compilation verifying rest
  | some member :: rest =>
      units compilation verifying member ++ memberUnits compilation verifying rest

end

theorem units_eq (compilation : Compilation) (verifying : Bool) (declaration : Declaration) :
    declaration.units compilation verifying =
      (if verifying && declaration.isCandidate compilation then [declaration] else []) ++
        memberUnits compilation
          (if declaration.isModule then declaration.verifyMembers else verifying)
          declaration.members := by
  cases declaration
  simp [units, isModule]

/-- The verification units of a program, or nothing when the search is
canceled before it comes to a declaration. A program without a module has no
declarations. -/
def collectUnits? (module : Option Declaration) (compilation : Compilation) (canceled : Bool) :
    Option (List Declaration) :=
  match module with
  | none => some []
  | some root => if canceled then none else some (root.units compilation false)

/-- What is found although the search may have been canceled is what there is. -/
theorem collectUnits?_of_eq_some {module : Option Declaration} {compilation : Compilation}
    {canceled : Bool} {units : List Declaration}
    (found : collectUnits? module compilation canceled = some units) :
    collectUnits? module compilation false = some units := by
  cases canceled with
  | false => exact found
  | true =>
      cases module with
      | none => exact found
      | some root => cases found

end Declaration

/-- A declaration as seen after name resolution. -/
structure ResolvedSymbol where
  name : String
  uri : String := ""
  range : Range := { start := {}, stop := {} }
  ghost : Bool := false
deriving DecidableEq, Repr, Inhabited

/-- Declarations by name, for navigation. -/
structure SymbolTable where
  declarations : List ResolvedSymbol := []
deriving DecidableEq, Repr, Inhabited

namespace SymbolTable

/-- Whether nothing is declared. -/
def isEmpty (table : SymbolTable) : Bool :=
  table.declarations.isEmpty

/-- The first declaration of the given name. -/
def find? (table : SymbolTable) (name : String) : Option ResolvedSymbol :=
  table.declarations.find? fun declared => declared.name = name

end SymbolTable

/-- Signatures, for completion and for checks on ghost code. -/
structure SignatureTable where
  symbols : List ResolvedSymbol := []
  resolved : Bool := false
deriving DecidableEq, Repr, Inhabited

end Proofline
