import CloudabiCpp.Lib.Printing
import CloudabiCpp.Generator.CppNaming

/-!
The class `CppStructDefsGenerator`. What it prints is a list of lines, one
constructor for each `print` of the source with the values that are formatted
into it; `Line.text` formats them.
-/

namespace CloudabiCpp.Generator.StructDefs

open CloudabiCpp.Lib.Printing
open CloudabiCpp.Generator.Abi
open CloudabiCpp.Generator.CppNaming

/-- What the generator takes from the submodule: `CNaming.typename` of a struct
and the attribute `name` of the types that are not named by the ABI. -/
structure Submodule where
  ctypename : Text → Text
  compoundName : AbiType → Text

def Submodule.typeName (sub : Submodule) : AbiType → Text
  | .int name | .user name => name
  | type => sub.compoundName type

/-- The C names of the submodule as `structs.hpp` shows them. -/
def cloudabiSubmodule : Submodule where
  ctypename := fun name => lit "cloudabi_" ++ name ++ lit "_t"
  compoundName := fun _ => []

inductive Line where
  | simple (indent : Text) (qualified : Bool) (type : AbiType) (name : Text)
  | openUnion (indent : Text)
  | openStruct (indent : Text)
  | closeStruct (indent : Text) (name : Text)
  | closeUnion (indent : Text)
  | range (indent : Text) (target : AbiType) (const : Bool) (name : Text)
  | assertSizeof (struct : Text)
  | assertAlignof (struct : Text)
  | assertOffsetof (struct : Text) (memname cmemname : Text)
  | structHead (struct : Text)
  | structFoot
  | blank

/-- The names a member adds to the variable `names`. -/
def addName (names : List Text) : StructMember → List Text
  | .simple name _ => name :: names
  | .range name _ _ => name :: names
  | .variant name _ => name.toList ++ names

section Members

variable (sub : Submodule)

mutual

/-- The loop of `generate_struct_members` with its variable `names`. -/
def structMembers : List StructMember → (indent : Text) → (reservedNames names : List Text) →
    List Line
  | [], _, _, _ => []
  | m :: ms, indent, reservedNames, names =>
      structMember m indent reservedNames (addName names m) ++
        structMembers ms indent reservedNames (addName names m)
termination_by structural ms => ms

def structMember : StructMember → (indent : Text) → (reservedNames names : List Text) →
    List Line
  | .simple name type, indent, reservedNames, _ =>
      [.simple indent (sub.typeName type ∈ reservedNames) type name]
  | .range name target const, indent, _, _ => [.range indent target const name]
  | .variant _ xs, indent, _, names =>
      .openUnion indent :: structAlternatives xs indent names ++ [.closeUnion indent]
termination_by structural m => m

def structAlternatives : List VariantMember → (indent : Text) → (names : List Text) →
    List Line
  | [], _, _ => []
  | x :: xs, indent, names =>
      structAlternative x indent names ++ structAlternatives xs indent names
termination_by structural xs => xs

def structAlternative : VariantMember → (indent : Text) → (names : List Text) → List Line
  | .mk none ms, indent, names => structMembers ms (indent ++ lit "  ") names []
  | .mk (some name) ms, indent, names =>
      .openStruct indent :: structMembers ms (indent ++ lit "    ") names [] ++
        [.closeStruct indent name]
termination_by structural x => x

end

def generateStructMembers (type : StructType) (indent : Text) (reservedNames : List Text) :
    List Line :=
  structMembers sub type.members indent reservedNames []

end Members

mutual

def generateStructMemberAsserts (struct : Text) : List StructMember → (path : Text) → List Line
  | [], _ => []
  | m :: ms, path => memberAsserts struct m path ++ generateStructMemberAsserts struct ms path
termination_by structural ms => ms

/-- `cmemname2`, the path of the length of a range, is computed by the source and
then not used. -/
def memberAsserts (struct : Text) : StructMember → (path : Text) → List Line
  | .simple name _, path => [.assertOffsetof struct (path ++ name) (path ++ name)]
  | .range name _ _, path => [.assertOffsetof struct (path ++ name) (path ++ name)]
  | .variant _ xs, _ => alternativesAsserts struct xs
termination_by structural m => m

def alternativesAsserts (struct : Text) : List VariantMember → List Line
  | [] => []
  | x :: xs => alternativeAsserts struct x ++ alternativesAsserts struct xs
termination_by structural xs => xs

/-- The path around the variant is not passed on. -/
def alternativeAsserts (struct : Text) : VariantMember → List Line
  | .mk none ms => generateStructMemberAsserts struct ms []
  | .mk (some name) ms => generateStructMemberAsserts struct ms (name ++ ['.'])
termination_by structural x => x

end

def generateStructAsserts (type : StructType) : List Line :=
  .assertSizeof type.name :: .assertAlignof type.name ::
    generateStructMemberAsserts type.name type.members []

/-- `generate_type` for a struct that is not skipped. -/
def generateStruct (sub : Submodule) (type : StructType) : List Line :=
  .structHead type.name :: generateStructMembers sub type (lit "  ") [] ++
    .structFoot :: generateStructAsserts type ++ [.blank]

def assertText (kind : String) (left right : Text) : Text :=
  lit "static_assert(" ++ lit kind ++ ['('] ++ left ++ lit ") == " ++
    lit kind ++ ['('] ++ right ++ lit "), \"\");"

/-- The formatted line, without its line break. -/
def Line.text (sub : Submodule) : Line → Except PyError Text
  | .simple indent qualified type name =>
      (vardecl type name false).map fun decl =>
        indent ++ (if qualified then lit "cloudabi::" else []) ++ decl ++ [';']
  | .openUnion indent => .ok (indent ++ lit "union \x7b")
  | .openStruct indent => .ok (indent ++ lit "  struct \x7b")
  | .closeStruct indent name => .ok (indent ++ lit "  \x7d " ++ name ++ [';'])
  | .closeUnion indent => .ok (indent ++ lit "\x7d;")
  | .range indent target const name =>
      (typename target).map fun type =>
        indent ++ lit "mstd::range<" ++ type ++ (if const then lit " const" else []) ++
          lit "> " ++ name ++ [';']
  | .assertSizeof struct =>
      (mangle struct).map fun name => assertText "sizeof" name (sub.ctypename struct)
  | .assertAlignof struct =>
      (mangle struct).map fun name => assertText "alignof" name (sub.ctypename struct)
  | .assertOffsetof struct memname cmemname =>
      (mangle struct).map fun name =>
        assertText "offsetof" (name ++ lit ", " ++ memname)
          (sub.ctypename struct ++ lit ", " ++ cmemname)
  | .structHead struct =>
      (mangle struct).map fun name => lit "struct " ++ name ++ lit " \x7b"
  | .structFoot => .ok (lit "\x7d;")
  | .blank => .ok []

/-- One `print`; a line whose names cannot be spelled is not printed. -/
def printLine (sub : Submodule) (line : Line) : Printer Line PyError Unit := do
  let _ ← line.text sub
  Printer.print line

def generateType (sub : Submodule) (skip : List Text) (type : NamedType) :
    Printer Line PyError Unit :=
  Printer.when (type.name ∉ skip)
    (match type with
    | .structType type => (generateStruct sub type).forM (printLine sub)
    | _ => pure ())

end CloudabiCpp.Generator.StructDefs
