import CloudabiCpp.Lib.Printing
import CloudabiCpp.Generator.StructDefs

/-!
The class `CppTypeDefsGenerator`. An item of its output is one `print` of the
source with the values that are formatted into it.
-/

namespace CloudabiCpp.Generator.TypeDefs

open CloudabiCpp.Lib.Printing
open CloudabiCpp.Lib.Printing.Printer
open CloudabiCpp.Generator.Abi
open CloudabiCpp.Generator.CppNaming
open CloudabiCpp.Generator.StructDefs

/-- The submodule's `CNaming`: the C names of types and of their values. -/
structure CNaming extends Submodule where
  cvalname : IntLikeType → Text → Text

inductive TypeLine where
  | using (name cname : Text)
  | enumHead (name cname : Text)
  | lineBreak
  | enumerator (width : Nat) (name val : Text)
  | enumFoot
  | binaryOperator (op : Char) (type ctype : Text)
  | unaryOperator (type ctype : Text)
  | struct (name : Text)

/-- Python's `max`. -/
def maximum : List Nat → Except PyError Nat
  | [] => .error .valueError
  | n :: ns => .ok (ns.foldl max n)

/-- `max(len(self.naming.valname(type, v)) for v in type.values)`. -/
def columnWidth (values : List Text) : Except PyError Nat := do
  let lengths ← values.mapM fun v => (valname v).map List.length
  maximum lengths

section Generator

variable (cnaming : CNaming) (skip : List Text)

/-- What `generate_type` prints between the braces of an enumeration. -/
def generateValues (type : IntLikeType) : Printer TypeLine PyError Unit := do
  print .lineBreak
  let width ← columnWidth type.values
  when (type.isFlags = true) (print (.enumerator width (lit "none") ['0']))
  type.values.forM fun v => do
    let name ← valname v
    print (.enumerator width name (cnaming.cvalname type v))

def generateOperators (name cname : Text) : Printer TypeLine PyError Unit := do
  ['|', '&'].forM fun op => print (.binaryOperator op name cname)
  print (.unaryOperator name cname)

/-- The branches of `generate_type`. -/
def generateDefinition (name cname : Text) : NamedType → Printer TypeLine PyError Unit
  | .aliasType _ => print (.using name cname)
  | .intLikeType type => do
      print (.enumHead name cname)
      when (type.values.length > 0 ∨ type.isFlags = true) (generateValues cnaming type)
      print .enumFoot
      when (type.isFlags = true) (generateOperators name cname)
  | .structType _ => print (.struct name)

def generateType (type : NamedType) : Printer TypeLine PyError Unit := do
  -- a type that has a name is a user-defined one, and is named before it is skipped
  let name ← typename (.user type.name)
  let cname := cnaming.ctypename type.name
  when (type.name ∉ skip) (generateDefinition cnaming name cname type)

end Generator

/-- `'{name:{width}}'.format(...)`. -/
def padded (width : Nat) (name : Text) : Text :=
  name ++ List.replicate (width - name.length) ' '

/-- The printed text, line breaks included. -/
def TypeLine.text : TypeLine → Text
  | .using name cname => lit "using " ++ name ++ lit " = " ++ cname ++ lit ";\n\n"
  | .enumHead name cname => lit "enum class " ++ name ++ lit " : " ++ cname ++ lit " \x7b"
  | .lineBreak => ['\n']
  | .enumerator width name val => lit "  " ++ padded width name ++ lit " = " ++ val ++ lit ",\n"
  | .enumFoot => lit "\x7d;\n\n"
  | .binaryOperator op type ctype =>
      lit "inline " ++ type ++ lit " operator " ++ [op] ++ lit " (" ++ type ++ lit " a, " ++
        type ++ lit " b) \x7b\n  return " ++ type ++ ['('] ++ ctype ++ lit "(a) " ++ [op] ++
        [' '] ++ ctype ++ lit "(b));\n\x7d\n\n"
  | .unaryOperator type ctype =>
      lit "inline " ++ type ++ lit " operator ~ (" ++ type ++ lit " v) \x7b\n  return " ++ type ++
        lit "(~" ++ ctype ++ lit "(v));\n\x7d\n\n"
  | .struct name => lit "struct " ++ name ++ lit ";\n\n"

/-- The C names of the flags `mflags` as `types.hpp` shows them. -/
def mflagsNaming : CNaming where
  toSubmodule := cloudabiSubmodule
  cvalname := fun _ v => lit "CLOUDABI_MAP_" ++ v.map Char.toUpper

def mflags : IntLikeType where
  name := lit "mflags"
  isFlags := true
  values := [lit "anon", lit "fixed", lit "private", lit "shared"]

example :
    (generateValues mflagsNaming mflags).output.flatMap TypeLine.text =
      ['\n'] ++ lit "  none     = 0,\n" ++
        lit "  anon     = CLOUDABI_MAP_ANON,\n" ++
        lit "  fixed    = CLOUDABI_MAP_FIXED,\n" ++
        lit "  private_ = CLOUDABI_MAP_PRIVATE,\n" ++
        lit "  shared   = CLOUDABI_MAP_SHARED,\n" := by decide +kernel

end CloudabiCpp.Generator.TypeDefs
