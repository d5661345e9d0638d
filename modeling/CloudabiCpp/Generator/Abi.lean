import Mathlib.Data.List.Basic

/-!
The syntax tree of the ABI description as `generate.py` walks it. A text is the
list of its characters.
-/

namespace CloudabiCpp.Generator.Abi

abbrev Text := List Char

instance : LawfulBEq Text := inferInstance

/-- A text written out in the source. -/
@[irreducible] def lit (s : String) : Text := s.toList

inductive AbiType where
  | void
  | int (name : Text)
  | user (name : Text)
  | atomic (target : AbiType)
  | pointer (target : AbiType) (const : Bool)
  | array (count : Nat) (element : AbiType)
  deriving DecidableEq

mutual

inductive StructMember where
  | simple (name : Text) (type : AbiType)
  | range (name : Text) (target : AbiType) (const : Bool)
  | variant (name : Option Text) (members : List VariantMember)

/-- An alternative of a variant; its type is a struct, given by its members. -/
inductive VariantMember where
  | mk (name : Option Text) (members : List StructMember)

end

structure StructType where
  name : Text
  members : List StructMember

/-- An enumeration, a set of flags or an opaque number; a value is given by its
name. -/
structure IntLikeType where
  name : Text
  isFlags : Bool
  values : List Text

/-- What the ABI gives a name to. -/
inductive NamedType where
  | aliasType (name : Text)
  | intLikeType (type : IntLikeType)
  | structType (type : StructType)

def NamedType.name : NamedType → Text
  | .aliasType name => name
  | .intLikeType type => type.name
  | .structType type => type.name

end CloudabiCpp.Generator.Abi
