import CloudabiCpp.Generator.OffsetAsserts
import CloudabiCpp.Generator.NameLookup

/-!
What a printed struct declares: itself in the namespace, and its members scope by
scope. An anonymous union opens no scope; a struct inside a union does.
-/

namespace CloudabiCpp.Generator.StructScopes

open CloudabiCpp.Lib.Runs
open CloudabiCpp.Generator.Abi
open CloudabiCpp.Generator.CppNaming
open CloudabiCpp.Generator.StructDefs
open CloudabiCpp.Generator.OffsetAsserts
open CloudabiCpp.Generator.NameLookup

def definedStruct : Line → Option Text
  | .structHead struct => (mangle struct).toOption
  | _ => none

/-- The scopes whose brace is open, and the names in those that were closed. -/
structure Reader where
  opened : Scopes
  closed : List (List Text)

def Reader.read (s : Reader) (line : Line) : Reader where
  opened := afterLine s.opened line
  closed :=
    match line with
    | .closeStruct _ _ => s.opened.headD [] :: s.closed
    | _ => s.closed

/-- The names declared in each scope of a printed struct. -/
def scopesOf (lines : List Line) : List (List Text) :=
  let s := run Reader.read { opened := [[]], closed := [] } lines
  s.opened ++ s.closed

mutual

/-- The scopes inside that of the struct, the last one first. -/
def innerScopes : List StructMember → List (List Text)
  | [] => []
  | m :: ms => innerScopes ms ++ memberScopes m
termination_by structural ms => ms

def memberScopes : StructMember → List (List Text)
  | .simple _ _ => []
  | .range _ _ _ => []
  | .variant _ xs => alternativesScopes xs
termination_by structural m => m

def alternativesScopes : List VariantMember → List (List Text)
  | [] => []
  | x :: xs => alternativesScopes xs ++ alternativeScopes x
termination_by structural xs => xs

def alternativeScopes : VariantMember → List (List Text)
  | .mk none ms => innerScopes ms
  | .mk (some _) ms => declaredNames ms :: innerScopes ms
termination_by structural x => x

end

def structScopes (type : StructType) : List (List Text) :=
  declaredNames type.members :: innerScopes type.members

section Reading

variable (sub : Submodule)

mutual

theorem read_structMembers : ∀ (ms : List StructMember) (indent : Text)
    (reservedNames names scope : List Text) (around : Scopes) (closed : List (List Text)),
    run Reader.read ⟨scope :: around, closed⟩ (structMembers sub ms indent reservedNames names) =
      ⟨(declaredNames ms ++ scope) :: around, innerScopes ms ++ closed⟩
  | [], _, _, _, _, _, _ => by simp [structMembers, declaredNames, innerScopes]
  | m :: ms, indent, reservedNames, names, scope, around, closed => by
      rw [structMembers, run_append, read_structMember m, read_structMembers ms, declaredNames,
        innerScopes, List.append_assoc, List.append_assoc]

theorem read_structMember : ∀ (m : StructMember) (indent : Text)
    (reservedNames names scope : List Text) (around : Scopes) (closed : List (List Text)),
    run Reader.read ⟨scope :: around, closed⟩ (structMember sub m indent reservedNames names) =
      ⟨(memberNames m ++ scope) :: around, memberScopes m ++ closed⟩
  | .simple _ _, _, _, _, _, _, _ => by
      simp [structMember, memberNames, memberScopes, Reader.read, afterLine, declareName]
  | .range _ _ _, _, _, _, _, _, _ => by
      simp [structMember, memberNames, memberScopes, Reader.read, afterLine, declareName]
  | .variant _ xs, indent, _, names, scope, around, closed => by
      simp [structMember, memberNames, memberScopes, Reader.read, afterLine, run_append,
        read_structAlternatives xs indent names scope around closed]

theorem read_structAlternatives : ∀ (xs : List VariantMember) (indent : Text)
    (names scope : List Text) (around : Scopes) (closed : List (List Text)),
    run Reader.read ⟨scope :: around, closed⟩ (structAlternatives sub xs indent names) =
      ⟨(alternativesNames xs ++ scope) :: around, alternativesScopes xs ++ closed⟩
  | [], _, _, _, _, _ => by simp [structAlternatives, alternativesNames, alternativesScopes]
  | x :: xs, indent, names, scope, around, closed => by
      rw [structAlternatives, run_append, read_structAlternative x, read_structAlternatives xs,
        alternativesNames, alternativesScopes, List.append_assoc, List.append_assoc]

theorem read_structAlternative : ∀ (x : VariantMember) (indent : Text)
    (names scope : List Text) (around : Scopes) (closed : List (List Text)),
    run Reader.read ⟨scope :: around, closed⟩ (structAlternative sub x indent names) =
      ⟨(alternativeNames x ++ scope) :: around, alternativeScopes x ++ closed⟩
  | .mk none ms, indent, names, scope, around, closed => by
      simp [structAlternative, alternativeNames, alternativeScopes, read_structMembers ms]
  | .mk (some name) ms, indent, names, scope, around, closed => by
      simp [structAlternative, alternativeNames, alternativeScopes, Reader.read, afterLine,
        declareName, run_append,
        read_structMembers ms (indent ++ lit "    ") names [] [] (scope :: around) closed]

end

mutual

theorem definedStructs_structMembers : ∀ (ms : List StructMember) (indent : Text)
    (reservedNames names : List Text),
    (structMembers sub ms indent reservedNames names).filterMap definedStruct = []
  | [], _, _, _ => rfl
  | m :: ms, indent, reservedNames, names => by
      rw [structMembers, List.filterMap_append, definedStructs_structMember m,
        definedStructs_structMembers ms, List.nil_append]

theorem definedStructs_structMember : ∀ (m : StructMember) (indent : Text)
    (reservedNames names : List Text),
    (structMember sub m indent reservedNames names).filterMap definedStruct = []
  | .simple _ _, _, _, _ => rfl
  | .range _ _ _, _, _, _ => rfl
  | .variant _ xs, indent, _, names => by
      rw [structMember, List.cons_append, List.filterMap_cons_none rfl, List.filterMap_append,
        definedStructs_structAlternatives xs indent names]
      rfl

theorem definedStructs_structAlternatives : ∀ (xs : List VariantMember) (indent : Text)
    (names : List Text), (structAlternatives sub xs indent names).filterMap definedStruct = []
  | [], _, _ => rfl
  | x :: xs, indent, names => by
      rw [structAlternatives, List.filterMap_append, definedStructs_structAlternative x,
        definedStructs_structAlternatives xs, List.nil_append]

theorem definedStructs_structAlternative : ∀ (x : VariantMember) (indent : Text)
    (names : List Text), (structAlternative sub x indent names).filterMap definedStruct = []
  | .mk none ms, indent, names =>
      definedStructs_structMembers ms (indent ++ lit "  ") names []
  | .mk (some _) ms, indent, names => by
      rw [structAlternative, List.cons_append, List.filterMap_cons_none rfl,
        List.filterMap_append, definedStructs_structMembers ms (indent ++ lit "    ") names []]
      rfl

end

theorem generateStruct_eq (type : StructType) :
    generateStruct sub type =
      .structHead type.name :: (structMembers sub type.members (lit "  ") [] [] ++
        (.structFoot :: generateStructAsserts type ++ [.blank])) := by
  rw [generateStruct, generateStructMembers, List.append_assoc, List.cons_append]

/-- Neither the assertions nor the lines around them declare anything. -/
theorem afterMembers_declare_nothing (type : StructType) :
    ∀ line ∈ Line.structFoot :: generateStructAsserts type ++ [.blank],
      definedStruct line = none ∧ ∀ s : Reader, s.read line = s := by
  have hassert : ∀ leaf ∈ leaves type.members,
      definedStruct (leaf.assertLine type.name []) = none ∧
        ∀ s : Reader, s.read (leaf.assertLine type.name []) = s :=
    fun _ _ => ⟨rfl, fun _ => rfl⟩
  rw [generateStructAsserts_eq]
  refine List.forall_mem_append.mpr ⟨List.forall_mem_cons.mpr ⟨⟨rfl, fun _ => rfl⟩, ?_⟩,
    List.forall_mem_singleton.mpr ⟨rfl, fun _ => rfl⟩⟩
  refine List.forall_mem_cons.mpr ⟨⟨rfl, fun _ => rfl⟩, ?_⟩
  refine List.forall_mem_cons.mpr ⟨⟨rfl, fun _ => rfl⟩, ?_⟩
  exact List.forall_mem_map.mpr hassert

theorem definedStructs_generateStruct {type : StructType} (hname : type.name ≠ []) :
    (generateStruct sub type).filterMap definedStruct = [spelled type.name] := by
  have hhead : definedStruct (.structHead type.name) = some (spelled type.name) := by
    rw [definedStruct, mangle_eq_spelled hname]
    rfl
  have hrest := List.filterMap_eq_nil_iff.mpr fun line hline =>
    (afterMembers_declare_nothing type line hline).1
  rw [generateStruct_eq, List.filterMap_cons_some hhead, List.filterMap_append,
    definedStructs_structMembers, hrest]
  rfl

theorem run_read_of_fixed {lines : List Line}
    (hlines : ∀ line ∈ lines, ∀ s : Reader, s.read line = s) (s : Reader) :
    run Reader.read s lines = s := by
  induction lines with
  | nil => rfl
  | cons line lines ih =>
      rw [run_cons, hlines line List.mem_cons_self]
      exact ih fun other hother => hlines other (List.mem_cons_of_mem line hother)

theorem scopesOf_generateStruct (type : StructType) :
    scopesOf (generateStruct sub type) = structScopes type := by
  have hhead : ∀ s : Reader, s.read (.structHead type.name) = s := fun _ => rfl
  have hrest := run_read_of_fixed fun line hline =>
    (afterMembers_declare_nothing type line hline).2
  rw [generateStruct_eq, scopesOf, run_cons, run_append, hhead, hrest, read_structMembers,
    List.append_nil, List.append_nil]
  rfl

end Reading

end CloudabiCpp.Generator.StructScopes
