import Mathlib.Algebra.Order.BigOperators.Group.List
import Mathlib.Algebra.Order.Group.Nat
import CloudabiCpp.Generator.StructDefs

/-!
The `offsetof` assertions against the struct they are printed for. The members
are read back from the printed struct with a stack of open braces; the
assertions of a struct are right exactly when no member lies in an alternative
nested inside a named one, since the recursion over the assertions forgets the
path around a variant.
-/

namespace CloudabiCpp.Generator.OffsetAsserts

open CloudabiCpp.Generator.Abi
open CloudabiCpp.Generator.StructDefs

/-- An access path: the members to select, from the outside in. -/
abbrev Path := List Text

def dotted : Path → Text
  | [] => []
  | [name] => name
  | name :: names => name ++ '.' :: dotted names

/-- Reads the members of a struct from printed lines. Every open brace has the
paths declared inside it so far; a brace that closes with a name puts its paths
under that name, the brace of an anonymous union hands them on as they are. -/
def readMembers : List (List Path) → List Line → Option (List Path)
  | [paths], [] => some paths
  | paths :: outer, .simple _ _ _ name :: lines =>
      readMembers ((paths ++ [[name]]) :: outer) lines
  | paths :: outer, .range _ _ _ name :: lines =>
      readMembers ((paths ++ [[name]]) :: outer) lines
  | stack, .openUnion _ :: lines => readMembers ([] :: stack) lines
  | stack, .openStruct _ :: lines => readMembers ([] :: stack) lines
  | paths :: around :: outer, .closeStruct _ name :: lines =>
      readMembers ((around ++ paths.map (name :: ·)) :: outer) lines
  | paths :: around :: outer, .closeUnion _ :: lines =>
      readMembers ((around ++ paths) :: outer) lines
  | _, _ => none

def declaredPaths (lines : List Line) : Option (List Path) :=
  readMembers [[]] lines

/-- The struct and the two access paths of each `offsetof` assertion. -/
def assertedPaths (lines : List Line) : List (Text × Text × Text) :=
  lines.filterMap fun line =>
    match line with
    | .assertOffsetof struct memname cmemname => some (struct, memname, cmemname)
    | _ => none

inductive Content where
  | simple (type : AbiType)
  | range (target : AbiType) (const : Bool)

def Content.type : Content → AbiType
  | .simple type => type
  | .range target _ => target

/-- A Simple or Range member, with the names of the alternatives around it from
the outside in. -/
structure Leaf where
  alternatives : List (Option Text)
  name : Text
  content : Content

namespace Leaf

/-- The member as seen from around an alternative that holds it. -/
def under (alternative : Option Text) (leaf : Leaf) : Leaf :=
  { leaf with alternatives := alternative :: leaf.alternatives }

def path (leaf : Leaf) : Path :=
  leaf.alternatives.filterMap id ++ [leaf.name]

def NamedOnlyInnermost (leaf : Leaf) : Prop :=
  ∀ alternative ∈ leaf.alternatives.dropLast, alternative = none

end Leaf

mutual

def leaves : List StructMember → List Leaf
  | [] => []
  | m :: ms => memberLeaves m ++ leaves ms
termination_by structural ms => ms

def memberLeaves : StructMember → List Leaf
  | .simple name type => [⟨[], name, .simple type⟩]
  | .range name target const => [⟨[], name, .range target const⟩]
  | .variant _ xs => alternativesLeaves xs
termination_by structural m => m

def alternativesLeaves : List VariantMember → List Leaf
  | [] => []
  | x :: xs => alternativeLeaves x ++ alternativesLeaves xs
termination_by structural xs => xs

def alternativeLeaves : VariantMember → List Leaf
  | .mk name ms => (leaves ms).map (Leaf.under name)
termination_by structural x => x

end

@[simp] theorem path_under_none : Leaf.path ∘ Leaf.under none = Leaf.path := rfl

@[simp] theorem path_under_some (name : Text) :
    Leaf.path ∘ Leaf.under (some name) = (name :: ·) ∘ Leaf.path := rfl

mutual

theorem readMembers_structMembers (sub : Submodule) : ∀ (ms : List StructMember)
    (indent : Text) (reservedNames names : List Text) (paths : List Path)
    (stack : List (List Path)) (rest : List Line),
    readMembers (paths :: stack) (structMembers sub ms indent reservedNames names ++ rest) =
      readMembers ((paths ++ (leaves ms).map Leaf.path) :: stack) rest
  | [], _, _, _, _, _, _ => by simp [structMembers, leaves]
  | m :: ms, indent, reservedNames, names, paths, stack, rest => by
      simp [structMembers, leaves, readMembers_structMember sub m,
        readMembers_structMembers sub ms]

theorem readMembers_structMember (sub : Submodule) : ∀ (m : StructMember) (indent : Text)
    (reservedNames names : List Text) (paths : List Path) (stack : List (List Path))
    (rest : List Line),
    readMembers (paths :: stack) (structMember sub m indent reservedNames names ++ rest) =
      readMembers ((paths ++ (memberLeaves m).map Leaf.path) :: stack) rest
  | .simple name type, _, _, _, _, _, _ => by
      simp [structMember, memberLeaves, readMembers, Leaf.path]
  | .range name target const, _, _, _, _, _, _ => by
      simp [structMember, memberLeaves, readMembers, Leaf.path]
  | .variant name xs, indent, _, names, paths, stack, rest => by
      simp [structMember, memberLeaves, readMembers, readMembers_structAlternatives sub xs]

theorem readMembers_structAlternatives (sub : Submodule) : ∀ (xs : List VariantMember)
    (indent : Text) (names : List Text) (paths : List Path) (stack : List (List Path))
    (rest : List Line),
    readMembers (paths :: stack) (structAlternatives sub xs indent names ++ rest) =
      readMembers ((paths ++ (alternativesLeaves xs).map Leaf.path) :: stack) rest
  | [], _, _, _, _, _ => by simp [structAlternatives, alternativesLeaves]
  | x :: xs, indent, names, paths, stack, rest => by
      simp [structAlternatives, alternativesLeaves, readMembers_structAlternative sub x,
        readMembers_structAlternatives sub xs]

theorem readMembers_structAlternative (sub : Submodule) : ∀ (x : VariantMember)
    (indent : Text) (names : List Text) (paths : List Path) (stack : List (List Path))
    (rest : List Line),
    readMembers (paths :: stack) (structAlternative sub x indent names ++ rest) =
      readMembers ((paths ++ (alternativeLeaves x).map Leaf.path) :: stack) rest
  | .mk none ms, indent, names, paths, stack, rest => by
      simp [structAlternative, alternativeLeaves, readMembers_structMembers sub ms]
  | .mk (some name) ms, indent, names, paths, stack, rest => by
      simp [structAlternative, alternativeLeaves, readMembers,
        readMembers_structMembers sub ms]

end

theorem declaredPaths_generateStructMembers (sub : Submodule) (type : StructType)
    (indent : Text) (reservedNames : List Text) :
    declaredPaths (generateStructMembers sub type indent reservedNames) =
      some ((leaves type.members).map Leaf.path) := by
  have hread := readMembers_structMembers sub type.members indent reservedNames [] [] [] []
  rw [List.append_nil] at hread
  rw [declaredPaths, generateStructMembers, hread]
  rfl

/-- What stands before the name of a member in an asserted path. -/
def pathOf (alternative : Option Text) : Text :=
  alternative.elim [] (· ++ ['.'])

def Leaf.assertedPath (path : Text) (leaf : Leaf) : Text :=
  leaf.alternatives.getLast?.elim path pathOf ++ leaf.name

theorem assertedPath_under (path : Text) (alternative : Option Text) (leaf : Leaf) :
    (leaf.under alternative).assertedPath path = leaf.assertedPath (pathOf alternative) := by
  simp only [Leaf.assertedPath, Leaf.under, List.getLast?_cons]
  cases leaf.alternatives.getLast? <;> rfl

def Leaf.assertLine (struct path : Text) (leaf : Leaf) : Line :=
  .assertOffsetof struct (leaf.assertedPath path) (leaf.assertedPath path)

theorem assertLine_comp_under (struct path : Text) (alternative : Option Text) :
    Leaf.assertLine struct path ∘ Leaf.under alternative =
      Leaf.assertLine struct (pathOf alternative) := by
  funext leaf
  simp [Leaf.assertLine, assertedPath_under]

mutual

theorem generateStructMemberAsserts_eq (struct : Text) : ∀ (ms : List StructMember)
    (path : Text),
    generateStructMemberAsserts struct ms path = (leaves ms).map (Leaf.assertLine struct path)
  | [], _ => rfl
  | m :: ms, path => by
      rw [generateStructMemberAsserts, leaves, List.map_append, memberAsserts_eq struct m,
        generateStructMemberAsserts_eq struct ms]

theorem memberAsserts_eq (struct : Text) : ∀ (m : StructMember) (path : Text),
    memberAsserts struct m path = (memberLeaves m).map (Leaf.assertLine struct path)
  | .simple _ _, _ => rfl
  | .range _ _ _, _ => rfl
  | .variant _ xs, path => alternativesAsserts_eq struct xs path

theorem alternativesAsserts_eq (struct : Text) : ∀ (xs : List VariantMember) (path : Text),
    alternativesAsserts struct xs = (alternativesLeaves xs).map (Leaf.assertLine struct path)
  | [], _ => rfl
  | x :: xs, path => by
      rw [alternativesAsserts, alternativesLeaves, List.map_append,
        alternativeAsserts_eq struct x path, alternativesAsserts_eq struct xs path]

theorem alternativeAsserts_eq (struct : Text) : ∀ (x : VariantMember) (path : Text),
    alternativeAsserts struct x = (alternativeLeaves x).map (Leaf.assertLine struct path)
  | .mk none ms, path => by
      rw [alternativeLeaves, List.map_map, assertLine_comp_under]
      exact generateStructMemberAsserts_eq struct ms []
  | .mk (some name) ms, path => by
      rw [alternativeLeaves, List.map_map, assertLine_comp_under]
      exact generateStructMemberAsserts_eq struct ms (name ++ ['.'])

end

theorem generateStructAsserts_eq (type : StructType) :
    generateStructAsserts type =
      .assertSizeof type.name :: .assertAlignof type.name ::
        (leaves type.members).map (Leaf.assertLine type.name []) := by
  rw [generateStructAsserts, generateStructMemberAsserts_eq]

theorem assertedPaths_generateStructAsserts (type : StructType) :
    assertedPaths (generateStructAsserts type) =
      (leaves type.members).map fun leaf =>
        (type.name, leaf.assertedPath [], leaf.assertedPath []) := by
  rw [generateStructAsserts_eq]
  simp [assertedPaths, List.filterMap_map, Function.comp_def, Leaf.assertLine]

theorem dotted_append (names : Path) (name : Text) :
    dotted (names ++ [name]) = names.flatMap (· ++ ['.']) ++ name := by
  induction names with
  | nil => rfl
  | cons first names ih =>
      have hcons : dotted (first :: (names ++ [name])) =
          first ++ '.' :: dotted (names ++ [name]) := by
        cases names <;> rfl
      rw [List.cons_append, hcons, ih]
      simp

def Leaf.forgotten (leaf : Leaf) : Text :=
  (leaf.alternatives.dropLast.filterMap id).flatMap (· ++ ['.'])

theorem dotted_path (leaf : Leaf) :
    dotted leaf.path = leaf.forgotten ++ leaf.assertedPath [] := by
  rw [Leaf.path, dotted_append, Leaf.forgotten, Leaf.assertedPath, ← List.append_assoc]
  congr 1
  rcases List.eq_nil_or_concat leaf.alternatives with hnil | ⟨outer, inner, hconcat⟩
  · simp [hnil]
  · cases inner <;> simp [hconcat, pathOf]

theorem forgotten_eq_nil {leaf : Leaf} :
    leaf.forgotten = [] ↔ leaf.NamedOnlyInnermost := by
  rw [Leaf.forgotten, Leaf.NamedOnlyInnermost, List.flatMap_eq_nil_iff]
  constructor
  · intro hall alternative halternative
    cases alternative with
    | none => rfl
    | some name =>
        have hname := hall name (List.mem_filterMap.mpr ⟨some name, halternative, rfl⟩)
        simp at hname
  · intro hall name hname
    obtain ⟨alternative, halternative, hsome⟩ := List.mem_filterMap.mp hname
    rw [hall alternative halternative] at hsome
    cases hsome

/-- Asserted paths are suffixes of the declared ones, so that the lists can only
match when nothing is left out. -/
theorem namedOnlyInnermost_of_perm {ls : List Leaf}
    (hperm : (ls.map (Leaf.assertedPath [])).Perm (ls.map fun leaf => dotted leaf.path)) :
    ∀ leaf ∈ ls, leaf.NamedOnlyInnermost := by
  intro leaf hleaf
  by_contra hnamed
  have hsum := (hperm.map List.length).sum_eq
  have hle : ∀ leaf ∈ ls, (leaf.assertedPath []).length ≤ (dotted leaf.path).length := by
    intro leaf _
    simp [dotted_path]
  have hlt : (leaf.assertedPath []).length < (dotted leaf.path).length := by
    have hpos := List.length_pos_iff.mpr fun hnil => hnamed (forgotten_eq_nil.mp hnil)
    simp only [dotted_path, List.length_append]
    omega
  have hsums := List.sum_lt_sum _ _ hle ⟨leaf, hleaf, hlt⟩
  simp only [List.map_map, Function.comp_def] at hsum
  omega

theorem dotted_path_of_named {leaf : Leaf} (hnamed : leaf.NamedOnlyInnermost) :
    dotted leaf.path = leaf.assertedPath [] := by
  rw [dotted_path, forgotten_eq_nil.mpr hnamed, List.nil_append]

/-- The assertions of a struct are one for each of its members, under the path
where it is declared, exactly when no member lies in an alternative nested inside
a named one. -/
theorem asserts_match_members_iff (sub : Submodule) (type : StructType) :
    (∃ declared, declaredPaths (generateStructMembers sub type (lit "  ") []) = some declared ∧
      (assertedPaths (generateStructAsserts type)).Perm
        (declared.map fun path => (type.name, dotted path, dotted path))) ↔
      ∀ leaf ∈ leaves type.members, leaf.NamedOnlyInnermost := by
  rw [declaredPaths_generateStructMembers, assertedPaths_generateStructAsserts]
  constructor
  · rintro ⟨declared, hdeclared, hperm⟩
    obtain rfl := Option.some.inj hdeclared
    have hpaths := hperm.map fun paths => paths.2.1
    simp only [List.map_map, Function.comp_def] at hpaths
    exact namedOnlyInnermost_of_perm hpaths
  · intro hnamed
    refine ⟨_, rfl, ?_⟩
    rw [List.map_map]
    refine List.Perm.of_eq (List.map_congr_left fun leaf hleaf => ?_)
    simp [dotted_path_of_named (hnamed leaf hleaf)]

def nestedStruct : StructType where
  name := lit "event"
  members := [.variant none [.mk (some (lit "a")) [.variant none [.mk (some (lit "b"))
    [.simple (lit "x") (.int (lit "uint8"))]]]]]

/-- The member `a.b.x` is asserted as `b.x`. -/
theorem nestedStruct_asserts_mismatch :
    declaredPaths (generateStructMembers cloudabiSubmodule nestedStruct (lit "  ") []) =
        some [[lit "a", lit "b", lit "x"]] ∧
      assertedPaths (generateStructAsserts nestedStruct) =
        [(lit "event", lit "b.x", lit "b.x")] ∧
      ¬ ∃ declared,
        declaredPaths (generateStructMembers cloudabiSubmodule nestedStruct (lit "  ") []) =
            some declared ∧
          (assertedPaths (generateStructAsserts nestedStruct)).Perm
            (declared.map fun path => (lit "event", dotted path, dotted path)) := by
  have hdeclared :
      declaredPaths (generateStructMembers cloudabiSubmodule nestedStruct (lit "  ") []) =
        some [[lit "a", lit "b", lit "x"]] := by decide +kernel
  refine ⟨hdeclared, by decide +kernel, ?_⟩
  rintro ⟨declared, hread, hperm⟩
  rw [hdeclared] at hread
  obtain rfl := Option.some.inj hread
  revert hperm
  decide +kernel

end CloudabiCpp.Generator.OffsetAsserts
