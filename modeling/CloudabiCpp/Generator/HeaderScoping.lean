import CloudabiCpp.Lib.Scoping
import CloudabiCpp.Generator.TypesHeader

/-!
`types.hpp` and `structs.hpp` together, as `structs.hpp` includes the other: each
type name finds its type, and its definition where one is needed, exactly if the
ABI has its types in such an order and no member hides the type of another.
-/

namespace CloudabiCpp.Generator.HeaderScoping

open CloudabiCpp.Lib.Lexer
open CloudabiCpp.Lib.Declarations
open CloudabiCpp.Lib.Aggregates
open CloudabiCpp.Lib.ClassReader
open CloudabiCpp.Lib.Headers
open CloudabiCpp.Lib.Scoping
open CloudabiCpp.Generator.Abi
open CloudabiCpp.Generator.CppNaming
open CloudabiCpp.Generator.StructDefs
open CloudabiCpp.Generator.TypeDefs
open CloudabiCpp.Generator.OffsetAsserts
open CloudabiCpp.Generator.NameLookup
open CloudabiCpp.Generator.DeclarationReading
open CloudabiCpp.Generator.StructReading
open CloudabiCpp.Generator.StructsHeader
open CloudabiCpp.Generator.TypesHeader

/-- An object of the type can be there if the user-defined type in it is one of these. -/
def Holdable (defined : Word → Prop) : AbiType → Prop
  | .void => False
  | .int _ => True
  | .user name => defined (spelled name)
  | .atomic target => Holdable defined target
  | .pointer _ _ => True
  | .array _ element => Holdable defined element

/-- A range holds a pointer and a length. -/
def ContentHoldable (defined : Word → Prop) : Content → Prop
  | .simple type => Holdable defined type
  | .range _ _ => True

def intName : AbiType → Option Text
  | .void | .user _ => none
  | .int name => some name
  | .atomic target => intName target
  | .pointer target _ => intName target
  | .array _ element => intName element

/-- What is there of C++, and what is not in its way. -/
structure Equipped (s : Scope) : Prop where
  name : s.name = cloudabi
  namespaces : ∀ w ∈ [lit "std", lit "mstd", cloudabi], s.visible w = none
  atomic : (s.elsewhere [lit "std", lit "atomic"]).isSome
  range : (s.elsewhere [lit "mstd", lit "range"]).isSome
  holders : s.holders = [[lit "std", lit "atomic"]]

/-- The integer type that the type is made of is there, and no type around the
namespace is called as the user-defined one. -/
structure Grounded (s : Scope) (type : AbiType) : Prop where
  int : ∀ name, intName type = some name → name ≠ lit "char" →
    ∃ k, s.elsewhere [lit "std", name ++ lit "_t"] = some k ∧ k.defined = true
  user : ∀ name, userName type = some name → s.outer (spelled name) = none

/-- What the headers find: the names of C++, the C types with the members that C has,
and none of the types that the headers declare themselves. -/
structure Surroundings (cnaming : CNaming) (types : List NamedType) (s : Scope) : Prop where
  equipped : Equipped s
  fresh : ∀ type ∈ types, s.visible (spelled type.name) = none
  namespaces : ∀ type ∈ types, spelled type.name ∉ [lit "std", lit "mstd", cloudabi]
  ctypes : ∀ type ∈ types, s.Defines (cnaming.ctypename type.name)
  cpaths : ∀ t, .structType t ∈ types → ∀ k, s.visible (cnaming.ctypename t.name) = some k →
    ∀ leaf ∈ leaves t.members, leaf.path ∈ k.paths
  grounded : ∀ t, .structType t ∈ types → ∀ leaf ∈ leaves t.members, Grounded s leaf.content.type

def IsStruct : NamedType → Prop
  | .structType _ => True
  | _ => False

/-- A member of a struct behind the types `pre`: the type that it names is there, and
what the struct holds of it is in the surroundings, no struct, or an earlier one. -/
def Available (s : Scope) (types pre : List NamedType) (leaf : Leaf) : Prop :=
  (∀ name, userName leaf.content.type = some name →
    (s.visible (spelled name)).isSome ∨ ∃ type ∈ types, spelled type.name = spelled name) ∧
  ContentHoldable (fun w => s.Defines w ∨
    (∃ type ∈ types, ¬ IsStruct type ∧ spelled type.name = w) ∨
      ∃ type ∈ pre, IsStruct type ∧ spelled type.name = w) leaf.content

/-- The types of the ABI, skipped ones left out, in an order in which they can be
defined. -/
def InOrder (s : Scope) (types : List NamedType) : Prop :=
  ∀ pre t post, types = pre ++ .structType t :: post →
    ∀ leaf ∈ leaves t.members, Available s types pre leaf

section Types

variable {s : Scope}

theorem find_identifier {w : Word} (hw : isIdentifier w = true) (hidden : List Word) :
    s.find hidden [w] = if w ∈ hidden then none else s.visible w := by
  rw [Scope.find, if_neg (not_fundamental hw)]

theorem usable_identifier_iff {w : Word} (hw : isIdentifier w = true) (hidden : List Word) :
    s.Usable hidden (.named false [w]) ↔ w ∉ hidden ∧ s.Defines w := by
  rw [Scope.Usable, Scope.known, find_identifier hw]
  by_cases hmem : w ∈ hidden
  · simp [hmem]
  · simp [hmem, Scope.Defines]

theorem find_elsewhere (hs : Equipped s) {w : Word} (hw : w = lit "std" ∨ w = lit "mstd")
    (hidden : List Word) (type : Word) : s.find hidden [w, type] = s.elsewhere [w, type] := by
  have hne : lit "std" ≠ cloudabi ∧ lit "mstd" ≠ cloudabi := by decide +kernel
  have hnone : s.visible w = none ∧ w ≠ s.name := by
    rw [hs.name]
    rcases hw with rfl | rfl
    · exact ⟨hs.namespaces _ (by simp), hne.1⟩
    · exact ⟨hs.namespaces _ (by simp), hne.2⟩
  rw [Scope.find, hnone.1, if_neg (by simp), if_neg hnone.2]

theorem find_qualified (hs : Equipped s) (hidden : List Word) (type : Word) :
    s.find hidden [cloudabi, type] = s.own type := by
  rw [Scope.find, hs.namespaces cloudabi (by simp), if_neg (by simp), if_pos hs.name.symm]

theorem shadowed_user {hidden : List Word} {name : Text} (hname : WellNamed (.user name)) :
    Shadowed hidden (.user name) ↔ spelled name ∈ hidden := by
  obtain ⟨text, hmangle, -⟩ := hname
  rw [spelled_of_mangle hmangle]
  constructor
  · rintro ⟨_, _, ⟨⟩, hspelled, hmem⟩
    obtain rfl := Except.ok.inj (hmangle.symm.trans hspelled)
    exact hmem
  · exact fun hmem => ⟨name, text, rfl, hmangle, hmem⟩

/-- What the type itself needs, wherever it is written. -/
def Declared (s : Scope) (type : AbiType) : Prop :=
  ∀ name, userName type = some name → (s.visible (spelled name)).isSome

/-- The type is known unless its name is hidden, and it is defined if it can be held. -/
structure KnownAs (s : Scope) (hidden : List Word) (type : AbiType) (read : CType) : Prop where
  isSome : (s.known hidden read).isSome ↔ ¬ Shadowed hidden type ∧ Declared s type
  isDefined : ∀ k, s.known hidden read = some k →
    (k.defined = true ↔ Holdable s.Defines type)

theorem knownAs_user {name : Text} (hname : WellNamed (.user name)) (hidden : List Word) :
    KnownAs s hidden (.user name) (denote (.user name)) := by
  have hidentifier : isIdentifier (spelled name) = true := by
    obtain ⟨text, hmangle, htext⟩ := hname
    rw [spelled_of_mangle hmangle]
    exact htext.2.2
  have hknown : s.known hidden (denote (.user name)) =
      if spelled name ∈ hidden then none else s.visible (spelled name) :=
    find_identifier hidentifier hidden
  constructor
  · rw [hknown, shadowed_user hname]
    by_cases hmem : spelled name ∈ hidden
    · simp [hmem]
    · simp [hmem, Declared, userName]
  · intro k hk
    rw [hknown] at hk
    split_ifs at hk
    simp [Holdable, Scope.Defines, hk]

theorem not_shadowed {hidden : List Word} {type : AbiType} (huser : userName type = none) :
    ¬ Shadowed hidden type := by
  rintro ⟨name, _, hname, -⟩
  rw [huser] at hname
  cases hname

/-- A type without a user-defined one is known wherever it is written. -/
theorem knownAs_of_some {hidden : List Word} {type : AbiType} {read : CType} {k : Known}
    (huser : userName type = none) (hknown : s.known hidden read = some k)
    (hdefined : k.defined = true ↔ Holdable s.Defines type) : KnownAs s hidden type read := by
  constructor
  · have hdeclared : Declared s type := by
      intro name hname
      rw [huser] at hname
      cases hname
    simp [hknown, not_shadowed huser, hdeclared]
  · intro k' hk'
    obtain rfl := Option.some.inj (hknown.symm.trans hk')
    exact hdefined

theorem known_pointer (hidden : List Word) (target : CType) (const : Bool) :
    s.known hidden (if const then target.addConst else target) = s.known hidden target := by
  cases const with
  | false => rfl
  | true => exact s.known_addConst hidden target

/-- A type around another one is known as that one is. -/
theorem KnownAs.map {hidden : List Word} {type type' : AbiType} {read read' : CType}
    (h : KnownAs s hidden type read) (huser : userName type' = userName type) (f : Known → Known)
    (hknown : s.known hidden read' = (s.known hidden read).map f)
    (hdefined : ∀ k, s.known hidden read = some k →
      ((f k).defined = true ↔ Holdable s.Defines type')) : KnownAs s hidden type' read' := by
  constructor
  · have hsome := h.isSome
    rw [hknown, Option.isSome_map, hsome, Shadowed, Declared, Shadowed, Declared, huser]
  · intro k hk
    rw [hknown] at hk
    obtain ⟨k₀, hk₀, rfl⟩ := Option.map_eq_some_iff.mp hk
    exact hdefined k₀ hk₀

theorem known_int (hs : Equipped s) (hidden : List Word) {name : Text}
    (hground : Grounded s (.int name)) :
    ∃ k, s.known hidden (denote (.int name)) = some k ∧ k.defined = true := by
  have hchar : lit "char" ∈ fundamentalWords ∧ (lit "char" != voidWord) = true := by decide +kernel
  rw [denote, intPath]
  split_ifs with hname
  · exact ⟨⟨true, []⟩, by rw [Scope.known, Scope.find, if_pos hchar.1, hchar.2], rfl⟩
  · rw [Scope.known, find_elsewhere hs (Or.inl rfl)]
    exact hground.int name rfl hname

theorem known_atomic (hs : Equipped s) (hidden : List Word) (target : AbiType) :
    s.known hidden (denote (.atomic target)) =
      (s.known hidden (denote target)).map fun k => ⟨k.defined, []⟩ := by
  obtain ⟨k', hk'⟩ := Option.isSome_iff_exists.mp hs.atomic
  rw [denote, Scope.known, find_elsewhere hs (Or.inl rfl), hk']
  cases s.known hidden (denote target) <;> simp [hs.holders]

theorem knownAs_denote (hs : Equipped s) (hidden : List Word) {type : AbiType}
    (htype : WellNamed type) (hground : Grounded s type) :
    KnownAs s hidden type (denote type) := by
  induction type with
  | void =>
      have hvoid : lit "void" ∈ fundamentalWords ∧ (lit "void" != voidWord) = false := by
        decide +kernel
      have hknown : s.known hidden (denote .void) = some ⟨false, []⟩ := by
        rw [denote, Scope.known, Scope.find, if_pos hvoid.1, hvoid.2]
      exact knownAs_of_some rfl hknown (by simp [Holdable])
  | int name =>
      obtain ⟨k, hk, hdefined⟩ := known_int hs hidden hground
      exact knownAs_of_some rfl hk (by simp [hdefined, Holdable])
  | user name => exact knownAs_user htype hidden
  | atomic target ih =>
      have htarget := ih htype ⟨hground.int, hground.user⟩
      exact htarget.map rfl _ (known_atomic hs hidden target) htarget.isDefined
  | pointer target const ih =>
      have htarget := ih htype ⟨hground.int, hground.user⟩
      have hknown : s.known hidden (denote (.pointer target const)) =
          (s.known hidden (denote target)).map fun _ => ⟨true, []⟩ := by
        rw [denote, Scope.known, known_pointer]
      exact htarget.map rfl _ hknown fun _ _ => iff_of_true rfl trivial
  | array count element ih =>
      have helement := ih htype ⟨hground.int, hground.user⟩
      exact helement.map rfl _ rfl helement.isDefined

theorem KnownAs.usable_iff {hidden : List Word} {type : AbiType} {read : CType}
    (h : KnownAs s hidden type read) :
    s.Usable hidden read ↔
      ¬ Shadowed hidden type ∧ Declared s type ∧ Holdable s.Defines type := by
  rw [← and_assoc, ← h.isSome]
  constructor
  · rintro ⟨k, hk, hdefined⟩
    exact ⟨by rw [hk]; rfl, (h.isDefined k hk).mp hdefined⟩
  · rintro ⟨hsome, hholdable⟩
    obtain ⟨k, hk⟩ := Option.isSome_iff_exists.mp hsome
    exact ⟨k, hk, (h.isDefined k hk).mpr hholdable⟩

/-- The qualifier finds what nothing hides. -/
theorem known_inside (hs : Equipped s) (hidden : List Word) {type : AbiType}
    (htype : WellNamed type) (hground : Grounded s type) (hleads : LeadsWithName type) :
    s.known hidden (inside cloudabi (denote type)) = s.known [] (denote type) := by
  induction type with
  | user name =>
      obtain ⟨text, hmangle, htext⟩ := htype
      have houter := hground.user name rfl
      rw [spelled_of_mangle hmangle] at houter
      simp only [denote, hmangle, inside, Scope.known, Except.toOption, Option.getD_some]
      rw [find_qualified hs, find_identifier htext.2.2, if_neg List.not_mem_nil, Scope.visible,
        houter, Option.or_none]
  | pointer target const ih =>
      obtain ⟨rfl, hleads⟩ := hleads
      simp only [denote, inside, Scope.known, Bool.false_eq_true, if_false]
      rw [ih htype ⟨hground.int, hground.user⟩ hleads]
  | array count element ih =>
      simp only [denote, inside, Scope.known]
      rw [ih htype ⟨hground.int, hground.user⟩ hleads]
  | void => exact hleads.elim
  | int name => exact hleads.elim
  | atomic target ih => exact hleads.elim

theorem usable_printedType_iff (hs : Equipped s) (hidden : List Word) {qualified : Bool}
    {type : AbiType} (htype : WellNamed type) (hground : Grounded s type)
    (hleads : qualified = true → LeadsWithName type) :
    s.Usable hidden (printedType qualified type) ↔
      (Shadowed hidden type → qualified = true) ∧ Declared s type ∧ Holdable s.Defines type := by
  cases qualified with
  | false => simp [printedType, (knownAs_denote hs hidden htype hground).usable_iff]
  | true =>
      have husable := (knownAs_denote hs [] htype hground).usable_iff
      have hnot : ¬ Shadowed [] type := by
        rintro ⟨_, _, -, -, hmem⟩
        exact absurd hmem List.not_mem_nil
      rw [Scope.Usable, printedType, if_pos rfl, known_inside hs hidden htype hground (hleads rfl)]
      rw [and_iff_right hnot] at husable
      exact husable.trans (and_iff_right fun _ => rfl).symm

theorem usable_range_iff (hs : Equipped s) (hidden : List Word) {target : AbiType}
    (htarget : WellNamed target) (hground : Grounded s target) (const : Bool) :
    s.Usable hidden (denoteContent (.range target const)) ↔
      ¬ Shadowed hidden target ∧ Declared s target := by
  obtain ⟨k', hk'⟩ := Option.isSome_iff_exists.mp hs.range
  have hrange : [lit "mstd", lit "range"] ∉ s.holders := by
    rw [hs.holders]
    decide +kernel
  rw [← (knownAs_denote hs hidden htarget hground).isSome, Scope.Usable, denoteContent,
    Scope.known, find_elsewhere hs (Or.inr rfl), hk', known_pointer]
  cases s.known hidden (denote target) <;> simp [hrange]

end Types

section Members

variable (sub : Submodule)

mutual

theorem introduced_printedMembers : ∀ (ms : List StructMember) (reservedNames names : List Text),
    introduced (printedMembers sub ms reservedNames names) = declaredNames ms
  | [], _, _ => rfl
  | m :: ms, reservedNames, names => by
      rw [printedMembers, introduced, introduced_printedMembers ms, introduces_printedMember m,
        declaredNames]

theorem introduces_printedMember : ∀ (m : StructMember) (reservedNames names : List Text),
    memberIntroduces (printedMember sub m reservedNames names) = memberNames m
  | .simple _ _, _, _ => rfl
  | .range _ _ _, _, _ => rfl
  | .variant _ xs, _, names => introduced_printedAlternatives xs names

theorem introduced_printedAlternatives : ∀ (xs : List VariantMember) (names : List Text),
    introduced (printedAlternatives sub xs names) = alternativesNames xs
  | [], _ => rfl
  | x :: xs, names => by
      rw [printedAlternatives, introduced_append, introduced_printedAlternatives xs,
        introduced_printedAlternative x, alternativesNames]

theorem introduced_printedAlternative : ∀ (x : VariantMember) (names : List Text),
    introduced (printedAlternative sub x names) = alternativeNames x
  | .mk none ms, names => introduced_printedMembers ms names []
  | .mk (some _) _, _ => rfl

end

/-- What a member needs besides a name that is not hidden. -/
def LeafKnown (s : Scope) (leaf : Leaf) : Prop :=
  Declared s leaf.content.type ∧ ContentHoldable s.Defines leaf.content

variable {s : Scope}

mutual

/-- The members of a struct find their types exactly if those are known and hidden
ones are shielded. -/
theorem membersScoped_printedMembers (hs : Equipped s) : ∀ (ms : List StructMember) {indent : Text}
    {reservedNames names : List Text} (hidden : List Text),
    (∀ line ∈ structMembers sub ms indent reservedNames names, Readable line) →
      (∀ leaf ∈ leaves ms, Grounded s leaf.content.type) →
        (MembersScoped s (printedMembers sub ms reservedNames names) hidden ↔
          Shielded sub ms reservedNames names hidden ∧ ∀ leaf ∈ leaves ms, LeafKnown s leaf)
  | [], _, _, _, _, _, _ => by simp [printedMembers, MembersScoped, Shielded, leaves]
  | m :: ms, _, reservedNames, names, hidden, hlines, hground => by
      rw [structMembers] at hlines
      obtain ⟨hm, hms⟩ := List.forall_mem_append.mp hlines
      obtain ⟨hgroundm, hgroundms⟩ := List.forall_mem_append.mp hground
      rw [printedMembers, MembersScoped, memberScoped_printedMember hs m hidden hm hgroundm,
        introduces_printedMember, membersScoped_printedMembers hs ms _ hms hgroundms, Shielded,
        addName_eq, leaves, List.forall_mem_append]
      tauto

theorem memberScoped_printedMember (hs : Equipped s) : ∀ (m : StructMember) {indent : Text}
    {reservedNames names : List Text} (hidden : List Text),
    (∀ line ∈ structMember sub m indent reservedNames names, Readable line) →
      (∀ leaf ∈ memberLeaves m, Grounded s leaf.content.type) →
        (MemberScoped s (printedMember sub m reservedNames names) hidden ↔
          ShieldedMember sub m reservedNames names hidden ∧
            ∀ leaf ∈ memberLeaves m, LeafKnown s leaf)
  | .simple name type, _, reservedNames, _, hidden, hlines, hground => by
      rw [structMember] at hlines
      obtain ⟨-, htype, -, hleads⟩ := hlines _ List.mem_cons_self
      have husable := usable_printedType_iff hs hidden htype (hground _ List.mem_cons_self) hleads
      have hqualified : sub.typeName type ∈ reservedNames → LeadsWithName type :=
        fun hmem => hleads (decide_eq_true hmem)
      rw [printedMember, MemberScoped, husable, ShieldedMember, memberLeaves,
        List.forall_mem_singleton, decide_eq_true_eq]
      refine and_congr_left fun _ => forall_congr' fun _ => ?_
      exact ⟨fun hmem => ⟨hmem, hqualified hmem⟩, And.left⟩
  | .range name target const, _, _, _, hidden, hlines, hground => by
      rw [structMember] at hlines
      obtain ⟨-, htarget, -⟩ := hlines _ List.mem_cons_self
      rw [printedMember, MemberScoped,
        usable_range_iff hs hidden htarget (hground _ List.mem_cons_self), ShieldedMember,
        memberLeaves, List.forall_mem_singleton]
      exact and_congr_right fun _ => ⟨fun h => ⟨h, trivial⟩, And.left⟩
  | .variant _ xs, indent, _, names, hidden, hlines, hground => by
      rw [structMember] at hlines
      have hxs : ∀ line ∈ structAlternatives sub xs indent names, Readable line := by
        intro line hline
        exact hlines line (by simp [hline])
      exact membersScoped_printedAlternatives hs xs hidden hxs hground

theorem membersScoped_printedAlternatives (hs : Equipped s) : ∀ (xs : List VariantMember)
    {indent : Text} {names : List Text} (hidden : List Text),
    (∀ line ∈ structAlternatives sub xs indent names, Readable line) →
      (∀ leaf ∈ alternativesLeaves xs, Grounded s leaf.content.type) →
        (MembersScoped s (printedAlternatives sub xs names) hidden ↔
          ShieldedAlternatives sub xs names hidden ∧
            ∀ leaf ∈ alternativesLeaves xs, LeafKnown s leaf)
  | [], _, _, _, _, _ => by
      simp [printedAlternatives, MembersScoped, ShieldedAlternatives, alternativesLeaves]
  | x :: xs, _, names, hidden, hlines, hground => by
      rw [structAlternatives] at hlines
      obtain ⟨hx, hxs⟩ := List.forall_mem_append.mp hlines
      obtain ⟨hgroundx, hgroundxs⟩ := List.forall_mem_append.mp hground
      rw [printedAlternatives, membersScoped_append,
        membersScoped_printedAlternative hs x hidden hx hgroundx, introduced_printedAlternative,
        membersScoped_printedAlternatives hs xs _ hxs hgroundxs, ShieldedAlternatives,
        alternativesLeaves, List.forall_mem_append]
      tauto

theorem membersScoped_printedAlternative (hs : Equipped s) : ∀ (x : VariantMember)
    {indent : Text} {names : List Text} (hidden : List Text),
    (∀ line ∈ structAlternative sub x indent names, Readable line) →
      (∀ leaf ∈ alternativeLeaves x, Grounded s leaf.content.type) →
        (MembersScoped s (printedAlternative sub x names) hidden ↔
          ShieldedAlternative sub x names hidden ∧
            ∀ leaf ∈ alternativeLeaves x, LeafKnown s leaf)
  | .mk none ms, _, names, hidden, hlines, hground => by
      have hgroundms := List.forall_mem_map.mp hground
      rw [structAlternative] at hlines
      rw [printedAlternative, membersScoped_printedMembers hs ms hidden hlines hgroundms,
        ShieldedAlternative, alternativeLeaves, List.forall_mem_map]
      rfl
  | .mk (some name) ms, indent, names, hidden, hlines, hground => by
      have hgroundms := List.forall_mem_map.mp hground
      rw [structAlternative] at hlines
      have hms : ∀ line ∈ structMembers sub ms (indent ++ lit "    ") names [], Readable line := by
        intro line hline
        exact hlines line (by simp [hline])
      rw [printedAlternative, MembersScoped, MemberScoped,
        membersScoped_printedMembers hs ms hidden hms hgroundms, ShieldedAlternative,
        alternativeLeaves, List.forall_mem_map, MembersScoped, and_true]
      rfl

end

mutual

theorem path_mem_printedMembers : ∀ (ms : List StructMember) (reservedNames names : List Text),
    ∀ leaf ∈ leaves ms, leaf.path ∈ paths s (printedMembers sub ms reservedNames names)
  | [], _, _, _, hleaf => absurd hleaf List.not_mem_nil
  | m :: ms, reservedNames, names, leaf, hleaf => by
      rw [printedMembers, paths]
      rcases List.mem_append.mp hleaf with hfirst | hrest
      · exact List.mem_append_left _ (path_mem_printedMember m _ _ leaf hfirst)
      · exact List.mem_append_right _ (path_mem_printedMembers ms _ _ leaf hrest)

theorem path_mem_printedMember : ∀ (m : StructMember) (reservedNames names : List Text),
    ∀ leaf ∈ memberLeaves m, leaf.path ∈ memberPaths s (printedMember sub m reservedNames names)
  | .simple name type, _, _, leaf, hleaf => by
      obtain rfl := List.mem_singleton.mp hleaf
      exact List.mem_cons_self
  | .range name target const, _, _, leaf, hleaf => by
      obtain rfl := List.mem_singleton.mp hleaf
      exact List.mem_cons_self
  | .variant _ xs, _, names, leaf, hleaf => path_mem_printedAlternatives xs names leaf hleaf

theorem path_mem_printedAlternatives : ∀ (xs : List VariantMember) (names : List Text),
    ∀ leaf ∈ alternativesLeaves xs, leaf.path ∈ paths s (printedAlternatives sub xs names)
  | [], _, _, hleaf => absurd hleaf List.not_mem_nil
  | x :: xs, names, leaf, hleaf => by
      rw [printedAlternatives, paths_append]
      rcases List.mem_append.mp hleaf with hfirst | hrest
      · exact List.mem_append_left _ (path_mem_printedAlternative x names leaf hfirst)
      · exact List.mem_append_right _ (path_mem_printedAlternatives xs names leaf hrest)

theorem path_mem_printedAlternative : ∀ (x : VariantMember) (names : List Text),
    ∀ leaf ∈ alternativeLeaves x, leaf.path ∈ paths s (printedAlternative sub x names)
  | .mk none ms, names, leaf, hleaf => by
      obtain ⟨inner, hinner, rfl⟩ := List.mem_map.mp hleaf
      exact path_mem_printedMembers ms names [] inner hinner
  | .mk (some name) ms, names, leaf, hleaf => by
      obtain ⟨inner, hinner, rfl⟩ := List.mem_map.mp hleaf
      have hpath := path_mem_printedMembers ms names [] inner hinner
      rw [printedAlternative, paths, paths, List.append_nil]
      exact List.mem_cons_of_mem _ (List.mem_map.mpr ⟨inner.path, hpath, rfl⟩)

end

end Members

section Headers

variable {cnaming : CNaming} {s : Scope}

theorem wellScoped_operatorItems {name cname : Word} (hname : isIdentifier name = true)
    (hcname : isIdentifier cname = true) (hoperands : name ∉ operandNames)
    (hcoperands : cname ∉ operandNames) (hdefined : s.Defines name) (hcdefined : s.Defines cname) :
    WellScoped s (operatorItems name cname) := by
  have husable : ∀ hidden ⊆ operandNames, s.Usable hidden (.named false [name]) :=
    fun hidden hsubset => (usable_identifier_iff hname hidden).mpr
      ⟨fun hmem => hoperands (hsubset hmem), hdefined⟩
  have hcusable : ∀ hidden ⊆ operandNames, s.Usable hidden (.named false [cname]) :=
    fun hidden hsubset => (usable_identifier_iff hcname hidden).mpr
      ⟨fun hmem => hcoperands (hsubset hmem), hcdefined⟩
  have hnone := husable [] (List.nil_subset _)
  have hfirst : [['a']] ⊆ operandNames := by decide
  have hboth : [['a'], ['b']] ⊆ operandNames := by decide
  have hvalue : [['v']] ⊆ operandNames := by decide
  have hbinary : ∀ op, ItemScoped s (.operator ⟨name, op, [(name, ['a']), (name, ['b'])],
      ReadsItem.binaryBody name cname op ['a'] ['b']⟩) := by
    intro op
    refine ⟨hnone, ⟨hnone, husable _ hfirst, trivial⟩, husable _ hboth, ?_, ?_⟩
    · exact ⟨hcusable _ hboth, List.mem_cons_self⟩
    · exact ⟨hcusable _ hboth, List.mem_cons_of_mem _ List.mem_cons_self⟩
  have hcomplement : ItemScoped s (.operator ⟨name, '~', [(name, ['v'])],
      ReadsItem.complementBody name cname ['v']⟩) :=
    ⟨hnone, ⟨hnone, trivial⟩, husable _ hvalue, hcusable _ hvalue, List.mem_cons_self⟩
  exact ⟨hbinary '|', hbinary '&', hcomplement, trivial⟩

theorem wellScoped_typeItems {type : NamedType} (htype : TypeReadable cnaming type)
    (hdefined : s.Defines (cnaming.ctypename type.name))
    (hne : cnaming.ctypename type.name ≠ spelled type.name) :
    WellScoped s (typeItems cnaming type) := by
  have husable := (usable_identifier_iff htype.cname.2.2 []).mpr ⟨List.not_mem_nil, hdefined⟩
  cases type with
  | aliasType name => exact ⟨husable, trivial⟩
  | structType type => exact ⟨trivial, trivial⟩
  | intLikeType type =>
      refine ⟨husable, ?_⟩
      split
      · rename_i hisFlags
        obtain ⟨hoperands, hcoperands⟩ := htype.operands type rfl hisFlags
        apply wellScoped_operatorItems htype.spelled.2.2 htype.cname.2.2 hoperands hcoperands
        · exact ⟨_, s.visible_add (spelled type.name) _, rfl⟩
        · obtain ⟨k, hk, hkdefined⟩ := hdefined
          exact ⟨k, (s.visible_add_of_ne hne _).trans hk, hkdefined⟩
      · trivial

theorem exists_declaredType_typeItems (cnaming : CNaming) {type : NamedType} {w : Word} :
    (∃ i ∈ typeItems cnaming type, i.declaredType = some w) ↔ spelled type.name = w := by
  rw [← List.mem_filterMap, declaredTypes_typeItems, List.mem_singleton]
  exact eq_comm

theorem exists_definedType_typeItems (cnaming : CNaming) {type : NamedType} {w : Word} :
    (∃ i ∈ typeItems cnaming type, definedType i = some w) ↔
      ¬ IsStruct type ∧ spelled type.name = w := by
  cases type with
  | aliasType name => simp [typeItems, definedType, NamedType.name, IsStruct]
  | structType type => simp [typeItems, definedType, IsStruct]
  | intLikeType type =>
      rw [typeItems]
      split <;> simp [operatorItems, definedType, NamedType.name, IsStruct]

theorem exists_declaredType_printedItems (sub : Submodule) {type : NamedType} {w : Word} :
    (∃ i ∈ printedItems sub type, i.declaredType = some w) ↔
      IsStruct type ∧ spelled type.name = w := by
  cases type with
  | aliasType name => simp [printedItems, IsStruct]
  | intLikeType type => simp [printedItems, IsStruct]
  | structType type =>
      simp [printedItems, printedStruct, structAssertions, StructsHeader.assertion,
        Item.declaredType, IsStruct, NamedType.name]

theorem exists_definedType_printedItems (sub : Submodule) {type : NamedType} {w : Word} :
    (∃ i ∈ printedItems sub type, definedType i = some w) ↔
      IsStruct type ∧ spelled type.name = w := by
  cases type with
  | aliasType name => simp [printedItems, IsStruct]
  | intLikeType type => simp [printedItems, IsStruct]
  | structType type =>
      simp [printedItems, printedStruct, structAssertions, StructsHeader.assertion,
        definedType, IsStruct, NamedType.name]

/-- Behind the declarations all types are declared, and those that are no structs defined. -/
theorem grows_typeItems {types : List NamedType}
    (htypes : WellScoped s (types.flatMap (typeItems cnaming))) :
    Grows s (s.extend (types.flatMap (typeItems cnaming)))
      (fun w => ∃ type ∈ types, spelled type.name = w)
      (fun w => ∃ type ∈ types, ¬ IsStruct type ∧ spelled type.name = w) := by
  refine (Grows.of_wellScoped htypes).congr (fun w => ?_) (fun w => ?_)
  · simp only [List.mem_flatMap, ← exists_declaredType_typeItems cnaming]
    tauto
  · simp only [List.mem_flatMap, ← exists_definedType_typeItems cnaming]
    tauto

/-- The structs define themselves. -/
theorem grows_printedItems (s : Scope) (sub : Submodule) (types : List NamedType) :
    Grows s (s.extend (types.flatMap (printedItems sub)))
      (fun w => ∃ type ∈ types, IsStruct type ∧ spelled type.name = w)
      (fun w => ∃ type ∈ types, IsStruct type ∧ spelled type.name = w) := by
  have hnone : ∀ i ∈ types.flatMap (printedItems sub), ∀ name type, i ≠ .typeAlias name type := by
    intro i hi name target
    obtain ⟨type, -, hi⟩ := List.mem_flatMap.mp hi
    cases type with
    | aliasType name => cases hi
    | intLikeType type => cases hi
    | structType type =>
        rintro rfl
        simp [printedItems, printedStruct, structAssertions, StructsHeader.assertion] at hi
  have hgrows : Grows s (s.extend (types.flatMap (printedItems sub)))
      (fun w => ∃ i ∈ types.flatMap (printedItems sub), i.declaredType = some w)
      (fun w => ∃ i ∈ types.flatMap (printedItems sub), definedType i = some w) := by
    apply Grows.extend
    intro pre name type post heq
    exact absurd rfl (hnone _ (by rw [heq]; simp) name type)
  refine hgrows.congr (fun w => ?_) (fun w => ?_)
  · simp only [List.mem_flatMap, ← exists_declaredType_printedItems sub]
    tauto
  · simp only [List.mem_flatMap, ← exists_definedType_printedItems sub]
    tauto

/-- A C type is not called as a type that the headers declare, which is not there yet. -/
theorem Surroundings.ctypename_ne {types : List NamedType} (hs : Surroundings cnaming types s)
    {type other : NamedType} (htype : type ∈ types) (hother : other ∈ types) :
    cnaming.ctypename type.name ≠ spelled other.name := by
  intro heq
  obtain ⟨k, hk, -⟩ := hs.ctypes type htype
  rw [heq, hs.fresh other hother] at hk
  cases hk

theorem wellScoped_types {types : List NamedType}
    (htypes : ∀ type ∈ types, TypeReadable cnaming type)
    (hdefined : ∀ type ∈ types, s.Defines (cnaming.ctypename type.name))
    (hne : ∀ type ∈ types, ∀ other ∈ types, cnaming.ctypename type.name ≠ spelled other.name) :
    WellScoped s (types.flatMap (typeItems cnaming)) := by
  induction types generalizing s with
  | nil => trivial
  | cons type types ih =>
      obtain ⟨hreadable, hrest⟩ := List.forall_mem_cons.mp htypes
      have hmem := List.mem_cons_self (a := type) (l := types)
      have hfirst := wellScoped_typeItems hreadable (hdefined type hmem) (hne type hmem type hmem)
      rw [List.flatMap_cons, wellScoped_append]
      refine ⟨hfirst, ih hrest (fun other hother => ?_) fun other hother third hthird =>
        hne other (List.mem_cons_of_mem _ hother) third (List.mem_cons_of_mem _ hthird)⟩
      have hnot : ¬ ∃ i ∈ typeItems cnaming type,
          i.declaredType = some (cnaming.ctypename other.name) := by
        rw [exists_declaredType_typeItems]
        exact (hne other (List.mem_cons_of_mem _ hother) type hmem).symm
      rw [Scope.Defines, (Grows.of_wellScoped hfirst).visible_of_not hnot]
      exact hdefined other (List.mem_cons_of_mem _ hother)

/-- Where a struct is printed: behind `types.hpp` and the structs before. -/
def scopeBefore (cnaming : CNaming) (s : Scope) (types pre : List NamedType) : Scope :=
  (s.extend (types.flatMap (typeItems cnaming))).extend
    (pre.flatMap (printedItems cnaming.toSubmodule))

theorem grows_scopeBefore {types pre : List NamedType} (hpre : pre ⊆ types)
    (htypes : WellScoped s (types.flatMap (typeItems cnaming))) :
    Grows s (scopeBefore cnaming s types pre)
      (fun w => ∃ type ∈ types, spelled type.name = w)
      (fun w => (∃ type ∈ types, ¬ IsStruct type ∧ spelled type.name = w) ∨
        ∃ type ∈ pre, IsStruct type ∧ spelled type.name = w) := by
  have hgrows := (grows_typeItems htypes).trans
    (grows_printedItems (s.extend (types.flatMap (typeItems cnaming))) cnaming.toSubmodule pre)
  refine hgrows.congr (fun w => or_iff_left_of_imp ?_) fun w => Iff.rfl
  rintro ⟨type, htype, -, hname⟩
  exact ⟨type, hpre htype, hname⟩

theorem Equipped.grow {s' : Scope} {declared defined : Word → Prop} (h : Equipped s)
    (hgrows : Grows s s' declared defined)
    (hnamespaces : ∀ w ∈ [lit "std", lit "mstd", cloudabi], ¬ declared w) : Equipped s' where
  name := hgrows.name.trans h.name
  namespaces := fun w hw => (hgrows.visible_of_not (hnamespaces w hw)).trans (h.namespaces w hw)
  atomic := hgrows.elsewhere ▸ h.atomic
  range := hgrows.elsewhere ▸ h.range
  holders := hgrows.holders.trans h.holders

theorem Grounded.grow {s' : Scope} {declared defined : Word → Prop} {type : AbiType}
    (h : Grounded s type) (hgrows : Grows s s' declared defined) : Grounded s' type where
  int := hgrows.elsewhere ▸ h.int
  user := hgrows.outer ▸ h.user

theorem measureScoped_of_find {m : Measure} {k : Known} (hstruct : isIdentifier m.struct = true)
    (hfind : s.visible m.struct = some k) (hdefined : k.defined = true)
    (hpath : m.path = [] ∨ m.path ∈ k.paths) : MeasureScoped s m := by
  refine ⟨k, ?_, hdefined, hpath⟩
  rw [find_identifier hstruct, if_neg List.not_mem_nil, hfind]

theorem assertedWords_of_named {leaf : Leaf} (hnamed : leaf.NamedOnlyInnermost) :
    assertedWords leaf = leaf.path := by
  rw [assertedWords, Leaf.path]
  congr 1
  rw [Leaf.NamedOnlyInnermost] at hnamed
  rcases List.eq_nil_or_concat leaf.alternatives with hnil | ⟨outer, innermost, heq⟩
  · rw [hnil]
    rfl
  · rw [heq, List.concat_eq_append] at hnamed ⊢
    rw [List.dropLast_concat] at hnamed
    have houter : outer.filterMap id = [] := List.filterMap_eq_nil_iff.mpr hnamed
    rw [List.getLast?_concat, List.filterMap_append, houter, List.nil_append]
    cases innermost <;> rfl

/-- The struct and its C counterpart are both there, with the members that are asserted. -/
theorem wellScoped_structAssertions {sub : Submodule} {t : StructType} {k ck : Known}
    (ht : StructReadable sub t) (hk : s.visible (spelled t.name) = some k)
    (hck : s.visible (sub.ctypename t.name) = some ck) (hdefined : k.defined = true)
    (hcdefined : ck.defined = true)
    (hpaths : ∀ leaf ∈ leaves t.members, leaf.path ∈ k.paths ∧ leaf.path ∈ ck.paths)
    (hnamed : ∀ leaf ∈ leaves t.members, leaf.NamedOnlyInnermost) :
    WellScoped s (structAssertions sub t) := by
  have hassertion : ∀ kind path, (path = [] ∨ path ∈ k.paths) → (path = [] ∨ path ∈ ck.paths) →
      ItemScoped s (StructsHeader.assertion kind (spelled t.name) (sub.ctypename t.name) path) :=
    fun kind path hpath hcpath =>
      ⟨measureScoped_of_find ht.spelled.2.2 hk hdefined hpath,
        measureScoped_of_find ht.cname.2.2 hck hcdefined hcpath⟩
  apply wellScoped_of_unchanged
  intro i hi
  rcases List.mem_cons.mp hi with rfl | hi
  · exact ⟨rfl, hassertion _ [] (Or.inl rfl) (Or.inl rfl)⟩
  · rcases List.mem_cons.mp hi with rfl | hi
    · exact ⟨rfl, hassertion _ [] (Or.inl rfl) (Or.inl rfl)⟩
    · obtain ⟨leaf, hleaf, rfl⟩ := List.mem_map.mp hi
      obtain ⟨hpath, hcpath⟩ := hpaths leaf hleaf
      rw [assertedWords_of_named (hnamed leaf hleaf)]
      exact ⟨rfl, hassertion _ leaf.path (Or.inr hpath) (Or.inr hcpath)⟩

theorem wellScoped_printedStruct_iff {sub : Submodule} {t : StructType} {ck : Known}
    (hs : Equipped s) (ht : StructReadable sub t)
    (hdeclared : (s.own (spelled t.name)).isSome) (hne : sub.ctypename t.name ≠ spelled t.name)
    (hck : s.visible (sub.ctypename t.name) = some ck) (hcdefined : ck.defined = true)
    (hcpaths : ∀ leaf ∈ leaves t.members, leaf.path ∈ ck.paths)
    (hnamed : ∀ leaf ∈ leaves t.members, leaf.NamedOnlyInnermost)
    (hground : ∀ leaf ∈ leaves t.members, Grounded s leaf.content.type) :
    WellScoped s (printedStruct sub t) ↔
      Shielded sub t.members [] [] [] ∧ ∀ leaf ∈ leaves t.members, LeafKnown s leaf := by
  let k : Known := ⟨true, paths s (printedMembers sub t.members [] [])⟩
  have hafter : s.after (.struct (spelled t.name) (printedMembers sub t.members [] [])) =
      s.add (spelled t.name) (some k) := by
    rw [Scope.after, Scope.declare_eq hdeclared]
  have hassertions : WellScoped (s.after (.struct (spelled t.name)
      (printedMembers sub t.members [] []))) (structAssertions sub t) := by
    rw [hafter]
    have hk := s.visible_add (spelled t.name) k
    have hck' := (s.visible_add_of_ne hne (some k)).trans hck
    refine wellScoped_structAssertions ht hk hck' rfl hcdefined (fun leaf hleaf => ?_) hnamed
    exact ⟨path_mem_printedMembers sub t.members [] [] leaf hleaf, hcpaths leaf hleaf⟩
  rw [printedStruct, WellScoped, and_iff_left hassertions, ItemScoped, Scope.declare_eq hdeclared,
    membersScoped_printedMembers sub hs t.members [] ht.members hground]

theorem contentHoldable_congr {p q : Word → Prop} (h : ∀ w, p w ↔ q w) (content : Content) :
    ContentHoldable p content ↔ ContentHoldable q content := by
  obtain rfl : p = q := funext fun w => propext (h w)
  rfl

theorem leafKnown_scopeBefore_iff {types pre : List NamedType} (hpre : pre ⊆ types)
    (hs : Surroundings cnaming types s)
    (hdeclarations : WellScoped s (types.flatMap (typeItems cnaming))) (leaf : Leaf) :
    LeafKnown (scopeBefore cnaming s types pre) leaf ↔ Available s types pre leaf := by
  have hgrows := grows_scopeBefore hpre hdeclarations
  refine and_congr (forall₂_congr fun name _ => hgrows.visible_isSome _)
    (contentHoldable_congr (hgrows.defines_iff ?_ ?_) leaf.content)
  · rintro w ⟨type, htype, rfl⟩
    exact hs.fresh type htype
  · rintro w (⟨type, htype, -, hname⟩ | ⟨type, htype, -, hname⟩)
    · exact ⟨type, htype, hname⟩
    · exact ⟨type, hpre htype, hname⟩

theorem wellScoped_scopeBefore_iff {types pre : List NamedType} (hpre : pre ⊆ types)
    (hs : Surroundings cnaming types s)
    (hdeclarations : WellScoped s (types.flatMap (typeItems cnaming))) {t : StructType}
    (hmem : .structType t ∈ types) (ht : StructReadable cnaming.toSubmodule t)
    (hnamed : ∀ leaf ∈ leaves t.members, leaf.NamedOnlyInnermost) :
    WellScoped (scopeBefore cnaming s types pre) (printedStruct cnaming.toSubmodule t) ↔
      Shielded cnaming.toSubmodule t.members [] [] [] ∧
        ∀ leaf ∈ leaves t.members, Available s types pre leaf := by
  have hgrows := grows_scopeBefore hpre hdeclarations
  have hequipped := hs.equipped.grow hgrows fun w hw ⟨type, htype, hname⟩ =>
    hs.namespaces type htype (hname ▸ hw)
  obtain ⟨ck, hck, hcdefined⟩ := hs.ctypes _ hmem
  have hnot : ¬ ∃ type ∈ types, spelled type.name = cnaming.ctypename t.name := by
    rintro ⟨type, htype, heq⟩
    exact hs.ctypename_ne hmem htype heq.symm
  have hdeclared : ((scopeBefore cnaming s types pre).own (spelled t.name)).isSome :=
    (hgrows.isSome _).mpr (Or.inr ⟨_, hmem, rfl⟩)
  rw [wellScoped_printedStruct_iff hequipped ht hdeclared (hs.ctypename_ne hmem hmem)
    ((hgrows.visible_of_not hnot).trans hck) hcdefined (hs.cpaths t hmem ck hck) hnamed
    fun leaf hleaf => (hs.grounded t hmem leaf hleaf).grow hgrows]
  exact and_congr_right fun _ =>
    forall₂_congr fun leaf _ => leafKnown_scopeBefore_iff hpre hs hdeclarations leaf

theorem wellScoped_headers_iff {types : List NamedType} (hs : Surroundings cnaming types s)
    (htypes : ∀ type ∈ types, TypeReadable cnaming type)
    (hstructs : ∀ t, .structType t ∈ types → StructReadable cnaming.toSubmodule t)
    (hnamed : ∀ t, .structType t ∈ types → ∀ leaf ∈ leaves t.members, leaf.NamedOnlyInnermost) :
    WellScoped s (types.flatMap (typeItems cnaming) ++
        types.flatMap (printedItems cnaming.toSubmodule)) ↔
      InOrder s types ∧
        ∀ t, .structType t ∈ types → Shielded cnaming.toSubmodule t.members [] [] [] := by
  have hdeclarations := wellScoped_types htypes hs.ctypes fun _ htype _ hother =>
    hs.ctypename_ne htype hother
  have hstruct : ∀ pre t post, types = pre ++ .structType t :: post →
      (WellScoped (scopeBefore cnaming s types pre) (printedStruct cnaming.toSubmodule t) ↔
        Shielded cnaming.toSubmodule t.members [] [] [] ∧
          ∀ leaf ∈ leaves t.members, Available s types pre leaf) := by
    intro pre t post heq
    have hmem : .structType t ∈ types := heq ▸ List.mem_append_right pre List.mem_cons_self
    exact wellScoped_scopeBefore_iff (heq ▸ List.subset_append_left pre _) hs hdeclarations hmem
      (hstructs t hmem) (hnamed t hmem)
  rw [wellScoped_append, and_iff_right hdeclarations, wellScoped_flatMap]
  constructor
  · intro hscoped
    refine ⟨fun pre t post heq => ?_, fun t hmem => ?_⟩
    · exact ((hstruct pre t post heq).mp (hscoped pre _ post heq)).2
    · obtain ⟨pre, post, heq⟩ := List.append_of_mem hmem
      exact ((hstruct pre t post heq).mp (hscoped pre _ post heq)).1
  · rintro ⟨horder, hshielded⟩ pre type post heq
    cases type with
    | aliasType name => trivial
    | intLikeType type => trivial
    | structType t =>
        have hmem : .structType t ∈ types := heq ▸ List.mem_append_right pre List.mem_cons_self
        exact (hstruct pre t post heq).mpr ⟨hshielded t hmem, horder pre t post heq⟩

/-- The two headers as they are read from their texts. -/
theorem headers_fit_iff (skip : List Text) {types : List NamedType}
    (hnames : ∀ type ∈ types, type.name ≠ [])
    (htypes : ∀ type ∈ types, type.name ∉ skip → TypeReadable cnaming type)
    (hstructs : ∀ t, .structType t ∈ types → t.name ∉ skip → StructReadable cnaming.toSubmodule t)
    (hnamed : ∀ t, .structType t ∈ types → t.name ∉ skip →
      ∀ leaf ∈ leaves t.members, leaf.NamedOnlyInnermost)
    (hs : Surroundings cnaming (types.filter (·.name ∉ skip)) s) :
    ∃ declarations text structs,
      readHeader ((types.forM (TypeDefs.generateType cnaming skip)).output.flatMap TypeLine.text) =
          some declarations ∧
        linesText cnaming.toSubmodule
          (types.forM (StructDefs.generateType cnaming.toSubmodule skip)).output = .ok text ∧
        readHeader text = some structs ∧
          (WellScoped s (declarations ++ structs) ↔
            InOrder s (types.filter (·.name ∉ skip)) ∧ ∀ t, .structType t ∈ types → t.name ∉ skip →
              Shielded cnaming.toSubmodule t.members [] [] []) := by
  obtain ⟨-, hheads⟩ := heads_output cnaming skip hnames htypes
  obtain ⟨-, hreads⟩ := readsAsItems_output cnaming.toSubmodule skip hstructs
  obtain ⟨text, htext, hread⟩ := hreads.readHeader
  have hkept : ∀ {type}, type ∈ types.filter (·.name ∉ skip) ↔ type ∈ types ∧ type.name ∉ skip :=
    List.mem_filter.trans (and_congr_right fun _ => decide_eq_true_iff)
  have hfit := wellScoped_headers_iff hs
    (fun type htype => htypes type (hkept.mp htype).1 (hkept.mp htype).2)
    (fun t ht => hstructs t (hkept.mp ht).1 (hkept.mp ht).2)
    (fun t ht => hnamed t (hkept.mp ht).1 (hkept.mp ht).2)
  refine ⟨_, text, _, hheads.readHeader, htext, hread, hfit.trans (and_congr_right fun _ => ?_)⟩
  exact forall_congr' fun t => by rw [hkept, and_imp, NamedType.name]

/-- The types of the members of `event`, in an order in which they can be defined. -/
def eventTypes : List NamedType :=
  ["userdata", "errno", "eventtype", "condvar", "filesize", "eventrwflags", "lock", "signal",
    "exitcode"].map (fun name => NamedType.aliasType (lit name)) ++ [.structType event]

/-- What `types.hpp` and `structs.hpp` include: the C types, and `fd.hpp`. -/
def includedHeaders : Scope where
  name := cloudabi
  own w := [(lit "fd", ⟨true, []⟩)].lookup w
  outer w :=
    ((mflagsNaming.ctypename event.name, ⟨true, (leaves event.members).map Leaf.path⟩) ::
      eventTypes.map fun type => (mflagsNaming.ctypename type.name, ⟨true, []⟩)).lookup w
  elsewhere path :=
    [([lit "std", lit "atomic"], ⟨true, []⟩), ([lit "mstd", lit "range"], ⟨true, []⟩)].lookup path
  holders := [[lit "std", lit "atomic"]]

theorem readable_eventTypes : (∀ type ∈ eventTypes, TypeReadable mflagsNaming type) ∧
    StructReadable cloudabiSubmodule event := by
  constructor
  · intro type htype
    rcases List.mem_append.mp htype with halias | hevent
    · obtain ⟨name, hname, rfl⟩ := List.mem_map.mp halias
      have hnames : ∀ name ∈ ["userdata", "errno", "eventtype", "condvar", "filesize",
          "eventrwflags", "lock", "signal", "exitcode"],
          lit name ≠ [] ∧ IsName (spelled (lit name)) ∧
            IsName (mflagsNaming.ctypename (lit name)) := by decide +kernel
      obtain ⟨hne, hspelled, hcname⟩ := hnames name hname
      exact ⟨hne, trivial, hspelled, hcname, fun _ => nofun, fun _ => nofun⟩
    · obtain rfl := List.mem_singleton.mp hevent
      exact ⟨by decide +kernel, trivial, by decide +kernel, by decide +kernel, fun _ => nofun,
        fun _ => nofun⟩
  · exact ⟨by decide +kernel, by decide +kernel, by decide +kernel, by decide +kernel⟩

theorem eq_event_of_mem {t : StructType} (ht : .structType t ∈ eventTypes) : t = event := by
  simpa [eventTypes] using ht

theorem surroundings_eventTypes : Surroundings mflagsNaming eventTypes includedHeaders := by
  have hnames : ∀ type ∈ eventTypes, (includedHeaders.visible (spelled type.name)).isNone ∧
      spelled type.name ∉ [lit "std", lit "mstd", cloudabi] ∧
        (includedHeaders.visible (mflagsNaming.ctypename type.name)).any Known.defined := by
    decide +kernel
  have hleaves : ∀ leaf ∈ leaves event.members, intName leaf.content.type = none ∧
      (userName leaf.content.type).all fun name =>
        (includedHeaders.outer (spelled name)).isNone := by
    decide +kernel
  have hpaths : (includedHeaders.visible (mflagsNaming.ctypename event.name)).map Known.paths =
      some ((leaves event.members).map Leaf.path) := by
    decide +kernel
  refine ⟨⟨rfl, ?_, ?_, ?_, rfl⟩, ?_, ?_, ?_, ?_, ?_⟩
  · decide +kernel
  · decide +kernel
  · decide +kernel
  · exact fun type htype => Option.isNone_iff_eq_none.mp (hnames type htype).1
  · exact fun type htype => (hnames type htype).2.1
  · exact fun type htype => (Option.any_eq_true _ _).mp (hnames type htype).2.2
  · intro t ht k hk leaf hleaf
    obtain rfl := eq_event_of_mem ht
    rw [hk] at hpaths
    rw [Option.some.inj hpaths]
    exact List.mem_map_of_mem hleaf
  · intro t ht leaf hleaf
    obtain rfl := eq_event_of_mem ht
    obtain ⟨hint, huser⟩ := hleaves leaf hleaf
    refine ⟨fun name hname => ?_, fun name hname => ?_⟩
    · rw [hint] at hname
      cases hname
    · rw [hname] at huser
      exact Option.isNone_iff_eq_none.mp huser

theorem headers_fit_iff_eventTypes :
    ∃ declarations text structs,
      readHeader ((eventTypes.forM (TypeDefs.generateType mflagsNaming [lit "fd"])).output.flatMap
          TypeLine.text) = some declarations ∧
        linesText mflagsNaming.toSubmodule
          (eventTypes.forM (StructDefs.generateType mflagsNaming.toSubmodule [lit "fd"])).output =
            .ok text ∧
        readHeader text = some structs ∧
          (WellScoped includedHeaders (declarations ++ structs) ↔
            InOrder includedHeaders (eventTypes.filter (·.name ∉ [lit "fd"])) ∧
              ∀ t, .structType t ∈ eventTypes → t.name ∉ [lit "fd"] →
                Shielded mflagsNaming.toSubmodule t.members [] [] []) := by
  obtain ⟨htypes, hevent⟩ := readable_eventTypes
  have hkept : eventTypes.filter (·.name ∉ [lit "fd"]) = eventTypes := by
    rw [List.filter_eq_self]
    decide +kernel
  have hnamed : ∀ leaf ∈ leaves event.members, leaf.alternatives.dropLast = [] := by
    decide +kernel
  apply headers_fit_iff [lit "fd"]
  · exact fun type htype => (htypes type htype).spellable.name
  · exact fun type htype _ => htypes type htype
  · intro t ht _
    obtain rfl := eq_event_of_mem ht
    exact hevent
  · intro t ht _ leaf hleaf alternative halternative
    obtain rfl := eq_event_of_mem ht
    rw [hnamed leaf hleaf] at halternative
    cases halternative
  · rw [hkept]
    exact surroundings_eventTypes

end Headers

end CloudabiCpp.Generator.HeaderScoping
