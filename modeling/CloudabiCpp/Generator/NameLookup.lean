import CloudabiCpp.Generator.StructDefs
import CloudabiCpp.Lib.Runs

/-!
Unqualified lookup of the type names in a printed struct. A scope of the reader
is a struct whose brace is open; an anonymous union opens none.
-/

namespace CloudabiCpp.Generator.NameLookup

open CloudabiCpp.Lib.Runs
open CloudabiCpp.Generator.Abi
open CloudabiCpp.Generator.CppNaming
open CloudabiCpp.Generator.StructDefs

def userName : AbiType → Option Text
  | .void | .int _ => none
  | .user name => some name
  | .atomic target => userName target
  | .pointer target _ => userName target
  | .array _ element => userName element

/-- What is printed before its name. -/
def beforeName : AbiType → Text
  | .void | .int _ | .user _ => []
  | .atomic target => lit "std::atomic<" ++ beforeName target
  | .pointer target const => qualify const (beforeName target)
  | .array _ element => beforeName element

/-- The printed type begins with the name of a user-defined type. -/
def LeadsWithName : AbiType → Prop
  | .user _ => True
  | .pointer target const => const = false ∧ LeadsWithName target
  | .array _ element => LeadsWithName element
  | _ => False

instance decidableLeadsWithName : ∀ type, Decidable (LeadsWithName type)
  | .user _ => isTrue trivial
  | .pointer target const =>
      have := decidableLeadsWithName target
      inferInstanceAs (Decidable (const = false ∧ LeadsWithName target))
  | .array _ element => decidableLeadsWithName element
  | .void | .int _ | .atomic _ => isFalse id

theorem qualify_append (const : Bool) (before after : Text) :
    qualify const (before ++ after) = qualify const before ++ after := by
  cases const <;> simp [qualify]

theorem spelled_at {type : AbiType} {name spelled : Text} (huser : userName type = some name)
    (hspelled : mangle name = .ok spelled) :
    (∃ after, typename type = .ok (beforeName type ++ spelled ++ after)) ∧
      ∀ decl parens, ∃ after,
        vardecl type decl parens = .ok (beforeName type ++ spelled ++ after) := by
  induction type with
  | void => cases huser
  | int base => cases huser
  | user base =>
      obtain rfl := Option.some.inj huser
      refine ⟨⟨[], by simp [typename, beforeName, hspelled]⟩, fun decl parens => ?_⟩
      exact ⟨[' '] ++ decl, by simp [vardecl, beforeName, hspelled, declare, Except.map]⟩
  | atomic target ih =>
      obtain ⟨after, hafter⟩ := (ih huser).1
      refine ⟨⟨after ++ ['>'], ?_⟩, fun decl parens => ⟨after ++ ['>'] ++
        [' '] ++ decl, ?_⟩⟩
      · simp only [typename, hafter, Except.map, beforeName, atomicTypename, List.append_assoc]
      · simp only [vardecl, hafter, Except.map, beforeName, atomicTypename, declare,
          List.append_assoc]
  | pointer target const ih =>
      have hvardecl : ∀ decl parens, ∃ after, vardecl (.pointer target const) decl parens =
          .ok (beforeName (.pointer target const) ++ spelled ++ after) := by
        intro decl parens
        obtain ⟨after, hafter⟩ := (ih huser).2 ('*' :: decl) true
        refine ⟨after, ?_⟩
        simp only [vardecl, hafter, Except.map, beforeName, qualify_append]
      exact ⟨hvardecl [] false, hvardecl⟩
  | array count element ih =>
      have hvardecl : ∀ decl parens, ∃ after, vardecl (.array count element) decl parens =
          .ok (beforeName (.array count element) ++ spelled ++ after) := by
        intro decl parens
        exact (ih huser).2 (arrayDeclarator decl parens count) false
      exact ⟨hvardecl [] false, hvardecl⟩

theorem beforeName_eq_nil {type : AbiType} {name : Text} (huser : userName type = some name) :
    beforeName type = [] ↔ LeadsWithName type := by
  have hatomic : lit "std::atomic<" ≠ [] := by decide +kernel
  have hconst : lit "const " ≠ [] := by decide +kernel
  induction type with
  | void => cases huser
  | int base => cases huser
  | user base => simp [beforeName, LeadsWithName]
  | atomic target ih => simp [beforeName, LeadsWithName, hatomic]
  | pointer target const ih =>
      cases const
      · simp [beforeName, qualify, LeadsWithName, ih huser]
      · simp [beforeName, qualify, LeadsWithName, hconst]
  | array count element ih => simp [beforeName, LeadsWithName, ih huser]

theorem beforeName_getLast (type : AbiType) : (beforeName type).getLast? ≠ some ':' := by
  have hatomic : (lit "std::atomic<").getLast? = some '<' := by decide +kernel
  have hconst : (lit "const ").getLast? = some ' ' := by decide +kernel
  induction type with
  | void => simp [beforeName]
  | int base => simp [beforeName]
  | user base => simp [beforeName]
  | atomic target ih =>
      rw [beforeName, List.getLast?_append, hatomic]
      cases hlast : (beforeName target).getLast? with
      | none => simp
      | some c => simpa [hlast] using ih
  | pointer target const ih =>
      cases const with
      | false => exact ih
      | true =>
          rw [beforeName, qualify, if_pos rfl, List.getLast?_append, hconst]
          cases hlast : (beforeName target).getLast? with
          | none => simp
          | some c => simpa [hlast] using ih
  | array count element ih => exact ih

theorem not_qualified {text : Text} (hlast : text.getLast? ≠ some ':') :
    ¬ lit "cloudabi::" <:+ text := by
  rintro ⟨before, rfl⟩
  have hcolon : (lit "cloudabi::").getLast? = some ':' := by decide +kernel
  rw [List.getLast?_append, hcolon] at hlast
  exact hlast rfl

theorem getLast_append_ne {text more : Text} (htext : text.getLast? ≠ some ':')
    (hmore : more.getLast? ≠ some ':') : (text ++ more).getLast? ≠ some ':' := by
  rw [List.getLast?_append]
  cases hlast : more.getLast? with
  | none => exact htext
  | some c => simpa [hlast] using hmore

def IsIndent (indent : Text) : Prop := ∀ c ∈ indent, c = ' '

instance (indent : Text) : Decidable (IsIndent indent) :=
  List.decidableBAll (· = ' ') indent

theorem IsIndent.getLast {indent : Text} (hindent : IsIndent indent) :
    indent.getLast? ≠ some ':' := by
  intro hlast
  have hspace := hindent ':' (List.mem_of_getLast? hlast)
  revert hspace
  decide

/-- The qualifier is printed at the start of the declaration, so that it stands
before the name only if the declaration begins with it. -/
theorem qualified_simple_iff {indent : Text} (hindent : IsIndent indent) (qualified : Bool)
    {type : AbiType} {name : Text} (huser : userName type = some name) :
    lit "cloudabi::" <:+
        indent ++ (if qualified then lit "cloudabi::" else []) ++ beforeName type ↔
      qualified = true ∧ LeadsWithName type := by
  rw [← beforeName_eq_nil huser]
  constructor
  · intro hsuffix
    cases qualified with
    | false =>
        refine absurd hsuffix (not_qualified (getLast_append_ne ?_ (beforeName_getLast type)))
        simpa using hindent.getLast
    | true =>
        refine ⟨rfl, ?_⟩
        by_contra hnil
        refine not_qualified ?_ hsuffix
        rw [List.getLast?_append]
        have hsome := List.getLast?_eq_some_getLast hnil
        have hlast := beforeName_getLast type
        rw [hsome] at hlast ⊢
        exact hlast
  · rintro ⟨rfl, hnil⟩
    rw [hnil, List.append_nil]
    exact List.suffix_append indent _

theorem not_qualified_range (indent : Text) (target : AbiType) :
    ¬ lit "cloudabi::" <:+ indent ++ lit "mstd::range<" ++ beforeName target := by
  have hrange : (lit "mstd::range<").getLast? = some '<' := by decide +kernel
  refine not_qualified (getLast_append_ne ?_ (beforeName_getLast target))
  rw [List.getLast?_append, hrange]
  simp

/-- The user-defined type name that a line prints, if any, after the text that
stands before it. -/
def printedName : Line → Option (Text × Text)
  | .simple indent qualified type _ =>
      (userName type).map fun name =>
        (indent ++ (if qualified then lit "cloudabi::" else []) ++ beforeName type, name)
  | .range indent target _ _ =>
      (userName target).map fun name =>
        (indent ++ lit "mstd::range<" ++ beforeName target, name)
  | _ => none

theorem printedName_text (sub : Submodule) {line : Line} {before name spelled : Text}
    (hname : printedName line = some (before, name)) (hspelled : mangle name = .ok spelled) :
    ∃ after, line.text sub = .ok (before ++ spelled ++ after) := by
  cases line with
  | simple indent qualified type member =>
      obtain ⟨user, huser, heq⟩ := Option.map_eq_some_iff.mp hname
      obtain ⟨rfl, rfl⟩ := Prod.mk.inj heq
      obtain ⟨after, hafter⟩ := (spelled_at huser hspelled).2 member false
      exact ⟨after ++ [';'], by simp [Line.text, hafter, Except.map]⟩
  | range indent target const member =>
      obtain ⟨user, huser, heq⟩ := Option.map_eq_some_iff.mp hname
      obtain ⟨rfl, rfl⟩ := Prod.mk.inj heq
      obtain ⟨after, hafter⟩ := (spelled_at huser hspelled).1
      exact ⟨after ++ (if const then lit " const" else []) ++ lit "> " ++ member ++ [';'],
        by simp [Line.text, hafter, Except.map]⟩
  | _ => cases hname

/-- The names declared so far in the structs whose brace is open, innermost first. -/
abbrev Scopes := List (List Text)

def declareName (name : Text) : Scopes → Scopes
  | [] => [[name]]
  | scope :: around => (name :: scope) :: around

/-- The scopes after a line. Members of an anonymous union are members of the
struct around it; a struct inside a union is a scope and, once its brace is
closed, a member. -/
def afterLine (scopes : Scopes) : Line → Scopes
  | .simple _ _ _ name => declareName name scopes
  | .range _ _ _ name => declareName name scopes
  | .openStruct _ => [] :: scopes
  | .closeStruct _ name => declareName name scopes.tail
  | _ => scopes

/-- The type name printed in the line is not one of the members in scope, or it
is qualified. -/
def Resolves (scopes : Scopes) (line : Line) : Prop :=
  match printedName line with
  | none => True
  | some (before, name) =>
      match mangle name with
      | .error _ => True
      | .ok spelled => spelled ∈ scopes.flatten → lit "cloudabi::" <:+ before

instance (scopes : Scopes) (line : Line) : Decidable (Resolves scopes line) := by
  unfold Resolves
  split
  · infer_instance
  · split <;> infer_instance

def NamesResolve (scopes : Scopes) (lines : List Line) : Prop :=
  Along afterLine Resolves scopes lines

instance (scopes : Scopes) (lines : List Line) : Decidable (NamesResolve scopes lines) :=
  inferInstanceAs (Decidable (Along _ _ _ _))

mutual

/-- The names that the members of a struct declare in it, the last one first. -/
def declaredNames : List StructMember → List Text
  | [] => []
  | m :: ms => declaredNames ms ++ memberNames m
termination_by structural ms => ms

def memberNames : StructMember → List Text
  | .simple name _ => [name]
  | .range name _ _ => [name]
  | .variant _ xs => alternativesNames xs
termination_by structural m => m

def alternativesNames : List VariantMember → List Text
  | [] => []
  | x :: xs => alternativesNames xs ++ alternativeNames x
termination_by structural xs => xs

def alternativeNames : VariantMember → List Text
  | .mk none ms => declaredNames ms
  | .mk (some name) _ => [name]
termination_by structural x => x

end

def Shadowed (visible : List Text) (type : AbiType) : Prop :=
  ∃ name spelled, userName type = some name ∧ mangle name = .ok spelled ∧ spelled ∈ visible

/-- The name that the ABI gives to a member. -/
def abiName : StructMember → Option Text
  | .simple name _ => some name
  | .range name _ _ => some name
  | .variant name _ => name

section Shielded

variable (sub : Submodule)

mutual

/-- Wherever a member has a type that is shadowed, it is a Simple member, the
attribute `name` of its type is the name of a member of the struct around its variant,
up to the variant itself (`around`), and its declaration begins with the type name.
`earlier` are the names that the ABI gives to the members before. -/
def Shielded : List StructMember → (around earlier visible : List Text) → Prop
  | [], _, _, _ => True
  | m :: ms, around, earlier, visible =>
      ShieldedMember m around ((abiName m).toList ++ earlier) visible ∧
        Shielded ms around ((abiName m).toList ++ earlier) (memberNames m ++ visible)
termination_by structural ms => ms

def ShieldedMember : StructMember → (around earlier visible : List Text) → Prop
  | .simple _ type, around, _, visible =>
      Shadowed visible type → sub.typeName type ∈ around ∧ LeadsWithName type
  | .range _ target _, _, _, visible => ¬ Shadowed visible target
  | .variant _ xs, _, earlier, visible => ShieldedAlternatives xs earlier visible
termination_by structural m => m

def ShieldedAlternatives : List VariantMember → (around visible : List Text) → Prop
  | [], _, _ => True
  | x :: xs, around, visible =>
      ShieldedAlternative x around visible ∧
        ShieldedAlternatives xs around (alternativeNames x ++ visible)
termination_by structural xs => xs

def ShieldedAlternative : VariantMember → (around visible : List Text) → Prop
  | .mk _ ms, around, visible => Shielded ms around [] visible
termination_by structural x => x

end

end Shielded

theorem addName_eq (names : List Text) (m : StructMember) :
    addName names m = (abiName m).toList ++ names := by
  cases m <;> rfl

theorem resolves_simple_iff {indent : Text} (hindent : IsIndent indent) (qualified : Bool)
    (type : AbiType) (member : Text) (scopes : Scopes) :
    Resolves scopes (.simple indent qualified type member) ↔
      (Shadowed scopes.flatten type → qualified = true ∧ LeadsWithName type) := by
  simp only [Resolves, printedName, Shadowed]
  cases huser : userName type with
  | none => simp
  | some name =>
      cases hspelled : mangle name with
      | error e => simp [hspelled]
      | ok spelled =>
          simp only [Option.map_some, hspelled, qualified_simple_iff hindent qualified huser]
          simp [hspelled]

theorem resolves_range_iff (indent : Text) (target : AbiType) (const : Bool) (member : Text)
    (scopes : Scopes) :
    Resolves scopes (.range indent target const member) ↔ ¬ Shadowed scopes.flatten target := by
  simp only [Resolves, printedName, Shadowed]
  cases huser : userName target with
  | none => simp
  | some name =>
      cases hspelled : mangle name with
      | error e => simp [hspelled]
      | ok spelled =>
          simp only [Option.map_some, hspelled, not_qualified_range]
          simp [hspelled]

section Reading

variable (sub : Submodule)

mutual

theorem run_structMembers : ∀ (ms : List StructMember) (indent : Text)
    (reservedNames names scope : List Text) (around : Scopes),
    run afterLine (scope :: around) (structMembers sub ms indent reservedNames names) =
      (declaredNames ms ++ scope) :: around
  | [], _, _, _, _, _ => by simp [structMembers, declaredNames]
  | m :: ms, indent, reservedNames, names, scope, around => by
      rw [structMembers, run_append, run_structMember m, run_structMembers ms, declaredNames,
        List.append_assoc]

theorem run_structMember : ∀ (m : StructMember) (indent : Text)
    (reservedNames names scope : List Text) (around : Scopes),
    run afterLine (scope :: around) (structMember sub m indent reservedNames names) =
      (memberNames m ++ scope) :: around
  | .simple _ _, _, _, _, _, _ => by simp [structMember, memberNames, afterLine, declareName]
  | .range _ _ _, _, _, _, _, _ => by simp [structMember, memberNames, afterLine, declareName]
  | .variant _ xs, indent, _, names, scope, around => by
      simp [structMember, memberNames, afterLine, run_append,
        run_structAlternatives xs indent names scope around]

theorem run_structAlternatives : ∀ (xs : List VariantMember) (indent : Text)
    (names scope : List Text) (around : Scopes),
    run afterLine (scope :: around) (structAlternatives sub xs indent names) =
      (alternativesNames xs ++ scope) :: around
  | [], _, _, _, _ => by simp [structAlternatives, alternativesNames]
  | x :: xs, indent, names, scope, around => by
      rw [structAlternatives, run_append, run_structAlternative x, run_structAlternatives xs,
        alternativesNames, List.append_assoc]

theorem run_structAlternative : ∀ (x : VariantMember) (indent : Text)
    (names scope : List Text) (around : Scopes),
    run afterLine (scope :: around) (structAlternative sub x indent names) =
      (alternativeNames x ++ scope) :: around
  | .mk none ms, indent, names, scope, around => by
      simp [structAlternative, alternativeNames, run_structMembers ms]
  | .mk (some name) ms, indent, names, scope, around => by
      simp [structAlternative, alternativeNames, afterLine, declareName, run_append,
        run_structMembers ms (indent ++ lit "    ") names [] [] (scope :: around)]

end

theorem IsIndent.append {indent more : Text} (hindent : IsIndent indent)
    (hmore : IsIndent more) : IsIndent (indent ++ more) := by
  intro c hc
  rcases List.mem_append.mp hc with hin | hin
  · exact hindent c hin
  · exact hmore c hin

theorem isIndent_lit : IsIndent (lit "  ") ∧ IsIndent (lit "    ") := by
  decide +kernel

mutual

theorem namesResolve_structMembers : ∀ (ms : List StructMember) {indent : Text}
    (_ : IsIndent indent) (reservedNames names scope : List Text) (around : Scopes),
    NamesResolve (scope :: around) (structMembers sub ms indent reservedNames names) ↔
      Shielded sub ms reservedNames names (scope ++ around.flatten)
  | [], _, _, _, _, _, _ => by simp [structMembers, Shielded, NamesResolve]
  | m :: ms, indent, hindent, reservedNames, names, scope, around => by
      have hm := namesResolve_structMember m hindent reservedNames (addName names m) scope around
      have hms := namesResolve_structMembers ms hindent reservedNames (addName names m)
        (memberNames m ++ scope) around
      rw [NamesResolve] at hm hms ⊢
      rw [structMembers, along_append, run_structMember, hm, hms, Shielded, ← addName_eq,
        List.append_assoc]

theorem namesResolve_structMember : ∀ (m : StructMember) {indent : Text}
    (_ : IsIndent indent) (reservedNames names scope : List Text) (around : Scopes),
    NamesResolve (scope :: around) (structMember sub m indent reservedNames names) ↔
      ShieldedMember sub m reservedNames names (scope ++ around.flatten)
  | .simple name type, _, hindent, reservedNames, _, scope, around => by
      simp [structMember, ShieldedMember, NamesResolve, resolves_simple_iff hindent]
  | .range _ _ _, _, _, _, _, scope, around => by
      simp [structMember, ShieldedMember, NamesResolve, resolves_range_iff]
  | .variant _ xs, indent, hindent, _, names, scope, around => by
      have hxs := namesResolve_structAlternatives xs hindent names scope around
      rw [NamesResolve] at hxs ⊢
      simp [structMember, ShieldedMember, along_append, Resolves, printedName, afterLine, hxs]

theorem namesResolve_structAlternatives : ∀ (xs : List VariantMember) {indent : Text}
    (_ : IsIndent indent) (names scope : List Text) (around : Scopes),
    NamesResolve (scope :: around) (structAlternatives sub xs indent names) ↔
      ShieldedAlternatives sub xs names (scope ++ around.flatten)
  | [], _, _, _, _, _ => by simp [structAlternatives, ShieldedAlternatives, NamesResolve]
  | x :: xs, indent, hindent, names, scope, around => by
      have hx := namesResolve_structAlternative x hindent names scope around
      have hxs := namesResolve_structAlternatives xs hindent names
        (alternativeNames x ++ scope) around
      rw [NamesResolve] at hx hxs ⊢
      rw [structAlternatives, along_append, run_structAlternative, hx, hxs,
        ShieldedAlternatives, List.append_assoc]

theorem namesResolve_structAlternative : ∀ (x : VariantMember) {indent : Text}
    (_ : IsIndent indent) (names scope : List Text) (around : Scopes),
    NamesResolve (scope :: around) (structAlternative sub x indent names) ↔
      ShieldedAlternative sub x names (scope ++ around.flatten)
  | .mk none ms, indent, hindent, names, scope, around =>
      namesResolve_structMembers ms (hindent.append isIndent_lit.1) names [] scope around
  | .mk (some name) ms, indent, hindent, names, scope, around => by
      have hms := namesResolve_structMembers ms (hindent.append isIndent_lit.2) names [] []
        (scope :: around)
      rw [NamesResolve] at hms ⊢
      simp only [List.nil_append, List.flatten_cons] at hms
      simp [structAlternative, ShieldedAlternative, along_append, Resolves, printedName,
        afterLine, hms]

end

end Reading

/-- Every type name printed in a struct resolves to the namespace-level type
exactly when all shadowed names are shielded. -/
theorem namesResolve_iff_shielded (sub : Submodule) (type : StructType) :
    NamesResolve [[]] (generateStructMembers sub type (lit "  ") []) ↔
      Shielded sub type.members [] [] [] :=
  namesResolve_structMembers sub type.members isIndent_lit.1 [] [] [] []

def twoUserdata : StructType where
  name := lit "pair"
  members := [.simple (lit "userdata") (.user (lit "userdata")),
    .simple (lit "other") (.user (lit "userdata"))]

/-- The type of the second member is captured by the first member. -/
theorem twoUserdata_captured :
    ((generateStructMembers cloudabiSubmodule twoUserdata (lit "  ") []).map
        (Line.text cloudabiSubmodule)) =
      [.ok (lit "  userdata userdata;"), .ok (lit "  userdata other;")] ∧
      ¬ NamesResolve [[]] (generateStructMembers cloudabiSubmodule twoUserdata (lit "  ") []) := by
  decide +kernel

end CloudabiCpp.Generator.NameLookup
