import CloudabiCpp.Lib.ClassReader
import CloudabiCpp.Generator.DeclarationReading
import CloudabiCpp.Generator.OffsetAsserts
import CloudabiCpp.Generator.NameLookup

/-!
What a reader of C++ makes of the text of a printed struct: the members that the
ABI gives it, with their types, at any nesting. An unnamed alternative leaves no
trace; its members become members of the anonymous union.
-/

namespace CloudabiCpp.Generator.StructReading

open CloudabiCpp.Lib.Lexer
open CloudabiCpp.Lib.Declarations
open CloudabiCpp.Lib.Aggregates
open CloudabiCpp.Lib.ClassReader
open CloudabiCpp.Generator.Abi
open CloudabiCpp.Generator.CppNaming
open CloudabiCpp.Generator.StructDefs
open CloudabiCpp.Generator.OffsetAsserts
open CloudabiCpp.Generator.DeclarationReading
open CloudabiCpp.Generator.NameLookup

def denoteContent : Content → CType
  | .simple type => denote type
  | .range target const =>
      .template false [lit "mstd", lit "range"]
        (if const then (denote target).addConst else denote target)

mutual

/-- The members of the C++ struct that stands for an ABI struct. -/
def membersOf : List StructMember → List Member
  | [] => []
  | m :: ms => memberOf m :: membersOf ms
termination_by structural ms => ms

def memberOf : StructMember → Member
  | .simple name type => .field (denoteContent (.simple type)) name
  | .range name target const => .field (denoteContent (.range target const)) name
  | .variant _ xs => .union (alternativesOf xs)
termination_by structural m => m

def alternativesOf : List VariantMember → List Member
  | [] => []
  | x :: xs => alternativeOf x ++ alternativesOf xs
termination_by structural xs => xs

def alternativeOf : VariantMember → List Member
  | .mk none ms => membersOf ms
  | .mk (some name) ms => [.struct (membersOf ms) name]
termination_by structural x => x

end

/-- The namespace that the generator qualifies names with. -/
def cloudabi : Word := lit "cloudabi"

def printedType (qualified : Bool) (type : AbiType) : CType :=
  if qualified then inside cloudabi (denote type) else denote type

section Printed

variable (sub : Submodule)

mutual

/-- These members as they are printed, qualifiers included. -/
def printedMembers : List StructMember → (reservedNames names : List Text) → List Member
  | [], _, _ => []
  | m :: ms, reservedNames, names =>
      printedMember m reservedNames (addName names m) ::
        printedMembers ms reservedNames (addName names m)
termination_by structural ms => ms

def printedMember : StructMember → (reservedNames names : List Text) → Member
  | .simple name type, reservedNames, _ =>
      .field (printedType (sub.typeName type ∈ reservedNames) type) name
  | .range name target const, _, _ => .field (denoteContent (.range target const)) name
  | .variant _ xs, _, names => .union (printedAlternatives xs names)
termination_by structural m => m

def printedAlternatives : List VariantMember → (names : List Text) → List Member
  | [], _ => []
  | x :: xs, names => printedAlternative x names ++ printedAlternatives xs names
termination_by structural xs => xs

def printedAlternative : VariantMember → (names : List Text) → List Member
  | .mk none ms, names => printedMembers ms names []
  | .mk (some name) ms, names => [.struct (printedMembers ms names []) name]
termination_by structural x => x

end

end Printed

/-- The text of printed lines. -/
def linesText (sub : Submodule) (lines : List Line) : Except PyError Text :=
  (lines.mapM (Line.text sub)).map fun texts => texts.flatMap (· ++ ['\n'])

/-- The names in the line are names in C++, and its type can be written down in
the way the generator does: `const` on a base type only, and the qualifier in
front of a user-defined type only. -/
def Readable : Line → Prop
  | .simple _ qualified type name =>
      IsName name ∧ WellNamed type ∧ ConstAtBase type ∧
        (qualified = true → LeadsWithName type)
  | .range _ target const name =>
      IsName name ∧ WellNamed target ∧ ConstAtBase target ∧ (const = true → IsBase target)
  | .closeStruct _ name => IsName name
  | _ => True

instance decidableWellNamed : ∀ type, Decidable (WellNamed type)
  | .void => isTrue trivial
  | .int name => inferInstanceAs (Decidable (name = lit "char" ∨ IsName (name ++ lit "_t")))
  | .user name =>
      match hmangle : mangle name with
      | .error _ => isFalse fun ⟨_, hspelled, _⟩ => nomatch hmangle.symm.trans hspelled
      | .ok spelled =>
          decidable_of_iff (IsName spelled)
            ⟨fun hname => ⟨spelled, hmangle, hname⟩,
              fun ⟨_, hspelled, hname⟩ => Except.ok.inj (hmangle.symm.trans hspelled) ▸ hname⟩
  | .atomic target | .pointer target _ | .array _ target => decidableWellNamed target

instance decidableIsPointer : ∀ type, Decidable (IsPointer type)
  | .pointer _ _ => isTrue trivial
  | .array _ element => decidableIsPointer element
  | .void | .int _ | .user _ | .atomic _ => isFalse id

instance decidableConstAtBase : ∀ type, Decidable (ConstAtBase type)
  | .pointer target const =>
      have := decidableConstAtBase target
      inferInstanceAs (Decidable ((const = true → ¬ IsPointer target) ∧ ConstAtBase target))
  | .array _ element => decidableConstAtBase element
  | .atomic target => decidableConstAtBase target
  | .void | .int _ | .user _ => isTrue trivial

instance : ∀ type, Decidable (IsBase type)
  | .pointer _ _ | .array _ _ => isFalse id
  | .void | .int _ | .user _ | .atomic _ => isTrue trivial

instance : ∀ line, Decidable (Readable line)
  | .simple _ qualified type name =>
      inferInstanceAs (Decidable (IsName name ∧ WellNamed type ∧ ConstAtBase type ∧
        (qualified = true → LeadsWithName type)))
  | .range _ target const name =>
      inferInstanceAs (Decidable (IsName name ∧ WellNamed target ∧ ConstAtBase target ∧
        (const = true → IsBase target)))
  | .closeStruct _ name => inferInstanceAs (Decidable (IsName name))
  | .openUnion _ | .openStruct _ | .closeUnion _ | .assertSizeof _ | .assertAlignof _
  | .assertOffsetof _ _ _ | .structHead _ | .structFoot | .blank => isTrue trivial

theorem map_eq_ok {ε α β : Type} {result : Except ε α} {f : α → β} {b : β}
    (hmap : result.map f = .ok b) : ∃ a, result = .ok a ∧ f a = b := by
  cases result with
  | error e => cases hmap
  | ok a => exact ⟨a, rfl, Except.ok.inj hmap⟩

section Breaks

theorem not_mem_name {name : Text} (hname : IsName name) {c : Char}
    (hc : isWordChar c = false) : c ∉ name := by
  intro hmem
  have hword := List.all_eq_true.mp hname.2.1 c hmem
  rw [hc] at hword
  cases hword

theorem not_mem_intTypename {name : Text} (hname : WellNamed (.int name)) :
    '\n' ∉ intTypename name := by
  have hchar : '\n' ∉ lit "char" := by decide +kernel
  have hstd : '\n' ∉ lit "std::" := by decide +kernel
  have hsuffix : '\n' ∉ lit "_t" := by decide +kernel
  unfold intTypename
  split_ifs with heq
  · exact hchar
  · have hspelled := not_mem_name (hname.resolve_left heq) (c := '\n') rfl
    simp only [List.mem_append, not_or] at hspelled ⊢
    exact ⟨⟨hstd, hspelled.1⟩, hsuffix⟩

theorem not_mem_arrayDeclarator {name : Text} (hname : '\n' ∉ name) (arrayNeedParens : Bool)
    (count : Nat) : '\n' ∉ arrayDeclarator name arrayNeedParens count := by
  have hcount : '\n' ∉ Nat.toDigits 10 count := by
    intro hmem
    have hdigit := Nat.isDigit_of_mem_toDigits (by decide) (Nat.le_refl 10) hmem
    revert hdigit
    decide
  cases arrayNeedParens with
  | false => simp [arrayDeclarator, hname, hcount]
  | true => simp [arrayDeclarator, hname, hcount]

structure NoBreak (type : AbiType) : Prop where
  typename : ∀ {text}, typename type = .ok text → '\n' ∉ text
  vardecl : ∀ {name : Text} {arrayNeedParens : Bool} {text}, '\n' ∉ name →
    vardecl type name arrayNeedParens = .ok text → '\n' ∉ text

theorem NoBreak.of_base {type : AbiType} (htype : IsBase type)
    (htypename : ∀ {text}, CppNaming.typename type = .ok text → '\n' ∉ text) : NoBreak type where
  typename := htypename
  vardecl := by
    intro name arrayNeedParens text hname htext
    rw [vardecl_eq_declare htype] at htext
    obtain ⟨base, hbase, rfl⟩ := map_eq_ok htext
    simp [declare, hname, htypename hbase]

theorem NoBreak.of_not_base {type : AbiType} (htype : ¬ IsBase type)
    (hvardecl : ∀ {name : Text} {arrayNeedParens : Bool} {text}, '\n' ∉ name →
      CppNaming.vardecl type name arrayNeedParens = .ok text → '\n' ∉ text) : NoBreak type where
  typename := by
    intro text htext
    rw [typename_eq_vardecl htype] at htext
    exact hvardecl List.not_mem_nil htext
  vardecl := hvardecl

/-- A declaration is printed on one line. -/
theorem noBreak {type : AbiType} (htype : WellNamed type) : NoBreak type := by
  induction type with
  | void =>
      have hvoid : '\n' ∉ lit "void" := by decide +kernel
      refine NoBreak.of_base trivial ?_
      intro text htext
      obtain rfl := Except.ok.inj htext
      exact hvoid
  | int base =>
      refine NoBreak.of_base trivial ?_
      intro text htext
      obtain rfl := Except.ok.inj htext
      exact not_mem_intTypename htype
  | user base =>
      obtain ⟨spelled, hmangle, hspelled⟩ := htype
      refine NoBreak.of_base trivial ?_
      intro text htext
      obtain rfl := Except.ok.inj (hmangle.symm.trans htext)
      exact not_mem_name hspelled rfl
  | atomic target ih =>
      have hatomic : '\n' ∉ lit "std::atomic<" := by decide +kernel
      refine NoBreak.of_base trivial ?_
      intro text htext
      obtain ⟨inner, hinner, rfl⟩ := map_eq_ok htext
      simp [atomicTypename, hatomic, (ih htype).typename hinner]
  | pointer target const ih =>
      have hqualify : '\n' ∉ lit "const " := by decide +kernel
      refine NoBreak.of_not_base id ?_
      intro name arrayNeedParens text hname htext
      obtain ⟨decl, hdecl, rfl⟩ := map_eq_ok htext
      have hbreak := (ih htype).vardecl (by simpa using hname) hdecl
      cases const with
      | false => exact hbreak
      | true => simp [qualify, hqualify, hbreak]
  | array count element ih =>
      refine NoBreak.of_not_base id ?_
      intro name arrayNeedParens text hname htext
      exact (ih htype).vardecl (not_mem_arrayDeclarator hname arrayNeedParens count) htext

end Breaks

section Printing

variable (sub : Submodule)

/-- The lines can be printed, and these are the tokens of their text. -/
def Prints (lines : List Line) (ts : List Token) : Prop :=
  ∃ text, linesText sub lines = .ok text ∧ Spells text ts

theorem Prints.nil : Prints sub [] [] := ⟨[], rfl, Spells.nil⟩

theorem Prints.line {line : Line} {text : Text} (htext : line.text sub = .ok text) :
    Prints sub [line] (tokens text) := by
  refine ⟨text ++ ['\n'], ?_, ?_, ?_⟩
  · simp [linesText, htext, Except.map, pure, Except.pure, bind, Except.bind]
  · rw [endsWord, List.getLast?_concat]
    rfl
  · rw [tokens_line]
    exact List.append_nil _

theorem Prints.append {lines more : List Line} {ts us : List Token} (h : Prints sub lines ts)
    (hmore : Prints sub more us) : Prints sub (lines ++ more) (ts ++ us) := by
  obtain ⟨text, htext, hspells⟩ := h
  obtain ⟨text', htext', hspells'⟩ := hmore
  obtain ⟨texts, htexts, rfl⟩ := map_eq_ok htext
  obtain ⟨texts', htexts', rfl⟩ := map_eq_ok htext'
  refine ⟨_, ?_, hspells.append hspells'⟩
  rw [linesText, List.mapM_append, htexts, htexts', ← List.flatMap_append]
  rfl

theorem tokens_indent {indent : Text} (hindent : IsIndent indent) (text : Text) :
    tokens (indent ++ text) = tokens text := by
  induction indent with
  | nil => rfl
  | cons c indent ih =>
      obtain ⟨rfl, hrest⟩ := List.forall_mem_cons.mp hindent
      exact ih hrest

theorem tokens_name {name : Text} (hname : IsName name) : tokens name = [.word name] := by
  rw [tokens_eq_lex (not_mem_name hname rfl), lex_name hname]

end Printing

section Fields

theorem readsField {type : AbiType} (htype : WellNamed type) (hconst : ConstAtBase type)
    {name decl : Text} (hname : IsName name) (hdecl : vardecl type name false = .ok decl) :
    ReadsField (tokens decl) (denote type) name := by
  have hdirect : ReadsAs false (lex name) (.name (some name)) := by
    rw [lex_name hname]
    exact ReadsDirect.name hname.2.2
  obtain ⟨text, htext, hread⟩ := (printedAs htype).vardecl_reads _ _ _ hdirect
  obtain rfl := Except.ok.inj (hdecl.symm.trans htext)
  rw [tokens_eq_lex ((noBreak htype).vardecl (not_mem_name hname rfl) hdecl)]
  intro rest fuel hfuel
  have hplain := hread 0 (.symbol ';' :: rest) rfl fuel (by simpa using hfuel)
  rw [(readBack_eq type).1.mpr hconst] at hplain
  exact eitherDeclaration_of_plain hplain

/-- A declaration that begins with a user-defined type begins with its name. -/
theorem exists_leading {type : AbiType} (htype : WellNamed type) (hleads : LeadsWithName type) :
    ∃ spelled, IsName spelled ∧ ∀ name arrayNeedParens, ∃ after,
      vardecl type name arrayNeedParens = .ok (spelled ++ ' ' :: after) := by
  induction type with
  | user base =>
      obtain ⟨spelled, hmangle, hspelled⟩ := htype
      refine ⟨spelled, hspelled, fun name _ => ⟨name, ?_⟩⟩
      rw [vardecl, hmangle]
      simp [Except.map, declare]
  | pointer target const ih =>
      obtain ⟨rfl, hleads⟩ := hleads
      obtain ⟨spelled, hspelled, hall⟩ := ih htype hleads
      refine ⟨spelled, hspelled, fun name _ => ?_⟩
      obtain ⟨after, hafter⟩ := hall ('*' :: name) true
      refine ⟨after, ?_⟩
      rw [vardecl, hafter]
      rfl
  | array count element ih =>
      obtain ⟨spelled, hspelled, hall⟩ := ih htype hleads
      refine ⟨spelled, hspelled, fun name arrayNeedParens => ?_⟩
      exact hall (arrayDeclarator name arrayNeedParens count) false
  | void => exact hleads.elim
  | int base => exact hleads.elim
  | atomic target ih => exact hleads.elim

theorem readsField_qualified {type : AbiType} (htype : WellNamed type)
    (hconst : ConstAtBase type) (hleads : LeadsWithName type) {name decl : Text}
    (hname : IsName name) (hdecl : vardecl type name false = .ok decl) :
    ReadsField (.word cloudabi :: .symbol ':' :: .symbol ':' :: tokens decl)
      (inside cloudabi (denote type)) name := by
  have hcloudabi : isIdentifier cloudabi = true := by decide +kernel
  obtain ⟨spelled, hspelled, hall⟩ := exists_leading htype hleads
  obtain ⟨after, hafter⟩ := hall name false
  obtain rfl := Except.ok.inj (hdecl.symm.trans hafter)
  have htokens : tokens (spelled ++ ' ' :: after) = .word spelled :: tokens after := by
    rw [tokens_append (Or.inr rfl), tokens_name hspelled]
    rfl
  intro rest fuel hfuel
  have hread := readsField htype hconst hname hdecl rest fuel (by simp at hfuel; omega)
  rw [htokens, List.cons_append] at hread
  rw [htokens, List.cons_append, List.cons_append, List.cons_append, List.cons_append,
    eitherDeclaration_qualified hcloudabi hspelled.2.2, hread]
  rfl

theorem lex_intTypename {base : Text} (hspelled : IsName (base ++ lit "_t")) :
    lex (lit "std::" ++ base ++ lit "_t") = pathTokens [lit "std", base ++ lit "_t"] := by
  have hlex : lex (lit "std::") = [.word (lit "std"), .symbol ':', .symbol ':'] := by
    decide +kernel
  have hends : endsWord (lit "std::") = false := by decide +kernel
  rw [List.append_assoc, lex_append (Or.inl hends), hlex, lex_name hspelled]
  rfl

theorem lex_atomicTypename (target : Text) :
    lex (atomicTypename target) = pathTokens [lit "std", lit "atomic"] ++
      .symbol '<' :: lex target ++ [.symbol '>'] := by
  have hlex : lex (lit "std::atomic<") = pathTokens [lit "std", lit "atomic"] ++
      [.symbol '<'] := by decide +kernel
  have hends : endsWord (lit "std::atomic<") = false := by decide +kernel
  rw [atomicTypename, lex_append (Or.inr rfl), lex_append (Or.inl hends), hlex,
    List.append_assoc _ _ (lex target)]
  rfl

theorem readsBase_typename {type : AbiType} (hbase : IsBase type) (htype : WellNamed type)
    (hconst : ConstAtBase type) {text : Text} (htext : typename type = .ok text) :
    ReadsBase (lex text) (some (denote type)) := by
  cases type with
  | void =>
      obtain ⟨hmem, hlex⟩ := PrintedAs.fundamental_void_char.1
      obtain rfl := Except.ok.inj htext
      rw [hlex]
      exact ReadsBase.fundamental hmem
  | int base =>
      obtain rfl := Except.ok.inj htext
      by_cases hchar : base = lit "char"
      · obtain ⟨hmem, hlex⟩ := PrintedAs.fundamental_void_char.2
        rw [intTypename, if_pos hchar, hlex, denote, intPath, if_pos hchar]
        exact ReadsBase.fundamental hmem
      · have hspelled : IsName (base ++ lit "_t") := htype.resolve_left hchar
        have hstd : isIdentifier (lit "std") = true := by decide +kernel
        have hidentifier : ∀ w ∈ [lit "std", base ++ lit "_t"], isIdentifier w = true := by
          simpa using ⟨hstd, hspelled.2.2⟩
        rw [intTypename, if_neg hchar, lex_intTypename hspelled, denote, intPath, if_neg hchar]
        exact ReadsBase.named (by simp) hidentifier
  | user base =>
      obtain ⟨spelled, hmangle, hspelled⟩ := htype
      obtain rfl := Except.ok.inj (hmangle.symm.trans htext)
      have hdenote : denote (.user base) = .named false [spelled] := by
        rw [denote, hmangle]
        rfl
      have hidentifier : ∀ w ∈ [spelled], isIdentifier w = true := by simpa using hspelled.2.2
      rw [lex_name hspelled, hdenote]
      exact ReadsBase.named (by simp) hidentifier
  | atomic target =>
      obtain ⟨inner, hinner, rfl⟩ := map_eq_ok htext
      obtain ⟨text', htext', hread⟩ := (printedAs (show WellNamed target from htype)).typename_reads
      obtain rfl := Except.ok.inj (hinner.symm.trans htext')
      have hnames : ∀ w ∈ [lit "std", lit "atomic"], isIdentifier w = true := by decide +kernel
      rw [(readBack_eq target).1.mpr hconst] at hread
      have htemplate := ReadsBase.template (List.cons_ne_nil _ _) hnames hread
      rwa [← lex_atomicTypename] at htemplate
  | pointer target const => exact hbase.elim
  | array count element => exact hbase.elim

theorem readsTypeId {type : AbiType} (htype : WellNamed type) (hconst : ConstAtBase type)
    {text : Text} (htext : typename type = .ok text) : ReadsTypeId (tokens text) (denote type) := by
  obtain ⟨text', htext', hread⟩ := (printedAs htype).typename_reads
  obtain rfl := Except.ok.inj (htext.symm.trans htext')
  rw [tokens_eq_lex ((noBreak htype).typename htext)]
  intro rest hrest fuel hfuel
  have hplain := hread rest hrest fuel hfuel
  rw [(readBack_eq type).1.mpr hconst] at hplain
  exact eitherDeclaration_of_plain hplain

theorem readsRange {target : AbiType} {const : Bool} {name text : Text} (hname : IsName name)
    (htarget : WellNamed target) (hconst : ConstAtBase target)
    (hbase : const = true → IsBase target) (htext : typename target = .ok text) :
    ReadsField (tokens (lit "mstd::range<" ++ text ++ (if const then lit " const" else []) ++
        lit "> " ++ name))
      (denoteContent (.range target const)) name := by
  have hrange : tokens (lit "mstd::range<") = pathTokens [lit "mstd", lit "range"] ++
      [.symbol '<'] := by decide +kernel
  have hends : endsWord (lit "mstd::range<") = false := by decide +kernel
  have hnames : ∀ w ∈ [lit "mstd", lit "range"], isIdentifier w = true := by decide +kernel
  have hclose : startsWord (lit "> ") = false ∧ tokens (lit "> ") = [.symbol '>'] := by
    decide +kernel
  have hargument : ∃ ts, tokens (lit "mstd::range<" ++ text ++
        (if const then lit " const" else [])) =
          pathTokens [lit "mstd", lit "range"] ++ .symbol '<' :: ts ∧
      ReadsTypeId ts (if const then (denote target).addConst else denote target) := by
    cases const with
    | false =>
        refine ⟨tokens text, ?_, readsTypeId htarget hconst htext⟩
        rw [if_neg Bool.false_ne_true, List.append_nil, tokens_append (Or.inl hends), hrange]
        rfl
    | true =>
        have hsuffix : tokens (lit " const") = [.word constWord] ∧
            startsWord (lit " const") = false := by decide +kernel
        have hlex := tokens_eq_lex ((noBreak htarget).typename htext)
        refine ⟨tokens text ++ [.word constWord], ?_, ?_⟩
        · rw [if_pos rfl, tokens_append (Or.inr hsuffix.2), tokens_append (Or.inl hends), hrange,
            hsuffix.1, List.append_assoc, List.append_assoc]
          rfl
        · rw [hlex]
          exact ReadsTypeId.const (readsBase_typename (hbase rfl) htarget hconst htext)
  obtain ⟨ts, hts, hread⟩ := hargument
  have hfield := ReadsField.template (List.cons_ne_nil _ _) hnames hread hname.2.2
  have hboundary : endsWord (lit "mstd::range<" ++ text ++ (if const then lit " const" else []) ++
      lit "> ") = false := by
    have hlast : (lit "> ").getLast? = some ' ' := by decide +kernel
    rw [endsWord, List.getLast?_append, hlast]
    rfl
  rw [tokens_append (Or.inl hboundary), tokens_append (Or.inr hclose.1), hts, hclose.2,
    tokens_name hname, List.append_assoc]
  exact hfield

end Fields

section Qualifiers

theorem unqualified_addConst (ns : Word) (type : CType) :
    unqualified ns type.addConst = (unqualified ns type).addConst := by
  induction type with
  | named const path =>
      match path with
      | [] => rfl
      | [_] => rfl
      | w :: _ :: _ =>
          simp only [CType.addConst, unqualified]
          split_ifs
          · rfl
          · rfl
  | template const path argument ih =>
      match path with
      | [] => rfl
      | [_] => rfl
      | w :: _ :: _ =>
          simp only [CType.addConst, unqualified]
          split_ifs
          · rfl
          · rfl
  | pointer const target ih => rfl
  | array count element ih => simp only [CType.addConst, unqualified, ih]

theorem unqualified_denote (type : AbiType) : unqualified cloudabi (denote type) = denote type := by
  have hstd : lit "std" ≠ cloudabi := by decide +kernel
  induction type with
  | void => rfl
  | user base => rfl
  | int base =>
      rw [denote, intPath]
      split_ifs
      · rfl
      · simp [unqualified, hstd]
  | atomic target ih => simp [denote, unqualified, hstd]
  | pointer target const ih =>
      cases const with
      | false => simp [denote, unqualified, ih]
      | true => simp [denote, unqualified, unqualified_addConst, ih]
  | array count element ih => simp [denote, unqualified, ih]

theorem unqualified_denoteContent (content : Content) :
    unqualified cloudabi (denoteContent content) = denoteContent content := by
  have hmstd : lit "mstd" ≠ cloudabi := by decide +kernel
  cases content with
  | simple type => exact unqualified_denote type
  | range target const => simp [denoteContent, unqualified, hmstd]

/-- The qualifier makes no other type of a user-defined one. -/
theorem unqualified_inside_denote {type : AbiType} (hleads : LeadsWithName type) :
    unqualified cloudabi (inside cloudabi (denote type)) = denote type := by
  induction type with
  | user base => simp [denote, inside, unqualified]
  | pointer target const ih =>
      obtain ⟨rfl, hleads⟩ := hleads
      simp [denote, inside, unqualified, ih hleads]
  | array count element ih => simp [denote, inside, unqualified, ih hleads]
  | void => exact hleads.elim
  | int base => exact hleads.elim
  | atomic target ih => exact hleads.elim

end Qualifiers

section Members

variable (sub : Submodule)

/-- The text of the lines is read as these members. -/
def ReadsBack (lines : List Line) (ms : List Member) : Prop :=
  ∃ ts, Prints sub lines ts ∧ Opens ts ms

theorem ReadsBack.nil : ReadsBack sub [] [] :=
  ⟨[], Prints.nil sub, Opens.nil⟩

theorem ReadsBack.append {lines more : List Line} {ms mems : List Member}
    (h : ReadsBack sub lines ms) (hmore : ReadsBack sub more mems) :
    ReadsBack sub (lines ++ more) (ms ++ mems) := by
  obtain ⟨ts, hprints, hopens⟩ := h
  obtain ⟨us, hprints', hopens'⟩ := hmore
  exact ⟨ts ++ us, hprints.append sub hprints', hopens.append hopens'⟩

theorem ReadsBack.field {line : Line} {text : Text} {type : CType} {name : Word}
    (htext : line.text sub = .ok (text ++ [';']))
    (hread : ReadsField (tokens text) type name) :
    ReadsBack sub [line] [.field type name] := by
  have hprints := Prints.line sub htext
  rw [tokens_append (Or.inr rfl)] at hprints
  exact ⟨_, hprints, Opens.field hread⟩

theorem readsBack_simple {indent : Text} (hindent : IsIndent indent) {qualified : Bool}
    {type : AbiType} {name : Text} (hline : Readable (.simple indent qualified type name)) :
    ReadsBack sub [.simple indent qualified type name]
      [.field (printedType qualified type) name] := by
  obtain ⟨hname, htype, hconst, hleads⟩ := hline
  obtain ⟨decl, hdecl, -⟩ := vardecl_declares htype hname
  cases qualified with
  | false =>
      have htext : (Line.simple indent false type name).text sub =
          .ok (indent ++ decl ++ [';']) := by
        simp [Line.text, hdecl, Except.map]
      have hread := readsField htype hconst hname hdecl
      rw [← tokens_indent hindent] at hread
      exact ReadsBack.field sub htext hread
  | true =>
      have htext : (Line.simple indent true type name).text sub =
          .ok (indent ++ (lit "cloudabi::" ++ decl) ++ [';']) := by
        simp [Line.text, hdecl, Except.map]
      have hread := readsField_qualified htype hconst (hleads rfl) hname hdecl
      have hcloudabi : tokens (lit "cloudabi::") =
          [.word cloudabi, .symbol ':', .symbol ':'] ∧ endsWord (lit "cloudabi::") = false := by
        decide +kernel
      have htokens : tokens (indent ++ (lit "cloudabi::" ++ decl)) =
          .word cloudabi :: .symbol ':' :: .symbol ':' :: tokens decl := by
        rw [tokens_indent hindent, tokens_append (Or.inl hcloudabi.2), hcloudabi.1]
        rfl
      rw [← htokens] at hread
      exact ReadsBack.field sub htext hread

theorem readsBack_range {indent : Text} (hindent : IsIndent indent) {target : AbiType}
    {const : Bool} {name : Text} (hline : Readable (.range indent target const name)) :
    ReadsBack sub [.range indent target const name]
      [.field (denoteContent (.range target const)) name] := by
  obtain ⟨hname, htarget, hconst, hbase⟩ := hline
  obtain ⟨spelled, hspelled, -⟩ := typename_denotes htarget
  let text := lit "mstd::range<" ++ spelled ++ (if const then lit " const" else []) ++
    lit "> " ++ name
  have htext : (Line.range indent target const name).text sub =
      .ok (indent ++ text ++ [';']) := by
    simp [Line.text, hspelled, Except.map, text]
  have hread := readsRange hname htarget hconst hbase hspelled
  rw [← tokens_indent hindent] at hread
  exact ReadsBack.field sub htext hread

theorem prints_openUnion {indent : Text} (hindent : IsIndent indent) :
    Prints sub [.openUnion indent] [.word unionWord, .symbol '{'] := by
  have htokens : tokens (lit "union \x7b") = [.word unionWord, .symbol '{'] := by
    decide +kernel
  rw [← htokens, ← tokens_indent hindent]
  exact Prints.line sub rfl

theorem prints_closeUnion {indent : Text} (hindent : IsIndent indent) :
    Prints sub [.closeUnion indent] [.symbol '}', .symbol ';'] := by
  have htokens : tokens (lit "\x7d;") = [.symbol '}', .symbol ';'] := by decide +kernel
  rw [← htokens, ← tokens_indent hindent]
  exact Prints.line sub rfl

theorem prints_openStruct {indent : Text} (hindent : IsIndent indent) :
    Prints sub [.openStruct indent] [.word structWord, .symbol '{'] := by
  have htokens : tokens (lit "  struct \x7b") = [.word structWord, .symbol '{'] := by
    decide +kernel
  rw [← htokens, ← tokens_indent hindent]
  exact Prints.line sub rfl

theorem prints_closeStruct {indent : Text} (hindent : IsIndent indent) {name : Text}
    (hname : IsName name) :
    Prints sub [.closeStruct indent name] [.symbol '}', .word name, .symbol ';'] := by
  have hclose : tokens (lit "  \x7d ") = [.symbol '}'] ∧ endsWord (lit "  \x7d ") = false := by
    decide +kernel
  have htokens : tokens (indent ++ (lit "  \x7d " ++ name) ++ [';']) =
      [.symbol '}', .word name, .symbol ';'] := by
    rw [tokens_append (Or.inr rfl), tokens_indent hindent, tokens_append (Or.inl hclose.2),
      hclose.1, tokens_name hname]
    rfl
  rw [← htokens, ← List.append_assoc]
  exact Prints.line sub rfl

theorem ReadsBack.union {indent : Text} (hindent : IsIndent indent) {lines : List Line}
    {ms : List Member} (h : ReadsBack sub lines ms) :
    ReadsBack sub (.openUnion indent :: lines ++ [.closeUnion indent]) [.union ms] := by
  obtain ⟨ts, hprints, hopens⟩ := h
  have hbraces := (((prints_openUnion sub hindent).append sub hprints).append sub
    (prints_closeUnion sub hindent))
  exact ⟨_, hbraces, hopens.union⟩

theorem ReadsBack.struct {indent : Text} (hindent : IsIndent indent) {name : Text}
    (hname : IsName name) {lines : List Line} {ms : List Member} (h : ReadsBack sub lines ms) :
    ReadsBack sub (.openStruct indent :: lines ++ [.closeStruct indent name])
      [.struct ms name] := by
  obtain ⟨ts, hprints, hopens⟩ := h
  have hbraces := (((prints_openStruct sub hindent).append sub hprints).append sub
    (prints_closeStruct sub hindent hname))
  exact ⟨_, hbraces, hopens.struct hname.2.2⟩

mutual

theorem readsBack_structMembers : ∀ (ms : List StructMember) {indent : Text}
    (_ : IsIndent indent) (reservedNames names : List Text),
    (∀ line ∈ structMembers sub ms indent reservedNames names, Readable line) →
      ReadsBack sub (structMembers sub ms indent reservedNames names)
        (printedMembers sub ms reservedNames names)
  | [], _, _, _, _, _ => ReadsBack.nil sub
  | m :: ms, indent, hindent, reservedNames, names, hlines => by
      rw [structMembers] at hlines ⊢
      obtain ⟨hm, hms⟩ := List.forall_mem_append.mp hlines
      exact (readsBack_structMember m hindent reservedNames (addName names m) hm).append sub
        (readsBack_structMembers ms hindent reservedNames (addName names m) hms)

theorem readsBack_structMember : ∀ (m : StructMember) {indent : Text} (_ : IsIndent indent)
    (reservedNames names : List Text),
    (∀ line ∈ structMember sub m indent reservedNames names, Readable line) →
      ReadsBack sub (structMember sub m indent reservedNames names)
        [printedMember sub m reservedNames names]
  | .simple name type, indent, hindent, reservedNames, names, hlines => by
      rw [structMember] at hlines ⊢
      exact readsBack_simple sub hindent (hlines _ List.mem_cons_self)
  | .range name target const, indent, hindent, reservedNames, names, hlines => by
      rw [structMember] at hlines ⊢
      exact readsBack_range sub hindent (hlines _ List.mem_cons_self)
  | .variant name xs, indent, hindent, reservedNames, names, hlines => by
      rw [structMember] at hlines ⊢
      refine (readsBack_structAlternatives xs hindent names ?_).union sub hindent
      intro line hline
      exact hlines line (by simp [hline])

theorem readsBack_structAlternatives : ∀ (xs : List VariantMember) {indent : Text}
    (_ : IsIndent indent) (names : List Text),
    (∀ line ∈ structAlternatives sub xs indent names, Readable line) →
      ReadsBack sub (structAlternatives sub xs indent names) (printedAlternatives sub xs names)
  | [], _, _, _, _ => ReadsBack.nil sub
  | x :: xs, indent, hindent, names, hlines => by
      rw [structAlternatives] at hlines ⊢
      obtain ⟨hx, hxs⟩ := List.forall_mem_append.mp hlines
      exact (readsBack_structAlternative x hindent names hx).append sub
        (readsBack_structAlternatives xs hindent names hxs)

theorem readsBack_structAlternative : ∀ (x : VariantMember) {indent : Text}
    (_ : IsIndent indent) (names : List Text),
    (∀ line ∈ structAlternative sub x indent names, Readable line) →
      ReadsBack sub (structAlternative sub x indent names) (printedAlternative sub x names)
  | .mk none ms, indent, hindent, names, hlines => by
      rw [structAlternative] at hlines ⊢
      exact readsBack_structMembers ms (hindent.append isIndent_lit.1) names [] hlines
  | .mk (some name) ms, indent, hindent, names, hlines => by
      rw [structAlternative] at hlines ⊢
      have hname : IsName name := hlines (.closeStruct indent name) (by simp)
      have hinner := readsBack_structMembers ms (hindent.append isIndent_lit.2) names []
        fun line hline => hlines line (by simp [hline])
      exact hinner.struct sub hindent hname

end

theorem unqualified_printedType {qualified : Bool} {type : AbiType}
    (hleads : qualified = true → LeadsWithName type) :
    unqualified cloudabi (printedType qualified type) = denote type := by
  cases qualified with
  | false => exact unqualified_denote type
  | true => exact unqualified_inside_denote (hleads rfl)

mutual

/-- The qualifiers are all that is different from the ABI. -/
theorem retype_printedMembers : ∀ (ms : List StructMember) {indent : Text}
    {reservedNames names : List Text},
    (∀ line ∈ structMembers sub ms indent reservedNames names, Readable line) →
      retype (unqualified cloudabi) (printedMembers sub ms reservedNames names) = membersOf ms
  | [], _, _, _, _ => rfl
  | m :: ms, _, _, _, hlines => by
      rw [structMembers] at hlines
      obtain ⟨hm, hms⟩ := List.forall_mem_append.mp hlines
      rw [printedMembers, retype, retype_printedMember m hm, retype_printedMembers ms hms,
        membersOf]

theorem retype_printedMember : ∀ (m : StructMember) {indent : Text}
    {reservedNames names : List Text},
    (∀ line ∈ structMember sub m indent reservedNames names, Readable line) →
      retypeMember (unqualified cloudabi) (printedMember sub m reservedNames names) = memberOf m
  | .simple name type, _, reservedNames, _, hlines => by
      rw [structMember] at hlines
      have hline := hlines _ List.mem_cons_self
      rw [printedMember, retypeMember, unqualified_printedType hline.2.2.2]
      rfl
  | .range name target const, _, _, _, _ => by
      rw [printedMember, retypeMember, unqualified_denoteContent]
      rfl
  | .variant _ xs, indent, _, names, hlines => by
      rw [structMember] at hlines
      have hxs : ∀ line ∈ structAlternatives sub xs indent names, Readable line := by
        intro line hline
        exact hlines line (by simp [hline])
      rw [printedMember, retypeMember, retype_printedAlternatives xs hxs, memberOf]

theorem retype_printedAlternatives : ∀ (xs : List VariantMember) {indent : Text}
    {names : List Text},
    (∀ line ∈ structAlternatives sub xs indent names, Readable line) →
      retype (unqualified cloudabi) (printedAlternatives sub xs names) = alternativesOf xs
  | [], _, _, _ => rfl
  | x :: xs, _, _, hlines => by
      rw [structAlternatives] at hlines
      obtain ⟨hx, hxs⟩ := List.forall_mem_append.mp hlines
      rw [printedAlternatives, retype_append, retype_printedAlternative x hx,
        retype_printedAlternatives xs hxs, alternativesOf]

theorem retype_printedAlternative : ∀ (x : VariantMember) {indent : Text} {names : List Text},
    (∀ line ∈ structAlternative sub x indent names, Readable line) →
      retype (unqualified cloudabi) (printedAlternative sub x names) = alternativeOf x
  | .mk none ms, _, _, hlines => by
      rw [structAlternative] at hlines
      rw [printedAlternative, retype_printedMembers ms hlines, alternativeOf]
  | .mk (some name) ms, indent, names, hlines => by
      rw [structAlternative] at hlines
      have hms : ∀ line ∈ structMembers sub ms (indent ++ lit "    ") names [],
          Readable line := by
        intro line hline
        exact hlines line (by simp [hline])
      rw [printedAlternative, retype, retype, retypeMember, retype_printedMembers ms hms,
        alternativeOf]

end

end Members

end CloudabiCpp.Generator.StructReading
