import CloudabiCpp.Generator.StructsHeader

/-!
What a reader of C++ makes of `types.hpp`, from its text: an alias, a scoped
enumeration or a declared struct for each type of the ABI, and for flags the
enumerator `none` and the three operators.
-/

namespace CloudabiCpp.Generator.TypesHeader

open CloudabiCpp.Lib.Lexer
open CloudabiCpp.Lib.Declarations
open CloudabiCpp.Lib.ClassReader
open CloudabiCpp.Lib.Headers
open CloudabiCpp.Lib.Headers.ReadsItem
open CloudabiCpp.Lib.Printing
open CloudabiCpp.Lib.Printing.Printer
open CloudabiCpp.Generator.Abi
open CloudabiCpp.Generator.CppNaming
open CloudabiCpp.Generator.TypeDefs
open CloudabiCpp.Generator.StructReading
open CloudabiCpp.Generator.StructsHeader
open CloudabiCpp.Generator.Completion

section Text

/-- The tokens of a printed item. -/
def lineTokens : TypeLine → List Token
  | .using name cname =>
      [.word usingWord, .word name, .symbol '=', .word cname, .symbol ';']
  | .enumHead name cname =>
      [.word enumWords.1, .word enumWords.2, .word name, .symbol ':', .word cname, .symbol '{']
  | .lineBreak => []
  | .enumerator _ name val => [.word name, .symbol '=', .word val, .symbol ',']
  | .enumFoot => [.symbol '}', .symbol ';']
  | .binaryOperator op type ctype =>
      [.word operatorWords.1, .word type, .word operatorWords.2, .symbol op, .symbol '(',
        .word type, .word ['a'], .symbol ',', .word type, .word ['b'], .symbol ')', .symbol '{',
        .word returnWord, .word type, .symbol '(', .word ctype, .symbol '(', .word ['a'],
        .symbol ')', .symbol op, .word ctype, .symbol '(', .word ['b'], .symbol ')', .symbol ')',
        .symbol ';', .symbol '}']
  | .unaryOperator type ctype =>
      [.word operatorWords.1, .word type, .word operatorWords.2, .symbol '~', .symbol '(',
        .word type, .word ['v'], .symbol ')', .symbol '{', .word returnWord, .word type,
        .symbol '(', .symbol '~', .word ctype, .symbol '(', .word ['v'], .symbol ')', .symbol ')',
        .symbol ';', .symbol '}']
  | .struct name => [.word structWord, .word name, .symbol ';']

/-- The names that are set into the item are words. -/
def Worded : TypeLine → Prop
  | .using name cname | .enumHead name cname => IsWord name ∧ IsWord cname
  | .enumerator _ name val => IsWord name ∧ IsWord val
  | .binaryOperator op type ctype => (op = '|' ∨ op = '&') ∧ IsWord type ∧ IsWord ctype
  | .unaryOperator type ctype => IsWord type ∧ IsWord ctype
  | .struct name => IsWord name
  | .lineBreak | .enumFoot => True

theorem isGap_padding (count : Nat) {gap : List Char} {ts : List Token} (hgap : IsGap gap ts) :
    IsGap (List.replicate count ' ' ++ gap) ts := by
  induction count with
  | zero => exact hgap
  | succ count ih =>
      obtain ⟨hne, -, hends, htokens⟩ := ih
      rw [List.replicate_succ, List.cons_append]
      refine ⟨List.cons_ne_nil _ _, rfl, ?_, htokens⟩
      have hlonger : endsWord ([' '] ++ (List.replicate count ' ' ++ gap)) = false :=
        endsWord_append hends fun hnil => absurd hnil hne
      exact hlonger

theorem spells_binaryOperator {op : Char} (hop : op = '|' ∨ op = '&') {type ctype : Text}
    (htype : IsWord type) (hctype : IsWord ctype) :
    Spells (TypeLine.binaryOperator op type ctype).text
      (lineTokens (.binaryOperator op type ctype)) := by
  have hinline : Spells (lit "inline ") [.word operatorWords.1] := by decide +kernel
  have hoperator : IsGap (lit " operator " ++ [op] ++ lit " (")
      [.word operatorWords.2, .symbol op, .symbol '('] := by
    rcases hop with rfl | rfl <;> decide +kernel
  have hcomma : IsGap (lit " a, ") [.word ['a'], .symbol ','] := by decide +kernel
  have hreturn : IsGap (lit " b) \x7b\n  return ")
      [.word ['b'], .symbol ')', .symbol '{', .word returnWord] := by decide +kernel
  have hopen : IsGap ['('] [.symbol '('] := by decide +kernel
  have hmiddle : IsGap (lit "(a) " ++ [op] ++ [' '])
      [.symbol '(', .word ['a'], .symbol ')', .symbol op] := by
    rcases hop with rfl | rfl <;> decide +kernel
  have hend : IsGap (lit "(b));\n\x7d\n\n") [.symbol '(', .word ['b'], .symbol ')',
      .symbol ')', .symbol ';', .symbol '}'] := by decide +kernel
  have hhead := ((hinline.word htype hoperator).word htype hcomma).word htype hreturn
  have hspells := ((hhead.word htype hopen).word hctype hmiddle).word hctype hend
  simpa [TypeLine.text, lineTokens] using hspells

theorem spells_text : ∀ {line : TypeLine}, Worded line → Spells line.text (lineTokens line)
  | .using name cname, hline => by
      have husing : Spells (lit "using ") [.word usingWord] := by decide +kernel
      have hequal : IsGap (lit " = ") [.symbol '='] := by decide +kernel
      have hend : IsGap (lit ";\n\n") [.symbol ';'] := by decide +kernel
      exact (husing.word hline.1 hequal).word hline.2 hend
  | .enumHead name cname, hline => by
      have henum : Spells (lit "enum class ") [.word enumWords.1, .word enumWords.2] := by
        decide +kernel
      have hcolon : IsGap (lit " : ") [.symbol ':'] := by decide +kernel
      have hopen : IsGap (lit " \x7b") [.symbol '{'] := by decide +kernel
      exact (henum.word hline.1 hcolon).word hline.2 hopen
  | .lineBreak, _ => by decide +kernel
  | .enumerator width name val, hline => by
      have hindent : Spells (lit "  ") [] := by decide +kernel
      have hequal : IsGap (lit " = ") [.symbol '='] := by decide +kernel
      have hcomma : IsGap (lit ",\n") [.symbol ','] := by decide +kernel
      have hpadded := isGap_padding (width - name.length) hequal
      have hspells := (hindent.word hline.1 hpadded).word hline.2 hcomma
      simpa [TypeLine.text, padded, lineTokens] using hspells
  | .enumFoot, _ => by decide +kernel
  | .binaryOperator op type ctype, hline => spells_binaryOperator hline.1 hline.2.1 hline.2.2
  | .unaryOperator type ctype, hline => by
      have hinline : Spells (lit "inline ") [.word operatorWords.1] := by decide +kernel
      have hoperator : IsGap (lit " operator ~ (")
          [.word operatorWords.2, .symbol '~', .symbol '('] := by decide +kernel
      have hreturn : IsGap (lit " v) \x7b\n  return ")
          [.word ['v'], .symbol ')', .symbol '{', .word returnWord] := by decide +kernel
      have hcomplement : IsGap (lit "(~") [.symbol '(', .symbol '~'] := by decide +kernel
      have hend : IsGap (lit "(v));\n\x7d\n\n") [.symbol '(', .word ['v'], .symbol ')',
          .symbol ')', .symbol ';', .symbol '}'] := by decide +kernel
      exact (((hinline.word hline.1 hoperator).word hline.1 hreturn).word hline.1
        hcomplement).word hline.2 hend
  | .struct name, hline => by
      have hstruct : Spells (lit "struct ") [.word structWord] := by decide +kernel
      have hend : IsGap (lit ";\n\n") [.symbol ';'] := by decide +kernel
      exact hstruct.word hline hend

theorem spells_flatMap {lines : List TypeLine} (hlines : ∀ line ∈ lines, Worded line) :
    Spells (lines.flatMap TypeLine.text) (lines.flatMap lineTokens) := by
  induction lines with
  | nil => exact Spells.nil
  | cons line lines ih =>
      obtain ⟨hline, hrest⟩ := List.forall_mem_cons.mp hlines
      exact (spells_text hline).append (ih hrest)

end Text

section Items

variable (cnaming : CNaming)

def operatorItems (type ctype : Text) : List Item :=
  [.operator ⟨type, '|', [(type, ['a']), (type, ['b'])], binaryBody type ctype '|' ['a'] ['b']⟩,
    .operator ⟨type, '&', [(type, ['a']), (type, ['b'])], binaryBody type ctype '&' ['a'] ['b']⟩,
    .operator ⟨type, '~', [(type, ['v'])], complementBody type ctype ['v']⟩]

/-- The enumerators with their values. -/
def enumeratorsOf (type : IntLikeType) : List (Word × Word) :=
  (if type.isFlags then [(lit "none", ['0'])] else []) ++
    type.values.map fun v => (spelled v, cnaming.cvalname type v)

/-- What is declared for a type. -/
def typeItems : NamedType → List Item
  | .aliasType name => [.typeAlias (spelled name) (.named false [cnaming.ctypename name])]
  | .intLikeType type =>
      .enumeration (spelled type.name) (cnaming.ctypename type.name) (enumeratorsOf cnaming type) ::
        if type.isFlags then operatorItems (spelled type.name) (cnaming.ctypename type.name) else []
  | .structType type => [.declaration (spelled type.name)]

theorem declaredTypes_typeItems (type : NamedType) :
    (typeItems cnaming type).filterMap Item.declaredType = [spelled type.name] := by
  cases type with
  | aliasType name => rfl
  | structType type => rfl
  | intLikeType t =>
      rw [typeItems]
      split <;> rfl

/-- The names that the printed operators give their operands. -/
def operandNames : List Word := [['a'], ['b'], ['v']]

/-- No operand hides the type of the flags or that of their numbers. -/
def NotHidden (t : IntLikeType) : Prop :=
  spelled t.name ∉ operandNames ∧ cnaming.ctypename t.name ∉ operandNames

instance (t : IntLikeType) : Decidable (NotHidden cnaming t) :=
  inferInstanceAs (Decidable (_ ∧ _))

/-- The names that are printed for a type are names in C++; flags have values, and
their operands do not hide their type. -/
structure TypeReadable (type : NamedType) : Prop where
  spellable : Spellable type
  hasValues : HasValues type
  spelled : IsName (spelled type.name)
  cname : IsName (cnaming.ctypename type.name)
  values : ∀ t, type = .intLikeType t →
    ∀ v ∈ t.values, IsName (CppNaming.spelled v) ∧ IsName (cnaming.cvalname t v)
  operands : ∀ t, type = .intLikeType t → t.isFlags = true → NotHidden cnaming t

theorem worded_definitionLines {type : NamedType} (h : TypeReadable cnaming type) (width : Nat) :
    ∀ line ∈ definitionLines cnaming width type, Worded line := by
  have hspelled := isWord_of_isName h.spelled
  have hcname := isWord_of_isName h.cname
  cases type with
  | aliasType name => exact List.forall_mem_singleton.mpr ⟨hspelled, hcname⟩
  | structType type => exact List.forall_mem_singleton.mpr hspelled
  | intLikeType type =>
      have hnone : IsWord (lit "none") ∧ IsWord ['0'] := by decide +kernel
      have hvalues : ∀ line ∈ enumerators cnaming width type, Worded line := by
        intro line hline
        obtain ⟨v, hv, rfl⟩ := List.mem_map.mp hline
        obtain ⟨hname, hval⟩ := h.values type rfl v hv
        exact ⟨isWord_of_isName hname, isWord_of_isName hval⟩
      have hnoFlags : ∀ line ∈ noFlags width type, Worded line := by
        unfold noFlags
        split
        · exact List.forall_mem_singleton.mpr hnone
        · exact List.forall_mem_nil _
      have hoperators : ∀ line ∈ operators (spelled type.name) (cnaming.ctypename type.name) type,
          Worded line := by
        unfold operators
        split
        · simpa [Worded] using ⟨hspelled, hcname⟩
        · exact List.forall_mem_nil _
      have hbreak : ∀ line ∈ (if HasRows type then [TypeLine.lineBreak] else []), Worded line := by
        split
        · exact List.forall_mem_singleton.mpr trivial
        · exact List.forall_mem_nil _
      refine List.forall_mem_append.mpr ⟨List.forall_mem_cons.mpr ⟨⟨hspelled, hcname⟩, ?_⟩,
        List.forall_mem_cons.mpr ⟨trivial, hoperators⟩⟩
      exact List.forall_mem_append.mpr ⟨List.forall_mem_append.mpr ⟨hbreak, hnoFlags⟩, hvalues⟩

theorem readsTypeId_word {name : Word} (hname : IsName name) :
    ReadsTypeId [.word name] (.named false [name]) := by
  have hidentifier : ∀ w ∈ [name], isIdentifier w = true := by simpa using hname.2.2
  have hbase := ReadsBase.named (List.cons_ne_nil _ _) hidentifier
  have hread := ReadsDeclaration.declare hbase ReadsDirect.nothing.reads 0
  intro rest hrest fuel hfuel
  exact eitherDeclaration_of_plain (hread rest hrest fuel hfuel)

theorem isIdentifier_operandNames : ∀ w ∈ operandNames, isIdentifier w = true := by
  decide +kernel

theorem heads_operators {name cname : Text} (hname : isIdentifier name = true)
    (hcname : isIdentifier cname = true) {type : IntLikeType}
    (hoperands : type.isFlags = true → name ∉ operandNames) :
    Heads ((operators name cname type).flatMap lineTokens)
      (if type.isFlags then operatorItems name cname else []) := by
  have ha := isIdentifier_operandNames ['a'] (by decide)
  have hb := isIdentifier_operandNames ['b'] (by decide)
  have hv := isIdentifier_operandNames ['v'] (by decide)
  have hab : ['b'] ≠ ['a'] := by decide
  unfold operators
  split
  · rename_i hisFlags
    have hne : name ≠ ['a'] := by
      rintro rfl
      exact hoperands hisFlags List.mem_cons_self
    have hor := Heads.one (binaryOperator (Or.inl rfl) hname hcname ha hb hne hab)
    have hand := Heads.one (binaryOperator (Or.inr rfl) hname hcname ha hb hne hab)
    have hnot := Heads.one (unaryOperator hname hcname hv)
    exact hor.append (hand.append hnot)
  · exact Heads.nil

theorem enumeratorTokens_eq (width : Nat) (type : IntLikeType) :
    (noFlags width type ++ enumerators cnaming width type).flatMap lineTokens =
      enumeratorTokens (enumeratorsOf cnaming type) := by
  rw [enumeratorTokens, enumeratorsOf, List.flatMap_append, List.flatMap_append, enumerators,
    List.flatMap_map, List.flatMap_map, noFlags]
  split <;> rfl

theorem isSpelled_enumeration {t : IntLikeType} (h : TypeReadable cnaming (.intLikeType t)) :
    (Item.enumeration (spelled t.name) (cnaming.ctypename t.name)
      (enumeratorsOf cnaming t)).isSpelled = true := by
  have hnone : isIdentifier (lit "none") = true ∧ (number ['0']).isSome = true := by
    decide +kernel
  have hvalues : ∀ value ∈ enumeratorsOf cnaming t,
      (isIdentifier value.1 && (isIdentifier value.2 || (number value.2).isSome)) = true := by
    refine List.forall_mem_append.mpr ⟨?_, ?_⟩
    · split
      · exact List.forall_mem_singleton.mpr (by simp [hnone])
      · exact List.forall_mem_nil _
    · refine List.forall_mem_map.mpr fun v hv => ?_
      obtain ⟨hname, hval⟩ := h.values t rfl v hv
      simp [hname.2.2, hval.2.2]
  have hname : isIdentifier (spelled t.name) = true := h.spelled.2.2
  have hcname : isIdentifier (cnaming.ctypename t.name) = true := h.cname.2.2
  rw [Item.isSpelled, hname, hcname, Bool.true_and, Bool.true_and, List.all_eq_true]
  exact hvalues

theorem heads_definitionLines {type : NamedType} (h : TypeReadable cnaming type) (width : Nat) :
    Heads ((definitionLines cnaming width type).flatMap lineTokens) (typeItems cnaming type) := by
  cases type with
  | aliasType name =>
      exact Heads.one (ReadsItem.typeAlias (readsTypeId_word h.cname) h.spelled.2.2)
  | structType type => exact Heads.one (ReadsItem.declaration h.spelled.2.2)
  | intLikeType type =>
      have hbreak :
          (if HasRows type then [TypeLine.lineBreak] else []).flatMap lineTokens = [] := by
        split <;> rfl
      have henum := Heads.one (ReadsItem.enumeration (isSpelled_enumeration cnaming h))
      have hname : isIdentifier (spelled type.name) = true := h.spelled.2.2
      have hcname : isIdentifier (cnaming.ctypename type.name) = true := h.cname.2.2
      have hall := henum.append (heads_operators hname hcname
        fun hisFlags => (h.operands type rfl hisFlags).1)
      rw [← enumeratorTokens_eq cnaming width] at hall
      simpa [definitionLines, intLikeLines, hbreak, lineTokens, typeItems] using hall

variable (skip : List Text)

theorem generateType_yields_readable {type : NamedType} (hname : type.name ≠ [])
    (hreadable : type.name ∉ skip → TypeReadable cnaming type) :
    ∃ width, (generateType cnaming skip type).Yields
      (if type.name ∉ skip then definitionLines cnaming width type else []) () := by
  by_cases hskip : type.name ∈ skip
  · have hspelled := @yields_lift TypeLine _ _ _ _ (mangle_eq_spelled hname)
    exact ⟨0, hspelled.bind (yields_when fun hnot => absurd hskip hnot)⟩
  · have h := hreadable hskip
    exact generateType_yields cnaming skip h.spellable fun _ => h.hasValues

theorem heads_output {types : List NamedType} (hnames : ∀ type ∈ types, type.name ≠ [])
    (hreadable : ∀ type ∈ types, type.name ∉ skip → TypeReadable cnaming type) :
    let printed := types.forM (generateType cnaming skip)
    printed.Completes ∧
      Heads (tokens (printed.output.flatMap TypeLine.text))
        ((types.filter (·.name ∉ skip)).flatMap (typeItems cnaming)) := by
  have hyields : ∀ type ∈ types, ∃ width, (generateType cnaming skip type).Yields
      (if type.name ∉ skip then definitionLines cnaming width type else []) () :=
    fun type htype => generateType_yields_readable cnaming skip (hnames type htype)
      (hreadable type htype)
  choose! width hwidth using hyields
  have hforM := yields_forM_filter hwidth
  have hkept : ∀ type ∈ types.filter (·.name ∉ skip), TypeReadable cnaming type := by
    intro type htype
    obtain ⟨hmem, hskip⟩ := List.mem_filter.mp htype
    exact hreadable type hmem (of_decide_eq_true hskip)
  have hworded : ∀ line ∈ (types.filter (·.name ∉ skip)).flatMap fun type =>
      definitionLines cnaming (width type) type, Worded line := by
    intro line hline
    obtain ⟨type, htype, hmem⟩ := List.mem_flatMap.mp hline
    exact worded_definitionLines cnaming (hkept type htype) (width type) line hmem
  refine ⟨hforM.completes, ?_⟩
  rw [hforM.output, (spells_flatMap hworded).2, List.flatMap_assoc]
  exact Heads.flatMap fun type htype =>
    heads_definitionLines cnaming (hkept type htype) (width type)

/-- Nothing is left of the types that are skipped. -/
theorem typesHeader_reads_back {types : List NamedType} (hnames : ∀ type ∈ types, type.name ≠ [])
    (hreadable : ∀ type ∈ types, type.name ∉ skip → TypeReadable cnaming type) :
    (types.forM (generateType cnaming skip)).Completes ∧
      readHeader ((types.forM (generateType cnaming skip)).output.flatMap TypeLine.text) =
        some ((types.filter (·.name ∉ skip)).flatMap (typeItems cnaming)) := by
  obtain ⟨hcompletes, hheads⟩ := heads_output cnaming skip hnames hreadable
  exact ⟨hcompletes, hheads.readHeader⟩

/-- An alias, flags and a struct, as `types.hpp` shows them. -/
def someTypes : List NamedType :=
  [.aliasType (lit "backlog"), .intLikeType mflags, .structType event]

theorem typeReadable_someTypes : ∀ type ∈ someTypes, TypeReadable mflagsNaming type := by
  have halias : TypeReadable mflagsNaming (.aliasType (lit "backlog")) :=
    ⟨by decide +kernel, trivial, by decide +kernel, by decide +kernel, fun _ => nofun,
      fun _ => nofun⟩
  have hflags : TypeReadable mflagsNaming (.intLikeType mflags) := by
    refine ⟨by decide +kernel, by decide +kernel, by decide +kernel, by decide +kernel, ?_, ?_⟩
    · rintro _ ⟨⟩
      decide +kernel
    · rintro _ ⟨⟩ -
      decide +kernel
  have hstruct : TypeReadable mflagsNaming (.structType event) :=
    ⟨by decide +kernel, trivial, by decide +kernel, by decide +kernel, fun _ => nofun,
      fun _ => nofun⟩
  refine List.forall_mem_cons.mpr ⟨halias, List.forall_mem_cons.mpr ⟨hflags, ?_⟩⟩
  exact List.forall_mem_singleton.mpr hstruct

theorem typesHeader_reads_back_mflags :
    (someTypes.forM (generateType mflagsNaming [lit "lookup"])).Completes ∧
      readHeader ((someTypes.forM (generateType mflagsNaming [lit "lookup"])).output.flatMap
          TypeLine.text) =
        some ((someTypes.filter (·.name ∉ [lit "lookup"])).flatMap (typeItems mflagsNaming)) :=
  typesHeader_reads_back mflagsNaming [lit "lookup"]
    (fun type htype => (typeReadable_someTypes type htype).spellable.name)
    (fun type htype _ => typeReadable_someTypes type htype)

end Items

end CloudabiCpp.Generator.TypesHeader
