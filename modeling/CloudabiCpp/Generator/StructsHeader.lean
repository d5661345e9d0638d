import CloudabiCpp.Lib.Headers
import CloudabiCpp.Generator.Completion
import CloudabiCpp.Generator.StructReading

/-!
What a reader of C++ makes of `structs.hpp`, from its text: the structs of the
ABI, each with the assertions that are printed for it.
-/

namespace CloudabiCpp.Generator.StructsHeader

open CloudabiCpp.Lib.Lexer
open CloudabiCpp.Lib.Declarations
open CloudabiCpp.Lib.Aggregates
open CloudabiCpp.Lib.ClassReader
open CloudabiCpp.Lib.Headers
open CloudabiCpp.Lib.Printing
open CloudabiCpp.Lib.Printing.Printer
open CloudabiCpp.Generator.Abi
open CloudabiCpp.Generator.CppNaming
open CloudabiCpp.Generator.StructDefs
open CloudabiCpp.Generator.OffsetAsserts
open CloudabiCpp.Generator.NameLookup
open CloudabiCpp.Generator.StructReading
open CloudabiCpp.Generator.Completion

section StructDefs

variable (sub : Submodule)

/-- The names on the way to the member, and its own, are names in C++. -/
def LegallyNamed (leaf : Leaf) : Prop :=
  IsName leaf.name ∧ ∀ name, some name ∈ leaf.alternatives → IsName name

theorem LegallyNamed.under {leaf : Leaf} (h : LegallyNamed leaf) {alternative : Option Text}
    (halternative : ∀ name, alternative = some name → IsName name) :
    LegallyNamed (leaf.under alternative) := by
  refine ⟨h.1, fun name hname => ?_⟩
  rcases List.mem_cons.mp hname with heq | hinner
  · exact halternative name heq.symm
  · exact h.2 name hinner

mutual

theorem legallyNamed_structMembers : ∀ (ms : List StructMember) {indent : Text}
    {reservedNames names : List Text},
    (∀ line ∈ structMembers sub ms indent reservedNames names, Readable line) →
      ∀ leaf ∈ leaves ms, LegallyNamed leaf
  | [], _, _, _, _, _, hleaf => absurd hleaf List.not_mem_nil
  | m :: ms, _, _, _, hlines, leaf, hleaf => by
      rw [structMembers] at hlines
      obtain ⟨hm, hms⟩ := List.forall_mem_append.mp hlines
      rcases List.mem_append.mp hleaf with hfirst | hrest
      · exact legallyNamed_structMember m hm leaf hfirst
      · exact legallyNamed_structMembers ms hms leaf hrest

theorem legallyNamed_structMember : ∀ (m : StructMember) {indent : Text}
    {reservedNames names : List Text},
    (∀ line ∈ structMember sub m indent reservedNames names, Readable line) →
      ∀ leaf ∈ memberLeaves m, LegallyNamed leaf
  | .simple name type, _, _, _, hlines, leaf, hleaf => by
      rw [structMember] at hlines
      obtain rfl := List.mem_singleton.mp hleaf
      exact ⟨(hlines _ List.mem_cons_self).1, fun _ hname => absurd hname List.not_mem_nil⟩
  | .range name target const, _, _, _, hlines, leaf, hleaf => by
      rw [structMember] at hlines
      obtain rfl := List.mem_singleton.mp hleaf
      exact ⟨(hlines _ List.mem_cons_self).1, fun _ hname => absurd hname List.not_mem_nil⟩
  | .variant name xs, indent, _, names, hlines, leaf, hleaf => by
      rw [structMember] at hlines
      have hxs : ∀ line ∈ structAlternatives sub xs indent names, Readable line := by
        intro line hline
        exact hlines line (List.mem_append_left _ (List.mem_cons_of_mem _ hline))
      exact legallyNamed_structAlternatives xs hxs leaf hleaf

theorem legallyNamed_structAlternatives : ∀ (xs : List VariantMember) {indent : Text}
    {names : List Text},
    (∀ line ∈ structAlternatives sub xs indent names, Readable line) →
      ∀ leaf ∈ alternativesLeaves xs, LegallyNamed leaf
  | [], _, _, _, _, hleaf => absurd hleaf List.not_mem_nil
  | x :: xs, _, _, hlines, leaf, hleaf => by
      rw [structAlternatives] at hlines
      obtain ⟨hx, hxs⟩ := List.forall_mem_append.mp hlines
      rcases List.mem_append.mp hleaf with hfirst | hrest
      · exact legallyNamed_structAlternative x hx leaf hfirst
      · exact legallyNamed_structAlternatives xs hxs leaf hrest

theorem legallyNamed_structAlternative : ∀ (x : VariantMember) {indent : Text}
    {names : List Text},
    (∀ line ∈ structAlternative sub x indent names, Readable line) →
      ∀ leaf ∈ alternativeLeaves x, LegallyNamed leaf
  | .mk none ms, _, _, hlines, leaf, hleaf => by
      rw [structAlternative] at hlines
      obtain ⟨inner, hinner, rfl⟩ := List.mem_map.mp hleaf
      refine (legallyNamed_structMembers ms hlines inner hinner).under ?_
      rintro name hname
      cases hname
  | .mk (some name) ms, indent, names, hlines, leaf, hleaf => by
      rw [structAlternative] at hlines
      obtain ⟨inner, hinner, rfl⟩ := List.mem_map.mp hleaf
      have hms : ∀ line ∈ structMembers sub ms (indent ++ lit "    ") names [],
          Readable line := by
        intro line hline
        exact hlines line (List.mem_append_left _ (List.mem_cons_of_mem _ hline))
      refine (legallyNamed_structMembers ms hms inner hinner).under ?_
      rintro _ ⟨⟩
      exact hlines (.closeStruct indent name) (List.mem_append_right _ List.mem_cons_self)

end

/-- The words of the asserted path of a member. -/
def assertedWords (leaf : Leaf) : List Word :=
  leaf.alternatives.getLast?.join.toList ++ [leaf.name]

def assertion (kind : String) (name cname : Text) (path : List Word) : Item :=
  .assertion ⟨lit kind, name, path⟩ ⟨lit kind, cname, path⟩

/-- What is asserted of a struct. -/
def structAssertions (type : StructType) : List Item :=
  let name := spelled type.name
  let cname := sub.ctypename type.name
  assertion "sizeof" name cname [] :: assertion "alignof" name cname [] ::
    (leaves type.members).map fun leaf => assertion "offsetof" name cname (assertedWords leaf)

/-- What is declared and asserted for a struct. -/
def structItems (type : StructType) : List Item :=
  .struct (spelled type.name) (membersOf type.members) :: structAssertions sub type

/-- These items as they are printed, qualifiers included. -/
def printedStruct (type : StructType) : List Item :=
  .struct (spelled type.name) (printedMembers sub type.members [] []) :: structAssertions sub type

/-- What stands between the braces of a measure. -/
def operandTokens (struct : Word) : List Word → List Token
  | [] => [.word struct]
  | w :: path => [.word struct, .symbol ',', .word w] ++ selectionTokens path

theorem measureTokens_eq (kind struct : Word) (path : List Word) :
    measureTokens ⟨kind, struct, path⟩ =
      .word kind :: .symbol '(' :: operandTokens struct path ++ [.symbol ')'] := by
  cases path with
  | nil => rfl
  | cons w path => simp [measureTokens, operandTokens]

theorem tokens_assertText {kind : String} (hkind : IsWord (lit kind)) (left right : Text) :
    tokens (assertText kind left right) =
      .word assertWord :: .symbol '(' :: (.word (lit kind) :: .symbol '(' :: tokens left ++
        [.symbol ')']) ++ .symbol '=' :: .symbol '=' :: (.word (lit kind) :: .symbol '(' ::
          tokens right ++ [.symbol ')']) ++
            [.symbol ',', .symbol '"', .symbol '"', .symbol ')', .symbol ';'] := by
  have hopen : tokens (lit "static_assert(") = [.word assertWord, .symbol '('] ∧
      endsWord (lit "static_assert(") = false := by decide +kernel
  have hequal : lit ") == " = [')', ' ', '=', '=', ' '] := by decide +kernel
  have hclose : lit "), \"\");" = [')', ',', ' ', '"', '"', ')', ';'] := by decide +kernel
  have hoperand : ∀ operand rest : Text, tokens (lit kind ++ (['('] ++ (operand ++ ')' :: rest))) =
      .word (lit kind) :: .symbol '(' :: tokens operand ++ .symbol ')' :: tokens rest := by
    intro operand rest
    rw [tokens_append (Or.inr rfl), tokens_word hkind, tokens_append (Or.inl rfl),
      tokens_append (Or.inr rfl)]
    rfl
  have hmiddle : ∀ rest : Text, tokens (' ' :: '=' :: '=' :: ' ' :: rest) =
      .symbol '=' :: .symbol '=' :: tokens rest := fun _ => rfl
  have hleft := hoperand left (' ' :: '=' :: '=' :: ' ' :: (lit kind ++ (['('] ++
    (right ++ ')' :: [',', ' ', '"', '"', ')', ';']))))
  have hright := hoperand right [',', ' ', '"', '"', ')', ';']
  simp only [List.cons_append, List.nil_append] at hleft hright
  rw [assertText, hequal, hclose]
  simp only [List.append_assoc, List.cons_append, List.nil_append]
  rw [tokens_append (Or.inl hopen.2), hopen.1, hleft, hmiddle, hright]
  simp only [List.cons_append, List.nil_append]
  rfl

theorem tokens_assertedPath {leaf : Leaf} (hleaf : LegallyNamed leaf) {struct : Text}
    (hstruct : IsName struct) :
    tokens (struct ++ lit ", " ++ leaf.assertedPath []) =
      operandTokens struct (assertedWords leaf) := by
  have hcomma : IsGap (lit ", ") [.symbol ','] := by decide +kernel
  have hdot : IsGap ['.'] [.symbol '.'] := by decide +kernel
  obtain ⟨hname, halternatives⟩ := hleaf
  have hcommaed := Spells.nil.word (isWord_of_isName hstruct) hcomma
  rw [List.nil_append, List.nil_append] at hcommaed
  rw [tokens_append (Or.inl hcommaed.1), hcommaed.2, Leaf.assertedPath, assertedWords]
  rcases hlast : leaf.alternatives.getLast? with _ | _ | outer
  · exact congrArg ([.word struct, .symbol ','] ++ ·) (tokens_name hname)
  · exact congrArg ([.word struct, .symbol ','] ++ ·) (tokens_name hname)
  · have houter := halternatives outer (List.mem_of_getLast? hlast)
    have hdotted := Spells.nil.word (isWord_of_isName houter) hdot
    rw [List.nil_append, List.nil_append] at hdotted
    rw [Option.elim_some, pathOf, Option.elim_some, tokens_append (Or.inl hdotted.1), hdotted.2,
      tokens_name hname]
    rfl

/-- The text of the lines is read as these items. -/
def ReadsAsItems (lines : List Line) (is : List Item) : Prop :=
  ∃ ts, Prints sub lines ts ∧ Heads ts is

theorem ReadsAsItems.nil : ReadsAsItems sub [] [] :=
  ⟨[], Prints.nil sub, Heads.nil⟩

theorem ReadsAsItems.append {lines more : List Line} {is mems : List Item}
    (h : ReadsAsItems sub lines is) (hmore : ReadsAsItems sub more mems) :
    ReadsAsItems sub (lines ++ more) (is ++ mems) := by
  obtain ⟨ts, hprints, hheads⟩ := h
  obtain ⟨us, hprints', hheads'⟩ := hmore
  exact ⟨ts ++ us, hprints.append sub hprints', hheads.append hheads'⟩

theorem readsAsItems_flatMap {α : Type} {xs : List α} {lines : α → List Line}
    {is : α → List Item} (hxs : ∀ x ∈ xs, ReadsAsItems sub (lines x) (is x)) :
    ReadsAsItems sub (xs.flatMap lines) (xs.flatMap is) := by
  induction xs with
  | nil => exact ReadsAsItems.nil sub
  | cons x xs ih =>
      exact (hxs x List.mem_cons_self).append sub
        (ih fun y hy => hxs y (List.mem_cons_of_mem x hy))

theorem readsAsItems_blank : ReadsAsItems sub [.blank] [] := by
  have hprints : Prints sub [.blank] (tokens []) := Prints.line sub rfl
  exact ⟨[], hprints, Heads.nil⟩

/-- The word measures a struct, or a place in it if there is a path. -/
def MeasuredBy (kind : Word) (path : List Word) : Prop :=
  (if path = [] then kind = sizeofWord || kind = alignofWord else kind = offsetofWord) = true

theorem isSpelled_measure {kind struct : Word} {path : List Word} (hkind : MeasuredBy kind path)
    (hstruct : IsName struct) (hpath : ∀ w ∈ path, IsName w) :
    (⟨kind, struct, path⟩ : Measure).isSpelled = true := by
  have hwords : ((struct :: path).all isIdentifier) = true := by
    rw [List.all_eq_true]
    exact List.forall_mem_cons.mpr ⟨hstruct.2.2, fun w hw => (hpath w hw).2.2⟩
  rw [Measure.isSpelled, hwords, Bool.true_and]
  exact hkind

theorem readsAsItems_assertion {line : Line} {kind : String} (hkind : IsWord (lit kind))
    {left right : Text} (hline : line.text sub = .ok (assertText kind left right))
    {name cname : Text} {path : List Word} (hmeasure : MeasuredBy (lit kind) path)
    (hname : IsName name) (hcname : IsName cname) (hpath : ∀ w ∈ path, IsName w)
    (hleft : tokens left = operandTokens name path)
    (hright : tokens right = operandTokens cname path) :
    ReadsAsItems sub [line] [assertion kind name cname path] := by
  have hread := Heads.one (ReadsItem.assertion (isSpelled_measure hmeasure hname hpath)
    (isSpelled_measure hmeasure hcname hpath))
  have hprints := Prints.line sub hline
  rw [tokens_assertText hkind, hleft, hright, ← measureTokens_eq, ← measureTokens_eq] at hprints
  exact ⟨_, hprints, hread⟩

/-- The names that the lines of a struct are made of are names in C++, and its
member types can be written down. -/
structure StructReadable (type : StructType) : Prop where
  name : type.name ≠ []
  spelled : IsName (spelled type.name)
  cname : IsName (sub.ctypename type.name)
  members : ∀ line ∈ generateStructMembers sub type (lit "  ") [], Readable line

theorem isWord_measures :
    IsWord (lit "sizeof") ∧ IsWord (lit "alignof") ∧ IsWord (lit "offsetof") := by
  decide +kernel

theorem measuredBy_sizes :
    MeasuredBy (lit "sizeof") [] ∧ MeasuredBy (lit "alignof") [] := by
  unfold MeasuredBy
  decide +kernel

theorem measuredBy_offsetof {path : List Word} (hpath : path ≠ []) :
    MeasuredBy (lit "offsetof") path := by
  have hoffsetof : lit "offsetof" = offsetofWord := by decide +kernel
  rw [MeasuredBy, if_neg hpath, hoffsetof]
  exact decide_eq_true rfl

theorem assertedWords_names {leaf : Leaf} (hleaf : LegallyNamed leaf) :
    ∀ w ∈ assertedWords leaf, IsName w := by
  obtain ⟨hname, halternatives⟩ := hleaf
  have hlast := List.forall_mem_singleton.mpr hname
  refine List.forall_mem_append.mpr ⟨fun w hw => halternatives w ?_, hlast⟩
  rw [Option.mem_toList, Option.join_eq_some_iff] at hw
  exact List.mem_of_getLast? hw

theorem readsAsItems_generateStructAsserts {type : StructType} (h : StructReadable sub type) :
    ReadsAsItems sub (generateStructAsserts type) (structAssertions sub type) := by
  obtain ⟨hsizeof, halignof, hoffsetof⟩ := isWord_measures
  have hmangle := mangle_eq_spelled h.name
  have hlegal := legallyNamed_structMembers sub type.members h.members
  have hnone : ∀ struct : Text, IsName struct → tokens struct = operandTokens struct [] :=
    fun _ hstruct => tokens_name hstruct
  have hwhole : ReadsAsItems sub [.assertSizeof type.name]
      [assertion "sizeof" (spelled type.name) (sub.ctypename type.name) []] := by
    refine readsAsItems_assertion sub hsizeof ?_ measuredBy_sizes.1 h.spelled h.cname
      (List.forall_mem_nil _) (hnone _ h.spelled) (hnone _ h.cname)
    rw [Line.text, hmangle]
    rfl
  have halign : ReadsAsItems sub [.assertAlignof type.name]
      [assertion "alignof" (spelled type.name) (sub.ctypename type.name) []] := by
    refine readsAsItems_assertion sub halignof ?_ measuredBy_sizes.2 h.spelled h.cname
      (List.forall_mem_nil _) (hnone _ h.spelled) (hnone _ h.cname)
    rw [Line.text, hmangle]
    rfl
  have hoffset : ∀ leaf ∈ leaves type.members,
      ReadsAsItems sub [leaf.assertLine type.name []]
        [assertion "offsetof" (spelled type.name) (sub.ctypename type.name)
          (assertedWords leaf)] := by
    intro leaf hleaf
    have hne : assertedWords leaf ≠ [] :=
      List.append_ne_nil_of_right_ne_nil _ (List.cons_ne_nil _ _)
    refine readsAsItems_assertion sub hoffsetof ?_ (measuredBy_offsetof hne) h.spelled h.cname
      (assertedWords_names (hlegal leaf hleaf)) (tokens_assertedPath (hlegal leaf hleaf) h.spelled)
      (tokens_assertedPath (hlegal leaf hleaf) h.cname)
    rw [Leaf.assertLine, Line.text, hmangle]
    rfl
  have hoffsets := readsAsItems_flatMap sub hoffset
  rw [← List.map_eq_flatMap, ← List.map_eq_flatMap] at hoffsets
  rw [generateStructAsserts_eq]
  exact hwhole.append sub (halign.append sub hoffsets)

theorem prints_structHead {type : StructType} (h : StructReadable sub type) :
    Prints sub [.structHead type.name]
      [.word structWord, .word (spelled type.name), .symbol '{'] := by
  have htokens : tokens (lit "struct ") = [.word structWord] ∧ endsWord (lit "struct ") = false ∧
      tokens (lit " \x7b") = [.symbol '{'] ∧ startsWord (lit " \x7b") = false := by decide +kernel
  have hline : (Line.structHead type.name).text sub =
      .ok (lit "struct " ++ spelled type.name ++ lit " \x7b") := by
    rw [Line.text, mangle_eq_spelled h.name]
    rfl
  have hprints := Prints.line sub hline
  rwa [tokens_append (Or.inr htokens.2.2.2), tokens_append (Or.inl htokens.2.1), htokens.1,
    htokens.2.2.1, tokens_name h.spelled] at hprints

theorem prints_structFoot : Prints sub [.structFoot] [.symbol '}', .symbol ';'] := by
  have htokens : tokens (lit "\x7d;") = [.symbol '}', .symbol ';'] := by decide +kernel
  rw [← htokens]
  exact Prints.line sub rfl

theorem readsAsItems_generateStruct {type : StructType} (h : StructReadable sub type) :
    ReadsAsItems sub (generateStruct sub type) (printedStruct sub type) := by
  obtain ⟨ts, hmembers, hopens⟩ :=
    readsBack_structMembers sub type.members isIndent_lit.1 [] [] h.members
  have hprints := ((prints_structHead sub h).append sub hmembers).append sub
    (prints_structFoot sub)
  have hheads := Heads.one (ReadsItem.struct hopens h.spelled.2.2)
  have hstruct : ReadsAsItems sub
      (.structHead type.name :: generateStructMembers sub type (lit "  ") [] ++ [.structFoot])
      [.struct (spelled type.name) (printedMembers sub type.members [] [])] :=
    ⟨_, hprints, hheads⟩
  have hasserts := readsAsItems_generateStructAsserts sub h
  have hall := (hstruct.append sub hasserts).append sub (readsAsItems_blank sub)
  simpa [generateStruct, printedStruct] using hall

theorem retype_printedStruct {type : StructType} (h : StructReadable sub type) :
    (printedStruct sub type).map (Item.retype (unqualified cloudabi)) = structItems sub type := by
  have hassertions : (structAssertions sub type).map (Item.retype (unqualified cloudabi)) =
      structAssertions sub type := by
    simp only [structAssertions, List.map_cons, List.map_map]
    rfl
  rw [printedStruct, List.map_cons, hassertions, Item.retype,
    retype_printedMembers sub type.members h.members]
  rfl

theorem printLine_yields {lines : List Line} {is : List Item} (h : ReadsAsItems sub lines is) :
    (lines.forM (printLine sub)).Yields lines () := by
  obtain ⟨ts, ⟨text, htext, -⟩, -⟩ := h
  obtain ⟨texts, htexts, -⟩ := map_eq_ok htext
  have hlines : ∀ line ∈ lines, (printLine sub line).Yields [id line] () := by
    intro line hline
    obtain ⟨lineText, hlineText⟩ := exists_ok_of_mapM htexts line hline
    exact (yields_lift hlineText).bind (yields_print line)
  have hforM := yields_forM hlines
  rwa [List.map_id] at hforM

/-- What is declared for a type. -/
def headerItems : NamedType → List Item
  | .structType type => structItems sub type
  | _ => []

def printedItems : NamedType → List Item
  | .structType type => printedStruct sub type
  | _ => []

theorem generateType_reads (skip : List Text) {type : NamedType}
    (hreadable : ∀ t, type = .structType t → StructReadable sub t) :
    (generateType sub skip type).Yields (if type.name ∉ skip then structLines sub type else []) () ∧
      ReadsAsItems sub (structLines sub type) (printedItems sub type) := by
  cases type with
  | aliasType name => exact ⟨yields_when fun _ => yields_pure (), ReadsAsItems.nil sub⟩
  | intLikeType type => exact ⟨yields_when fun _ => yields_pure (), ReadsAsItems.nil sub⟩
  | structType type =>
      have hread := readsAsItems_generateStruct sub (hreadable type rfl)
      exact ⟨yields_when fun _ => printLine_yields sub hread, hread⟩

theorem readsAsItems_output (skip : List Text) {types : List NamedType}
    (hreadable : ∀ t, .structType t ∈ types → t.name ∉ skip → StructReadable sub t) :
    (types.forM (generateType sub skip)).Completes ∧
      ReadsAsItems sub (types.forM (generateType sub skip)).output
        ((types.filter (·.name ∉ skip)).flatMap (printedItems sub)) := by
  have hkept : ∀ type ∈ types, type.name ∉ skip →
      ∀ t, type = .structType t → StructReadable sub t := by
    rintro _ htype hskip t rfl
    exact hreadable t htype hskip
  have hyields : ∀ type ∈ types, (generateType sub skip type).Yields
      (if type.name ∉ skip then structLines sub type else []) () := by
    intro type htype
    by_cases hskip : type.name ∈ skip
    · exact yields_when fun hnot => absurd hskip hnot
    · exact (generateType_reads sub skip (hkept type htype hskip)).1
  have hforM := yields_forM_filter hyields
  have hreads : ∀ type ∈ types.filter (·.name ∉ skip),
      ReadsAsItems sub (structLines sub type) (printedItems sub type) := by
    intro type htype
    obtain ⟨hmem, hskip⟩ := List.mem_filter.mp htype
    exact (generateType_reads sub skip (hkept type hmem (of_decide_eq_true hskip))).2
  rw [hforM.output]
  exact ⟨hforM.completes, readsAsItems_flatMap sub hreads⟩

theorem retype_printedItems (skip : List Text) {types : List NamedType}
    (hreadable : ∀ t, .structType t ∈ types → t.name ∉ skip → StructReadable sub t) :
    ((types.filter (·.name ∉ skip)).flatMap (printedItems sub)).map
        (Item.retype (unqualified cloudabi)) =
      (types.filter (·.name ∉ skip)).flatMap (headerItems sub) := by
  rw [List.map_flatMap]
  refine List.flatMap_congr fun type htype => ?_
  obtain ⟨hmem, hskip⟩ := List.mem_filter.mp htype
  cases type with
  | aliasType name => rfl
  | intLikeType type => rfl
  | structType t => exact retype_printedStruct sub (hreadable t hmem (of_decide_eq_true hskip))

theorem ReadsAsItems.readHeader {lines : List Line} {is : List Item}
    (h : ReadsAsItems sub lines is) :
    ∃ text, linesText sub lines = .ok text ∧ readHeader text = some is := by
  obtain ⟨ts, ⟨text, htext, hspells⟩, hheads⟩ := h
  rw [← hspells.2] at hheads
  exact ⟨text, htext, hheads.readHeader⟩

/-- The ABI of the struct `event` as `structs.hpp` shows it. -/
def event : StructType where
  name := lit "event"
  members :=
    [.simple (lit "userdata") (.user (lit "userdata")),
      .simple (lit "error") (.user (lit "errno")),
      .simple (lit "type") (.user (lit "eventtype")),
      .variant none
        [.mk (some (lit "clock")) [.simple (lit "identifier") (.user (lit "userdata"))],
          .mk (some (lit "condvar"))
            [.simple (lit "condvar") (.pointer (.atomic (.user (lit "condvar"))) false)],
          .mk (some (lit "fd_readwrite"))
            [.simple (lit "nbytes") (.user (lit "filesize")),
              .simple (lit "fd") (.user (lit "fd")),
              .simple (lit "flags") (.user (lit "eventrwflags"))],
          .mk (some (lit "lock"))
            [.simple (lit "lock") (.pointer (.atomic (.user (lit "lock"))) false)],
          .mk (some (lit "proc_terminate"))
            [.simple (lit "fd") (.user (lit "fd")),
              .simple (lit "signal") (.user (lit "signal")),
              .simple (lit "exitcode") (.user (lit "exitcode"))]]]

end StructDefs

end CloudabiCpp.Generator.StructsHeader
