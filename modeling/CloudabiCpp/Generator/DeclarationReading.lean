import CloudabiCpp.Generator.CppNaming
import CloudabiCpp.Lib.Declarations

/-!
What a reader of C++ makes of the declarations that `vardecl` prints. Every
`const` of the type arrives at the base type, wherever the ABI marked it.
-/

namespace CloudabiCpp.Generator.DeclarationReading

open CloudabiCpp.Lib.Lexer
open CloudabiCpp.Lib.Declarations
open CloudabiCpp.Generator.Abi
open CloudabiCpp.Generator.CppNaming

def intPath (name : Text) : List Word :=
  if name = lit "char" then [lit "char"] else [lit "std", name ++ lit "_t"]

/-- The C++ type that an ABI type stands for. -/
def denote : AbiType → CType
  | .void => .named false [lit "void"]
  | .int name => .named false (intPath name)
  | .user name => .named false [(mangle name).toOption.getD []]
  | .atomic target => .template false [lit "std", lit "atomic"] (denote target)
  | .pointer target const =>
      .pointer false (if const then (denote target).addConst else denote target)
  | .array count element => .array count (denote element)

/-- The names a type is spelled with are names in C++. -/
def WellNamed : AbiType → Prop
  | .void => True
  | .int name => name = lit "char" ∨ IsName (name ++ lit "_t")
  | .user name => ∃ spelled, mangle name = .ok spelled ∧ IsName spelled
  | .atomic target => WellNamed target
  | .pointer target _ => WellNamed target
  | .array _ element => WellNamed element

/-- A pointer, or an array of pointers. -/
def IsPointer : AbiType → Prop
  | .pointer _ _ => True
  | .array _ element => IsPointer element
  | _ => False

/-- A `const` is only asked for where the base type is pointed to, maybe through
arrays. -/
def ConstAtBase : AbiType → Prop
  | .pointer target const => (const = true → ¬ IsPointer target) ∧ ConstAtBase target
  | .array _ element => ConstAtBase element
  | .atomic target => ConstAtBase target
  | _ => True

/-- The type that is read when `k` times the word `const` stands in front. -/
def readBack : AbiType → (k : Nat) → Option CType
  | .pointer target const, k => (readBack target (k + const.toNat)).map (.pointer false)
  | .array count element, k => (readBack element k).map (.array count)
  | .atomic target, k =>
      ((readBack target 0).map (.template false [lit "std", lit "atomic"])).bind (qualifyBase k)
  | .void, k => qualifyBase k (denote .void)
  | .int name, k => qualifyBase k (denote (.int name))
  | .user name, k => qualifyBase k (denote (.user name))

/-- A declarator that can take an array suffix, unless it needs parentheses for that. -/
def ReadsAs (arrayNeedParens : Bool) (ts : List Token) (d : Declarator) : Prop :=
  if arrayNeedParens then Reads ts d else ReadsDirect ts d

theorem ReadsAs.reads {arrayNeedParens : Bool} {ts : List Token} {d : Declarator}
    (h : ReadsAs arrayNeedParens ts d) : Reads ts d := by
  cases arrayNeedParens with
  | false => exact ReadsDirect.reads h
  | true => exact h

theorem lex_name {name : Text} (hname : IsName name) : lex name = [.word name] :=
  lex_word hname.1 hname.2.1

theorem lex_qualify (const : Bool) (decl : Text) :
    lex (qualify const decl) = List.replicate const.toNat (.word constWord) ++ lex decl := by
  have hlit : lit "const " = constWord ++ [' '] := by decide +kernel
  cases const with
  | false => rfl
  | true =>
      rw [qualify, if_pos rfl, hlit, lex_append (Or.inl (by decide)),
        lex_append (Or.inr (by decide)), lex_word (by decide) (by decide)]
      rfl

theorem lex_declare (name type : Text) : lex (declare name type) = lex type ++ lex name := by
  rw [declare, List.append_assoc, lex_append (Or.inr rfl)]
  rfl

theorem lex_count (count : Nat) :
    lex (Nat.toDigits 10 count) = [.word (Nat.toDigits 10 count)] := by
  apply lex_word Nat.toDigits_ne_nil
  rw [List.all_eq_true]
  intro c hc
  have hdigit := Nat.isDigit_of_mem_toDigits (by decide) (Nat.le_refl 10) hc
  simp [isWordChar, Char.isAlphanum, hdigit]

theorem eq_zero_of_head?_toDigits {count : Nat}
    (hhead : (Nat.toDigits 10 count).head? = some '0') : count = 0 := by
  induction count using Nat.strongRecOn with
  | ind count ih =>
      by_cases hlt : count < 10
      · have hsingle : ∀ n < 10, [Nat.digitChar n].head? = some '0' → n = 0 := by decide
        rw [Nat.toDigits_of_lt_base hlt] at hhead
        exact hsingle count hlt hhead
      · rw [Nat.toDigits_of_base_le (by decide) (Nat.le_of_not_lt hlt),
          List.head?_append_of_ne_nil _ Nat.toDigits_ne_nil] at hhead
        have hquotient := ih (count / 10) (by omega) hhead
        omega

theorem number_toDigits (count : Nat) : number (Nat.toDigits 10 count) = some count := by
  have hdigits : (Nat.toDigits 10 count).all Char.isDigit = true := by
    rw [List.all_eq_true]
    intro c hc
    exact Nat.isDigit_of_mem_toDigits (by decide) (Nat.le_refl 10) hc
  have hdecimal : (Nat.toDigits 10 count).head? = some '0' → Nat.toDigits 10 count = ['0'] := by
    intro hhead
    rw [eq_zero_of_head?_toDigits hhead, Nat.toDigits_zero]
  rw [number, if_pos ⟨hdigits, hdecimal⟩, Nat.ofDigitChars_ten_toDigits]

theorem lex_paren (text : Text) :
    lex (['('] ++ text ++ [')']) = .symbol '(' :: lex text ++ [.symbol ')'] := by
  rw [lex_append (Or.inr rfl)]
  rfl

theorem lex_suffix (text : Text) (count : Nat) :
    lex (text ++ ['['] ++ Nat.toDigits 10 count ++ [']']) =
      lex text ++ [.symbol '[', .word (Nat.toDigits 10 count), .symbol ']'] := by
  have hbracket : endsWord (text ++ ['[']) = false := by
    rw [endsWord, List.getLast?_concat]
    rfl
  rw [lex_append (Or.inr rfl), lex_append (Or.inl hbracket), lex_append (Or.inr rfl), lex_count,
    List.append_assoc, List.append_assoc]
  rfl

theorem readsDirect_arrayDeclarator {name : Text} {arrayNeedParens : Bool} {d : Declarator}
    (h : ReadsAs arrayNeedParens (lex name) d) (count : Nat) :
    ReadsDirect (lex (arrayDeclarator name arrayNeedParens count)) (.array d count) := by
  rw [arrayDeclarator, lex_suffix]
  apply ReadsDirect.array _ (number_toDigits count)
  cases arrayNeedParens with
  | false => exact h
  | true =>
      rw [if_pos rfl, lex_paren]
      exact Reads.paren h

structure PrintedAs (type : AbiType) : Prop where
  typename_reads : ∃ text, typename type = .ok text ∧
    ReadsDeclaration (lex text) ((readBack type 0).map fun read => (read, none))
  vardecl_reads : ∀ (name : Text) (arrayNeedParens : Bool) (d : Declarator),
    ReadsAs arrayNeedParens (lex name) d →
      ∃ text, vardecl type name arrayNeedParens = .ok text ∧
        ∀ k, ReadsDeclaration (List.replicate k (.word constWord) ++ lex text)
          ((readBack type k).map fun read => (d.apply read, d.declared))

namespace PrintedAs

theorem of_base {type : AbiType} (htype : IsBase type) (text : Text)
    (htext : typename type = .ok text) {base : Option CType}
    (hbase : ReadsBase (lex text) base)
    (hback : ∀ k, readBack type k = base.bind (qualifyBase k)) : PrintedAs type where
  typename_reads := by
    refine ⟨text, htext, ?_⟩
    have hread := ReadsDeclaration.declare hbase (ReadsDirect.reads ReadsDirect.nothing) 0
    rw [hback 0]
    simpa [Declarator.apply, Declarator.declared] using hread
  vardecl_reads := by
    intro name arrayNeedParens d hd
    refine ⟨declare name text, ?_, fun k => ?_⟩
    · rw [vardecl_eq_declare htype, htext]
      rfl
    · rw [lex_declare, hback k, ← List.append_assoc]
      exact ReadsDeclaration.declare hbase hd.reads k

theorem of_named {type : AbiType} (htype : IsBase type) (text : Text)
    (htext : typename type = .ok text) (names : List Word) (hne : names ≠ [])
    (hnames : ∀ w ∈ names, isIdentifier w = true) (hlex : lex text = pathTokens names)
    (hback : ∀ k, readBack type k = qualifyBase k (.named false names)) : PrintedAs type := by
  have hbase := ReadsBase.named hne hnames
  rw [← hlex] at hbase
  exact of_base htype text htext hbase hback

theorem of_fundamental {type : AbiType} (htype : IsBase type) {word : Text}
    (htext : typename type = .ok word) (hword : word ∈ fundamentalWords)
    (hlex : lex word = [.word word])
    (hback : ∀ k, readBack type k = qualifyBase k (.named false [word])) : PrintedAs type := by
  have hbase := ReadsBase.fundamental hword
  rw [← hlex] at hbase
  exact of_base htype word htext hbase hback

theorem of_not_base {type : AbiType} (htype : ¬ IsBase type)
    (hvardecl : ∀ (name : Text) (arrayNeedParens : Bool) (d : Declarator),
      ReadsAs arrayNeedParens (lex name) d →
        ∃ text, vardecl type name arrayNeedParens = .ok text ∧
          ∀ k, ReadsDeclaration (List.replicate k (.word constWord) ++ lex text)
            ((readBack type k).map fun read => (d.apply read, d.declared))) :
    PrintedAs type where
  typename_reads := by
    obtain ⟨text, htext, hread⟩ := hvardecl [] false (.name none) ReadsDirect.nothing
    rw [typename_eq_vardecl htype]
    exact ⟨text, htext, hread 0⟩
  vardecl_reads := hvardecl

theorem fundamental_void_char :
    (lit "void" ∈ fundamentalWords ∧ lex (lit "void") = [.word (lit "void")]) ∧
      lit "char" ∈ fundamentalWords ∧ lex (lit "char") = [.word (lit "char")] := by
  decide +kernel

theorem int {name : Text} (hname : WellNamed (.int name)) : PrintedAs (.int name) := by
  by_cases hchar : name = lit "char"
  · refine @of_fundamental (.int name) trivial (lit "char") ?_ fundamental_void_char.2.1
      fundamental_void_char.2.2 fun k => ?_
    · rw [typename, intTypename, if_pos hchar]
    · rw [readBack, denote, intPath, if_pos hchar]
  · have hspelled : IsName (name ++ lit "_t") := hname.resolve_left hchar
    have hidentifier : isIdentifier (lit "std") = true := by decide +kernel
    have hstd : lit "std::" = lit "std" ++ [':', ':'] := by decide +kernel
    have hlexStd : lex (lit "std") = [.word (lit "std")] := by decide +kernel
    refine of_named trivial (lit "std::" ++ name ++ lit "_t") ?_ [lit "std", name ++ lit "_t"]
      (by simp)
      (by simpa using ⟨hidentifier, hspelled.2.2⟩) ?_ fun k => ?_
    · rw [typename, intTypename, if_neg hchar]
    · rw [hstd, List.append_assoc, List.append_assoc, lex_append (Or.inr rfl), hlexStd,
        lex_append (Or.inl (by decide)), lex_name hspelled]
      rfl
    · rw [readBack, denote, intPath, if_neg hchar]

theorem user {name : Text} (hname : WellNamed (.user name)) : PrintedAs (.user name) := by
  obtain ⟨spelled, hmangle, hspelled⟩ := hname
  refine of_named trivial spelled hmangle [spelled] (by simp) (by simpa using hspelled.2.2)
    (lex_name hspelled) fun k => ?_
  rw [readBack, denote, hmangle]
  rfl

theorem atomic {target : AbiType} (h : PrintedAs target) : PrintedAs (.atomic target) := by
  obtain ⟨text, htext, hread⟩ := h.typename_reads
  have hopen : lex (lit "std::atomic<") = pathTokens [lit "std", lit "atomic"] ++
      [.symbol '<'] := by decide +kernel
  have hends : endsWord (lit "std::atomic<") = false := by decide +kernel
  have hnames : ∀ w ∈ [lit "std", lit "atomic"], isIdentifier w = true := by decide +kernel
  have hbase := ReadsBase.template (by simp) hnames hread
  have htypename : typename (.atomic target) = .ok (atomicTypename text) := by
    rw [typename, htext]
    rfl
  have hlex : lex (atomicTypename text) = pathTokens [lit "std", lit "atomic"] ++
      .symbol '<' :: lex text ++ [.symbol '>'] := by
    rw [atomicTypename, lex_append (Or.inr rfl), lex_append (Or.inl hends), hopen,
      List.append_assoc _ _ (lex text)]
    rfl
  rw [← hlex] at hbase
  exact of_base trivial (atomicTypename text) htypename hbase fun k => rfl

theorem pointer {target : AbiType} (h : PrintedAs target) (const : Bool) :
    PrintedAs (.pointer target const) := by
  apply of_not_base id
  intro name arrayNeedParens d hd
  have hstar : ReadsAs true (lex ('*' :: name)) (.pointer false d) := Reads.pointer hd.reads
  obtain ⟨text, htext, hread⟩ := h.vardecl_reads _ true _ hstar
  refine ⟨qualify const text, ?_, fun k => ?_⟩
  · rw [vardecl, htext]
    rfl
  · have hk := hread (k + const.toNat)
    rw [lex_qualify, ← List.append_assoc, List.replicate_append_replicate, readBack,
      Option.map_map]
    exact hk

theorem array {element : AbiType} (h : PrintedAs element) (count : Nat) :
    PrintedAs (.array count element) := by
  apply of_not_base id
  intro name arrayNeedParens d hd
  obtain ⟨text, htext, hread⟩ := h.vardecl_reads _ false _
    (readsDirect_arrayDeclarator hd count)
  refine ⟨text, htext, fun k => ?_⟩
  rw [readBack, Option.map_map]
  exact hread k

end PrintedAs

theorem printedAs {type : AbiType} (htype : WellNamed type) : PrintedAs type := by
  induction type with
  | void =>
      obtain ⟨⟨hmem, hlex⟩, -⟩ := PrintedAs.fundamental_void_char
      exact PrintedAs.of_fundamental trivial rfl hmem hlex fun k => rfl
  | int name => exact PrintedAs.int htype
  | user name => exact PrintedAs.user htype
  | atomic target ih => exact (ih htype).atomic
  | pointer target const ih => exact (ih htype).pointer const
  | array count element ih => exact (ih htype).array count

theorem readBack_eq (type : AbiType) :
    (readBack type 0 = some (denote type) ↔ ConstAtBase type) ∧
      (readBack type 1 = some (denote type).addConst ↔ ¬ IsPointer type ∧ ConstAtBase type) := by
  induction type with
  | void => simp [readBack, qualifyBase, ConstAtBase, IsPointer]
  | int name => simp [readBack, qualifyBase, ConstAtBase, IsPointer]
  | user name => simp [readBack, qualifyBase, ConstAtBase, IsPointer]
  | atomic target ih =>
      have hread : ∀ k, readBack (.atomic target) k = ((readBack target 0).map
          (.template false [lit "std", lit "atomic"])).bind (qualifyBase k) := fun _ => rfl
      rw [hread, hread]
      constructor
      · rw [show ConstAtBase (.atomic target) = ConstAtBase target from rfl, ← ih.1]
        cases readBack target 0 <;> simp [qualifyBase, denote]
      · rw [show ConstAtBase (.atomic target) = ConstAtBase target from rfl, ← ih.1]
        cases readBack target 0 <;> simp [qualifyBase, denote, CType.addConst, IsPointer]
  | pointer target const ih =>
      constructor
      · cases const with
        | false => simpa [readBack, denote, ConstAtBase] using ih.1
        | true => simpa [readBack, denote, ConstAtBase] using ih.2
      · simp [readBack, denote, CType.addConst, IsPointer]
  | array count element ih =>
      constructor
      · simpa [readBack, denote, ConstAtBase] using ih.1
      · simpa [readBack, denote, ConstAtBase, CType.addConst, IsPointer] using ih.2

theorem vardecl_declares {type : AbiType} (htype : WellNamed type) {name : Text}
    (hname : IsName name) :
    ∃ text, vardecl type name false = .ok text ∧
      readDeclaration text = (readBack type 0).map fun read => (read, name) := by
  have hdirect : ReadsAs false (lex name) (.name (some name)) := by
    rw [lex_name hname]
    exact ReadsDirect.name hname.2.2
  obtain ⟨text, htext, hread⟩ := (printedAs htype).vardecl_reads _ _ _ hdirect
  exact ⟨text, htext, ReadsDeclaration.readDeclaration (hread 0)⟩

theorem typename_denotes {type : AbiType} (htype : WellNamed type) :
    ∃ text, typename type = .ok text ∧ readTypeId text = readBack type 0 := by
  obtain ⟨text, htext, hread⟩ := (printedAs htype).typename_reads
  exact ⟨text, htext, ReadsDeclaration.readTypeId hread⟩

/-- The declaration and the type-id are right just where each `const` can stand
in front of the base type. -/
theorem vardecl_reads_iff {type : AbiType} (htype : WellNamed type) {name : Text}
    (hname : IsName name) :
    ((∃ text, vardecl type name false = .ok text ∧
        readDeclaration text = some (denote type, name)) ∧
      ∃ text, typename type = .ok text ∧ readTypeId text = some (denote type)) ↔
        ConstAtBase type := by
  obtain ⟨decl, hdecl, hdeclares⟩ := vardecl_declares htype hname
  obtain ⟨spelled, hspelled, hdenotes⟩ := typename_denotes htype
  rw [← (readBack_eq type).1]
  constructor
  · rintro ⟨-, text, htext, hread⟩
    obtain rfl := Except.ok.inj (hspelled.symm.trans htext)
    rw [← hdenotes, hread]
  · intro hback
    rw [hback] at hdeclares hdenotes
    exact ⟨⟨decl, hdecl, hdeclares⟩, spelled, hspelled, hdenotes⟩

theorem vardecl_reads_pointers_to_bytes :
    (∃ text, vardecl (.pointer (.array 2 (.pointer (.int (lit "uint8")) true)) false)
        (lit "x") false = .ok text ∧
      readDeclaration text = some (denote (.pointer (.array 2
        (.pointer (.int (lit "uint8")) true)) false), lit "x")) ∧
      ∃ text, typename (.pointer (.array 2 (.pointer (.int (lit "uint8")) true)) false) =
          .ok text ∧
        readTypeId text = some (denote (.pointer (.array 2
          (.pointer (.int (lit "uint8")) true)) false)) := by
  refine (vardecl_reads_iff ?_ ?_).2 ?_
  · exact Or.inr (by decide +kernel)
  · decide +kernel
  · simp [ConstAtBase, IsPointer]

/-- `const std::uint8_t **x` declares a pointer to a pointer to constant bytes,
not a pointer to a constant pointer. -/
theorem constPointerToPointer_misread :
    vardecl (.pointer (.pointer (.int (lit "uint8")) false) true) (lit "x") false =
        .ok (lit "const std::uint8_t **x") ∧
      readDeclaration (lit "const std::uint8_t **x") ≠
        some (denote (.pointer (.pointer (.int (lit "uint8")) false) true), lit "x") ∧
      readDeclaration (lit "const std::uint8_t **x") =
        some (denote (.pointer (.pointer (.int (lit "uint8")) true) false), lit "x") := by
  decide +kernel

end CloudabiCpp.Generator.DeclarationReading
