import CloudabiCpp.Lib.Lexer

/-!
A reader for C++ declarations of one name and for type-ids. Array suffixes bind
tighter than the prefix stars, parentheses group, and a leading `const` qualifies
the base type. The rules say what is read when the pieces of a declaration are
put together, whatever follows it.
-/

namespace CloudabiCpp.Lib.Declarations

open CloudabiCpp.Lib.Lexer

/-- A C++ type. Arrays have no qualifier of their own: a constant array is one of
constant elements. -/
inductive CType where
  | named (const : Bool) (path : List Word)
  | template (const : Bool) (path : List Word) (argument : CType)
  | pointer (const : Bool) (target : CType)
  | array (count : Nat) (element : CType)
  deriving DecidableEq

def CType.addConst : CType → CType
  | .named _ path => .named true path
  | .template _ path argument => .template true path argument
  | .pointer _ target => .pointer true target
  | .array count element => .array count element.addConst

/-- A declarator, from the outside in; the name is missing in a type-id. -/
inductive Declarator where
  | name (declared : Option Word)
  | pointer (const : Bool) (inner : Declarator)
  | array (inner : Declarator) (count : Nat)

namespace Declarator

/-- The type of the declared name if the declaration has base type `base`. -/
def apply : Declarator → (base : CType) → CType
  | .name _, base => base
  | .pointer const inner, base => inner.apply (.pointer const base)
  | .array inner count, base => inner.apply (.array count base)

def declared : Declarator → Option Word
  | .name declared => declared
  | .pointer _ inner => inner.declared
  | .array inner _ => inner.declared

end Declarator

def constWord : Word := ['c', 'o', 'n', 's', 't']

/-- The fundamental types that are spelled with one word. -/
def fundamentalWords : List Word :=
  ["void", "bool", "char", "char8_t", "char16_t", "char32_t", "wchar_t", "short", "int", "long",
    "signed", "unsigned", "float", "double"].map String.toList

/-- The keywords of C++, the operators that are spelled as words included. -/
def keywords : List Word :=
  fundamentalWords ++
    ["alignas", "alignof", "and", "and_eq", "asm", "auto", "bitand", "bitor", "break", "case",
      "catch", "class", "co_await", "co_return", "co_yield", "compl", "concept", "const",
      "const_cast", "consteval", "constexpr", "constinit", "continue", "decltype", "default",
      "delete", "do", "dynamic_cast", "else", "enum", "explicit", "export", "extern", "false",
      "for", "friend", "goto", "if", "inline", "mutable", "namespace", "new", "noexcept", "not",
      "not_eq", "nullptr", "operator", "or", "or_eq", "private", "protected", "public",
      "register", "reinterpret_cast", "requires", "return", "sizeof", "static", "static_assert",
      "static_cast", "struct", "switch", "template", "this", "thread_local", "throw", "true",
      "try", "typedef", "typeid", "typename", "union", "using", "virtual", "volatile", "while",
      "xor", "xor_eq"].map String.toList

def isIdentifier (w : Word) : Bool :=
  !(w.head?.any Char.isDigit) && w ∉ keywords

def IsName (w : Word) : Prop :=
  w ≠ [] ∧ w.all isWordChar = true ∧ isIdentifier w = true
  deriving Decidable

/-- A decimal number; an octal one has a zero in front. -/
def number (w : Word) : Option Nat :=
  if w.all Char.isDigit ∧ (w.head? = some '0' → w = ['0']) then
    some (Nat.ofDigitChars 10 w 0)
  else none

def takeConst : List Token → Bool × List Token
  | .word w :: ts => if w = constWord then (true, ts) else (false, .word w :: ts)
  | ts => (false, ts)

def suffixes : Declarator → List Token → Declarator × List Token
  | d, .symbol '[' :: .word w :: .symbol ']' :: ts =>
      match number w with
      | some count => suffixes (.array d count) ts
      | none => (d, .symbol '[' :: .word w :: .symbol ']' :: ts)
  | d, ts => (d, ts)

/-- What can stand after a declarator. -/
def closes : List Token → Bool
  | [] => true
  | .symbol c :: _ => c ∈ [')', '>', ',', ';']
  | _ => false

def opensSuffix : List Token → Bool
  | .symbol '[' :: _ => true
  | _ => false

def declarator : (fuel : Nat) → List Token → Option (Declarator × List Token)
  | 0, _ => none
  | fuel + 1, ts =>
      match ts with
      | .symbol '*' :: ts =>
          (declarator fuel (takeConst ts).2).map fun read =>
            (.pointer (takeConst ts).1 read.1, read.2)
      | .symbol '(' :: ts =>
          match declarator fuel ts with
          | some (d, .symbol ')' :: ts) => some (suffixes d ts)
          | _ => none
      | .word w :: ts => if isIdentifier w then some (suffixes (.name (some w)) ts) else none
      | ts => if closes ts || opensSuffix ts then some (suffixes (.name none) ts) else none

def path : List Token → Option (List Word × List Token)
  | .word w :: .symbol ':' :: .symbol ':' :: ts =>
      if isIdentifier w then (path ts).map fun read => (w :: read.1, read.2) else none
  | .word w :: ts => if isIdentifier w then some ([w], ts) else none
  | _ => none

def fundamentalType : List Token → Option (CType × List Token)
  | .word w :: ts => if w ∈ fundamentalWords then some (.named false [w], ts) else none
  | _ => none

/-- A type that goes by a name, with one template argument at most. -/
def namedType (argument : List Token → Option (CType × Option Word × List Token))
    (ts : List Token) : Option (CType × List Token) :=
  match path ts with
  | some (names, .symbol '<' :: ts) =>
      match argument ts with
      | some (type, none, .symbol '>' :: ts) => some (.template false names type, ts)
      | _ => none
  | some (names, ts) => some (.named false names, ts)
  | none => none

/-- The base type of a declaration. -/
def baseType (argument : List Token → Option (CType × Option Word × List Token))
    (ts : List Token) : Option (CType × List Token) :=
  (fundamentalType ts).or (namedType argument ts)

/-- A type-id, or a declaration if there is a name; `const` twice is no type. -/
def declaration : (fuel : Nat) → List Token → Option (CType × Option Word × List Token)
  | 0, _ => none
  | fuel + 1, ts =>
      match baseType (declaration fuel) (takeConst ts).2 with
      | none => none
      | some (base, rest) =>
          (declarator (rest.length + 1) rest).map fun read =>
            (read.1.apply (if (takeConst ts).1 then base.addConst else base),
              read.1.declared, read.2)

/-- Reads a text as a declaration of one name. -/
def readDeclaration (text : List Char) : Option (CType × Word) :=
  match declaration ((lex text).length + 1) (lex text) with
  | some (type, some name, []) => some (type, name)
  | _ => none

def readTypeId (text : List Char) : Option CType :=
  match declaration ((lex text).length + 1) (lex text) with
  | some (type, none, []) => some type
  | _ => none

/-- The tokens are a declarator, whatever closes it. -/
def Reads (ts : List Token) (d : Declarator) : Prop :=
  ∀ rest, closes rest = true → ∀ fuel, ts.length < fuel →
    declarator fuel (ts ++ rest) = some (d, rest)

/-- The tokens are a direct declarator: array suffixes may follow. -/
def ReadsDirect (ts : List Token) (d : Declarator) : Prop :=
  ∀ rest, (closes rest || opensSuffix rest) = true → ∀ fuel, ts.length < fuel →
    declarator fuel (ts ++ rest) = some (suffixes d rest)

theorem suffixes_of_closes (d : Declarator) {rest : List Token} (hrest : closes rest = true) :
    suffixes d rest = (d, rest) := by
  unfold suffixes
  split
  · simp [closes] at hrest
  · rfl

theorem constWord_mem : constWord ∈ keywords := by decide +kernel

theorem constWord_not_fundamental : constWord ∉ fundamentalWords := by decide +kernel

theorem isIdentifier_of_mem {w : Word} (hw : w ∈ keywords) : isIdentifier w = false := by
  simp [isIdentifier, hw]

theorem not_fundamental {w : Word} (hw : isIdentifier w = true) : w ∉ fundamentalWords := by
  intro hmem
  rw [isIdentifier_of_mem (List.mem_append_left _ hmem)] at hw
  cases hw

theorem takeConst_of_ne {w : Word} (hw : w ≠ constWord) (ts : List Token) :
    takeConst (.word w :: ts) = (false, .word w :: ts) := by
  simp [takeConst, hw]

theorem takeConst_identifier {w : Word} (hw : isIdentifier w = true) (ts : List Token) :
    takeConst (.word w :: ts) = (false, .word w :: ts) := by
  refine takeConst_of_ne ?_ ts
  rintro rfl
  rw [isIdentifier_of_mem constWord_mem] at hw
  cases hw

theorem declarator_const (fuel : Nat) (ts : List Token) :
    declarator fuel (.word constWord :: ts) = none := by
  cases fuel with
  | zero => rfl
  | succ fuel => simp [declarator, isIdentifier_of_mem constWord_mem]

theorem takeConst_of_declarator {fuel : Nat} {ts : List Token} {read : Declarator × List Token}
    (hread : declarator fuel ts = some read) : takeConst ts = (false, ts) := by
  unfold takeConst
  split
  · split
    · rename_i hconst
      subst hconst
      rw [declarator_const] at hread
      cases hread
    · rfl
  · rfl

namespace ReadsDirect

theorem name {w : Word} (hw : isIdentifier w = true) :
    ReadsDirect [.word w] (.name (some w)) := by
  intro rest _ fuel hfuel
  obtain ⟨fuel, rfl⟩ := Nat.exists_eq_succ_of_ne_zero (Nat.ne_of_gt (Nat.zero_lt_of_lt hfuel))
  simp [declarator, hw]

theorem nothing : ReadsDirect [] (.name none) := by
  intro rest hrest fuel hfuel
  obtain ⟨fuel, rfl⟩ := Nat.exists_eq_succ_of_ne_zero (Nat.ne_of_gt hfuel)
  rw [List.nil_append, declarator, if_pos hrest]
  · rintro ts rfl
    simp [closes, opensSuffix] at hrest
  · rintro ts rfl
    simp [closes, opensSuffix] at hrest
  · rintro w ts rfl
    simp [closes, opensSuffix] at hrest

theorem array {ts : List Token} {d : Declarator} (h : ReadsDirect ts d) {w : Word}
    {count : Nat} (hcount : number w = some count) :
    ReadsDirect (ts ++ [.symbol '[', .word w, .symbol ']']) (.array d count) := by
  intro rest _ fuel hfuel
  have hread := h (.symbol '[' :: .word w :: .symbol ']' :: rest) rfl fuel
    (by simp at hfuel; omega)
  rw [suffixes, hcount] at hread
  simpa using hread

theorem reads {ts : List Token} {d : Declarator} (h : ReadsDirect ts d) : Reads ts d := by
  intro rest hrest fuel hfuel
  rw [h rest (by simp [hrest]) fuel hfuel, suffixes_of_closes d hrest]

end ReadsDirect

namespace Reads

theorem pointer {ts : List Token} {d : Declarator} (h : Reads ts d) :
    Reads (.symbol '*' :: ts) (.pointer false d) := by
  intro rest hrest fuel hfuel
  obtain ⟨fuel, rfl⟩ := Nat.exists_eq_succ_of_ne_zero (Nat.ne_of_gt (Nat.zero_lt_of_lt hfuel))
  have hread := h rest hrest fuel (by simpa using hfuel)
  rw [List.cons_append, declarator, takeConst_of_declarator hread, hread]
  rfl

theorem paren {ts : List Token} {d : Declarator} (h : Reads ts d) :
    ReadsDirect (.symbol '(' :: ts ++ [.symbol ')']) d := by
  intro rest _ fuel hfuel
  obtain ⟨fuel, rfl⟩ := Nat.exists_eq_succ_of_ne_zero (Nat.ne_of_gt (Nat.zero_lt_of_lt hfuel))
  have hread := h (.symbol ')' :: rest) rfl fuel (by simp at hfuel; omega)
  simp [declarator, hread]

end Reads

/-- What follows a base type is no part of it. -/
def endsBase : List Token → Bool
  | .symbol c :: _ => c ≠ ':' && c ≠ '<'
  | _ => true

/-- The tokens are read as a base type, or not at all. -/
structure ReadsBase (ts : List Token) (base : Option CType) : Prop where
  plain : ∀ rest, takeConst (ts ++ rest) = (false, ts ++ rest)
  read : ∀ rest, endsBase rest = true → ∀ fuel, ts.length ≤ fuel →
    baseType (declaration fuel) (ts ++ rest) = base.map fun type => (type, rest)

/-- The tokens are read as a declaration or a type-id, or not at all. -/
def ReadsDeclaration (ts : List Token) (result : Option (CType × Option Word)) : Prop :=
  ∀ rest, closes rest = true → ∀ fuel, ts.length < fuel →
    declaration fuel (ts ++ rest) = result.map fun read => (read.1, read.2, rest)

def pathTokens : List Word → List Token
  | [] => []
  | [w] => [.word w]
  | w :: names => .word w :: .symbol ':' :: .symbol ':' :: pathTokens names

theorem path_pathTokens {names : List Word} (hne : names ≠ [])
    (hnames : ∀ w ∈ names, isIdentifier w = true) {rest : List Token}
    (hrest : endsBase rest = true ∨ ∃ ts, rest = .symbol '<' :: ts) :
    path (pathTokens names ++ rest) = some (names, rest) := by
  induction names with
  | nil => exact absurd rfl hne
  | cons w names ih =>
      have hw := hnames w List.mem_cons_self
      cases names with
      | nil =>
          rw [pathTokens, List.singleton_append, path, if_pos hw]
          rintro ts rfl
          rcases hrest with hends | ⟨ts', hcontra⟩
          · simp [endsBase] at hends
          · simp at hcontra
      | cons w' names =>
          have hrest := ih (by simp) fun x hx => hnames x (List.mem_cons_of_mem w hx)
          rw [pathTokens]
          · simp [path, hw, hrest]
          · simp

theorem takeConst_pathTokens {names : List Word} (hne : names ≠ [])
    (hnames : ∀ w ∈ names, isIdentifier w = true) (rest : List Token) :
    takeConst (pathTokens names ++ rest) = (false, pathTokens names ++ rest) := by
  cases names with
  | nil => exact absurd rfl hne
  | cons w names =>
      cases names with
      | nil => exact takeConst_identifier (hnames w List.mem_cons_self) _
      | cons w' names => exact takeConst_identifier (hnames w List.mem_cons_self) _

theorem path_keyword {w : Word} (hw : w ∈ keywords) (ts : List Token) :
    path (.word w :: ts) = none := by
  have hkeyword := isIdentifier_of_mem hw
  unfold path
  split <;> simp_all

theorem baseType_const (argument : List Token → Option (CType × Option Word × List Token))
    (ts : List Token) : baseType argument (.word constWord :: ts) = none := by
  rw [baseType, fundamentalType, if_neg constWord_not_fundamental, Option.none_or, namedType,
    path_keyword constWord_mem]

/-- No fundamental type begins with an identifier. -/
theorem baseType_identifier (argument : List Token → Option (CType × Option Word × List Token))
    {w : Word} (hw : isIdentifier w = true) (ts : List Token) :
    baseType argument (.word w :: ts) = namedType argument (.word w :: ts) := by
  rw [baseType, fundamentalType, if_neg (not_fundamental hw), Option.none_or]

theorem exists_identifier_of_path {ts : List Token} {read : List Word × List Token}
    (hpath : path ts = some read) : ∃ w ts', isIdentifier w = true ∧ ts = .word w :: ts' := by
  unfold path at hpath
  split at hpath
  · split_ifs at hpath with hw
    exact ⟨_, _, hw, rfl⟩
  · split_ifs at hpath with hw
    exact ⟨_, _, hw, rfl⟩
  · cases hpath

theorem baseType_template (argument : List Token → Option (CType × Option Word × List Token))
    {ts rest : List Token} {names : List Word}
    (hpath : path ts = some (names, .symbol '<' :: rest)) :
    baseType argument ts =
      match argument rest with
      | some (type, none, .symbol '>' :: ts) => some (.template false names type, ts)
      | _ => none := by
  obtain ⟨w, ts', hw, rfl⟩ := exists_identifier_of_path hpath
  rw [baseType_identifier argument hw, namedType, hpath]
  rfl

theorem baseType_named (argument : List Token → Option (CType × Option Word × List Token))
    {ts rest : List Token} {names : List Word} (hpath : path ts = some (names, rest))
    (hrest : ∀ ts', rest ≠ .symbol '<' :: ts') :
    baseType argument ts = some (.named false names, rest) := by
  obtain ⟨w, ts', hw, rfl⟩ := exists_identifier_of_path hpath
  rw [baseType_identifier argument hw, namedType, hpath]
  split
  · rename_i heq
    exact absurd (Prod.mk.inj (Option.some.inj heq)).2 (hrest _)
  · rename_i heq
    obtain ⟨rfl, rfl⟩ := Prod.mk.inj (Option.some.inj heq)
    rfl
  · rename_i heq
    cases heq

theorem endsBase_of_declarator {fuel : Nat} {ts : List Token} {read : Declarator × List Token}
    (hread : declarator fuel ts = some read) : endsBase ts = true := by
  unfold endsBase
  split
  · rename_i c ts
    by_contra hc
    cases fuel with
    | zero => cases hread
    | succ fuel =>
        have hcolon : c = ':' ∨ c = '<' := by
          simpa [Decidable.or_iff_not_imp_left] using hc
        rcases hcolon with rfl | rfl <;> simp [declarator, closes, opensSuffix] at hread
  · rfl

namespace ReadsBase

theorem fundamental {w : Word} (hw : w ∈ fundamentalWords) :
    ReadsBase [.word w] (some (.named false [w])) where
  plain := by
    refine takeConst_of_ne ?_
    rintro rfl
    exact constWord_not_fundamental hw
  read := by
    intro rest _ fuel _
    rw [baseType, List.singleton_append, fundamentalType, if_pos hw]
    rfl

theorem named {names : List Word} (hne : names ≠ [])
    (hnames : ∀ w ∈ names, isIdentifier w = true) :
    ReadsBase (pathTokens names) (some (.named false names)) where
  plain := takeConst_pathTokens hne hnames
  read := by
    intro rest hrest fuel _
    refine baseType_named _ (path_pathTokens hne hnames (Or.inl hrest)) ?_
    rintro ts rfl
    simp [endsBase] at hrest

theorem template {names : List Word} (hne : names ≠ [])
    (hnames : ∀ w ∈ names, isIdentifier w = true) {ts : List Token} {argument : Option CType}
    (hargument : ReadsDeclaration ts (argument.map fun type => (type, none))) :
    ReadsBase (pathTokens names ++ .symbol '<' :: ts ++ [.symbol '>'])
      (argument.map (.template false names)) where
  plain := by
    intro rest
    simp only [List.append_assoc]
    exact takeConst_pathTokens hne hnames _
  read := by
    intro rest _ fuel hfuel
    have hpath : path (pathTokens names ++ (.symbol '<' :: ts ++ .symbol '>' :: rest)) =
        some (names, .symbol '<' :: ts ++ .symbol '>' :: rest) :=
      path_pathTokens hne hnames (Or.inr ⟨_, rfl⟩)
    have hread := hargument (.symbol '>' :: rest) rfl fuel (by simp at hfuel; omega)
    simp only [List.append_assoc, List.cons_append, List.nil_append] at hpath hread ⊢
    rw [baseType_template _ hpath, hread]
    cases argument <;> rfl

end ReadsBase

/-- The base type after `k` times the word `const`; more than once is an error. -/
def qualifyBase (k : Nat) (base : CType) : Option CType :=
  match k with
  | 0 => some base
  | 1 => some base.addConst
  | _ => none

theorem ReadsDeclaration.declare {bs ds : List Token} {base : Option CType} {d : Declarator}
    (hbase : ReadsBase bs base) (hd : Reads ds d) (k : Nat) :
    ReadsDeclaration (List.replicate k (.word constWord) ++ bs ++ ds)
      ((base.bind (qualifyBase k)).map fun type => (d.apply type, d.declared)) := by
  intro rest hrest fuel hfuel
  simp only [List.length_append, List.length_replicate] at hfuel
  obtain ⟨fuel, rfl⟩ := Nat.exists_eq_succ_of_ne_zero (Nat.ne_of_gt (Nat.zero_lt_of_lt hfuel))
  have hdeclarator := hd rest hrest ((ds ++ rest).length + 1)
    (by rw [List.length_append]; omega)
  have hread := hbase.read (ds ++ rest) (endsBase_of_declarator hdeclarator) fuel (by omega)
  match k with
  | 0 =>
      have hplain := hbase.plain (ds ++ rest)
      simp only [List.replicate_zero, List.nil_append, List.append_assoc, declaration, hplain,
        hread]
      cases base with
      | none => rfl
      | some type =>
          simp only [Option.map_some, hdeclarator]
          rfl
  | 1 =>
      have hconst : takeConst (.word constWord :: (bs ++ (ds ++ rest))) =
          (true, bs ++ (ds ++ rest)) := by
        simp [takeConst]
      simp only [List.replicate_one, List.append_assoc, declaration, List.cons_append,
        List.nil_append, hconst, hread]
      cases base with
      | none => rfl
      | some type =>
          simp only [Option.map_some, hdeclarator]
          rfl
  | k + 2 =>
      simp only [List.replicate_succ, List.cons_append, declaration, takeConst, if_true,
        baseType_const]
      cases base <;> rfl

/-- Nothing after the declaration: the whole text is read. -/
theorem ReadsDeclaration.readDeclaration {text : List Char} {type : Option CType} {name : Word}
    (h : ReadsDeclaration (lex text) (type.map fun read => (read, some name))) :
    readDeclaration text = type.map fun read => (read, name) := by
  have hread := h [] rfl ((lex text).length + 1) (Nat.lt_succ_self _)
  rw [List.append_nil] at hread
  rw [Declarations.readDeclaration, hread]
  cases type <;> rfl

theorem ReadsDeclaration.readTypeId {text : List Char} {type : Option CType}
    (h : ReadsDeclaration (lex text) (type.map fun read => (read, none))) :
    readTypeId text = type := by
  have hread := h [] rfl ((lex text).length + 1) (Nat.lt_succ_self _)
  rw [List.append_nil] at hread
  rw [Declarations.readTypeId, hread]
  cases type <;> rfl

end CloudabiCpp.Lib.Declarations
