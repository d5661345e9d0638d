import CloudabiCpp.Lib.ClassReader

/-!
A reader for header files: type aliases, scoped enumerations, operators on them,
classes and static assertions on sizes and offsets.
-/

namespace CloudabiCpp.Lib.Headers

open CloudabiCpp.Lib.Lexer
open CloudabiCpp.Lib.Declarations
open CloudabiCpp.Lib.Aggregates
open CloudabiCpp.Lib.ClassReader

inductive Expr where
  | name (w : Word)
  | convert (type : Word) (e : Expr)
  | complement (e : Expr)
  | binary (op : Char) (left right : Expr)
  deriving DecidableEq

/-- `inline result operator op (parameters) { return body; }` -/
structure OperatorFunction where
  result : Word
  op : Char
  parameters : List (Word × Word)
  body : Expr
  deriving DecidableEq

/-- `sizeof(struct)`, `alignof(struct)` or `offsetof(struct, path)`. -/
structure Measure where
  kind : Word
  struct : Word
  path : List Word
  deriving DecidableEq

inductive Item where
  | typeAlias (name : Word) (type : CType)
  | enumeration (name underlying : Word) (enumerators : List (Word × Word))
  | operator (function : OperatorFunction)
  | declaration (struct : Word)
  | struct (name : Word) (members : List Member)
  | assertion (left right : Measure)

/-- The type that an item declares. -/
def Item.declaredType : Item → Option Word
  | .typeAlias name _ | .enumeration name _ _ | .declaration name | .struct name _ => some name
  | .operator _ | .assertion _ _ => none

/-- The item with the types of its members replaced. -/
def Item.retype (f : CType → CType) : Item → Item
  | .struct name ms => .struct name (Aggregates.retype f ms)
  | i => i

def enumeratorList : List Token → List (Word × Word) × List Token
  | .word name :: .symbol '=' :: .word value :: .symbol ',' :: ts =>
      ((name, value) :: (enumeratorList ts).1, (enumeratorList ts).2)
  | ts => ([], ts)

def parameters : List Token → Option (List (Word × Word) × List Token)
  | .word type :: .word name :: .symbol ',' :: ts =>
      (parameters ts).map fun read => ((type, name) :: read.1, read.2)
  | .word type :: .word name :: .symbol ')' :: ts => some ([(type, name)], ts)
  | _ => none

mutual

def unary : (fuel : Nat) → List Token → Option (Expr × List Token)
  | 0, _ => none
  | fuel + 1, .symbol '~' :: ts => (unary fuel ts).map fun read => (.complement read.1, read.2)
  | fuel + 1, .word w :: .symbol '(' :: ts =>
      match expression fuel ts with
      | some (e, .symbol ')' :: ts) => some (.convert w e, ts)
      | _ => none
  | _ + 1, .word w :: ts => some (.name w, ts)
  | _ + 1, _ => none

/-- At most one binary operator, so that none takes precedence. -/
def expression : (fuel : Nat) → List Token → Option (Expr × List Token)
  | 0, _ => none
  | fuel + 1, ts =>
      match unary fuel ts with
      | some (left, .symbol '|' :: ts) =>
          (unary fuel ts).map fun read => (.binary '|' left read.1, read.2)
      | some (left, .symbol '&' :: ts) =>
          (unary fuel ts).map fun read => (.binary '&' left read.1, read.2)
      | read => read

end

def returnWord : Word := ['r', 'e', 't', 'u', 'r', 'n']

def functionBody (ts : List Token) : Option (Expr × List Token) :=
  match ts with
  | .symbol '{' :: .word w :: ts =>
      match expression (ts.length + 1) ts with
      | some (e, .symbol ';' :: .symbol '}' :: ts) => if w = returnWord then some (e, ts) else none
      | _ => none
  | _ => none

/-- What is selected of a struct, one member after the other. -/
def selection : List Token → List Word × List Token
  | .symbol '.' :: .word w :: ts => (w :: (selection ts).1, (selection ts).2)
  | ts => ([], ts)

def measureParts : List Token → Option (Measure × List Token)
  | .word kind :: .symbol '(' :: .word struct :: .symbol ')' :: ts => some (⟨kind, struct, []⟩, ts)
  | .word kind :: .symbol '(' :: .word struct :: .symbol ',' :: .word w :: ts =>
      match selection ts with
      | (path, .symbol ')' :: ts) => some (⟨kind, struct, w :: path⟩, ts)
      | _ => none
  | _ => none

def sizeofWord : Word := ['s', 'i', 'z', 'e', 'o', 'f']

def alignofWord : Word := ['a', 'l', 'i', 'g', 'n', 'o', 'f']

def offsetofWord : Word := ['o', 'f', 'f', 's', 'e', 't', 'o', 'f']

def Measure.isSpelled (m : Measure) : Bool :=
  (m.struct :: m.path).all isIdentifier &&
    if m.path = [] then m.kind = sizeofWord || m.kind = alignofWord else m.kind = offsetofWord

def measure (ts : List Token) : Option (Measure × List Token) :=
  (measureParts ts).filter fun read => read.1.isSpelled

def usingWord : Word := ['u', 's', 'i', 'n', 'g']

def enumWords : Word × Word := (['e', 'n', 'u', 'm'], ['c', 'l', 'a', 's', 's'])

def operatorWords : Word × Word :=
  (['i', 'n', 'l', 'i', 'n', 'e'], ['o', 'p', 'e', 'r', 'a', 't', 'o', 'r'])

def assertWord : Word :=
  ['s', 't', 'a', 't', 'i', 'c', '_', 'a', 's', 's', 'e', 'r', 't']

def itemParts (ts : List Token) : Option (Item × List Token) :=
  match ts with
  | .word w :: .word name :: .symbol '=' :: ts =>
      match eitherDeclaration (ts.length + 1) ts with
      | some (type, none, .symbol ';' :: ts) =>
          if w = usingWord then some (.typeAlias name type, ts) else none
      | _ => none
  | .word w :: .word w' :: .word name :: .symbol ':' :: .word underlying :: .symbol '{' :: ts =>
      match enumeratorList ts with
      | (values, .symbol '}' :: .symbol ';' :: ts) =>
          if (w, w') = enumWords then some (.enumeration name underlying values, ts) else none
      | _ => none
  | .word w :: .word result :: .word w' :: .symbol op :: .symbol '(' :: ts =>
      match parameters ts with
      | some (params, ts) =>
          match functionBody ts with
          | some (e, ts) =>
              if (w, w') = operatorWords then some (.operator ⟨result, op, params, e⟩, ts)
              else none
          | none => none
      | none => none
  | .word w :: .word name :: .symbol ';' :: ts =>
      if w = structWord then some (.declaration name, ts) else none
  | .word w :: .word name :: .symbol '{' :: ts =>
      match members (ts.length + 1) ts with
      | some (ms, .symbol '}' :: .symbol ';' :: ts) =>
          if w = structWord then some (.struct name ms, ts) else none
      | _ => none
  | .word w :: .symbol '(' :: ts =>
      match measure ts with
      | some (left, .symbol '=' :: .symbol '=' :: ts) =>
          match measure ts with
          | some (right, .symbol ',' :: .symbol '"' :: .symbol '"' :: .symbol ')' ::
              .symbol ';' :: ts) =>
              if w = assertWord then some (.assertion left right, ts) else none
          | _ => none
      | _ => none
  | _ => none

def Expr.isSpelled : Expr → Bool
  | .name w => isIdentifier w
  | .convert type e => isIdentifier type && e.isSpelled
  | .complement e => e.isSpelled
  | .binary _ left right => left.isSpelled && right.isSpelled

/-- Parameters have distinct names, and each hides a type of its name from the
next ones. -/
def parametersSpelled : (earlier : List Word) → List (Word × Word) → Bool
  | _, [] => true
  | earlier, (type, name) :: rest =>
      isIdentifier type && isIdentifier name && type ∉ earlier && name ∉ earlier &&
        parametersSpelled (name :: earlier) rest

/-- What is written where a name belongs is one. -/
def Item.isSpelled : Item → Bool
  | .typeAlias name _ => isIdentifier name
  | .enumeration name underlying values =>
      isIdentifier name && isIdentifier underlying && values.all fun value =>
        isIdentifier value.1 && (isIdentifier value.2 || (number value.2).isSome)
  | .operator f => isIdentifier f.result && parametersSpelled [] f.parameters && f.body.isSpelled
  | .declaration name => isIdentifier name
  | .struct name _ => isIdentifier name
  | .assertion _ _ => true

/-- The first item of a header. -/
def item (ts : List Token) : Option (Item × List Token) :=
  (itemParts ts).filter fun read => read.1.isSpelled

def items : (fuel : Nat) → List Token → Option (List Item)
  | 0, _ => none
  | _ + 1, [] => some []
  | fuel + 1, ts =>
      match item ts with
      | some (i, rest) => (items fuel rest).map (i :: ·)
      | none => none

def readHeader (text : List Char) : Option (List Item) :=
  items ((tokens text).length + 1) (tokens text)

/-- The tokens are the item, whatever follows it. -/
def ReadsItem (ts : List Token) (i : Item) : Prop :=
  ts ≠ [] ∧ ∀ rest, item (ts ++ rest) = some (i, rest)

namespace ReadsItem

theorem of_parts {ts : List Token} {i : Item} (hne : ts ≠ []) (hi : i.isSpelled = true)
    (hparts : ∀ rest, itemParts (ts ++ rest) = some (i, rest)) : ReadsItem ts i := by
  refine ⟨hne, fun rest => ?_⟩
  rw [item, hparts]
  exact Option.filter_some_pos hi

theorem typeAlias {ts : List Token} {type : CType} (h : ReadsTypeId ts type) {name : Word}
    (hname : isIdentifier name = true) :
    ReadsItem (.word usingWord :: .word name :: .symbol '=' :: ts ++ [.symbol ';'])
      (.typeAlias name type) := by
  refine of_parts (List.cons_ne_nil _ _) hname fun rest => ?_
  have hread := h (.symbol ';' :: rest) rfl ((ts ++ .symbol ';' :: rest).length + 1)
    (by rw [List.length_append]; omega)
  have hsplit : .word usingWord :: .word name :: .symbol '=' :: ts ++ [.symbol ';'] ++ rest =
      .word usingWord :: .word name :: .symbol '=' :: (ts ++ .symbol ';' :: rest) := by simp
  rw [hsplit, itemParts, hread]
  rfl

def enumeratorTokens (values : List (Word × Word)) : List Token :=
  values.flatMap fun value => [.word value.1, .symbol '=', .word value.2, .symbol ',']

theorem enumeratorList_enumeratorTokens (values : List (Word × Word)) (rest : List Token) :
    enumeratorList (enumeratorTokens values ++ .symbol '}' :: rest) =
      (values, .symbol '}' :: rest) := by
  induction values with
  | nil => rfl
  | cons value values ih =>
      rw [enumeratorTokens] at ih
      simp [enumeratorTokens, enumeratorList, ih]

theorem enumeration {name underlying : Word} {values : List (Word × Word)}
    (hspelled : (Item.enumeration name underlying values).isSpelled = true) :
    ReadsItem ([.word enumWords.1, .word enumWords.2, .word name, .symbol ':', .word underlying,
        .symbol '{'] ++ enumeratorTokens values ++ [.symbol '}', .symbol ';'])
      (.enumeration name underlying values) := by
  refine of_parts (List.cons_ne_nil _ _) hspelled fun rest => ?_
  have hread := enumeratorList_enumeratorTokens values (.symbol ';' :: rest)
  have hsplit : [.word enumWords.1, .word enumWords.2, .word name, .symbol ':', .word underlying,
      .symbol '{'] ++ enumeratorTokens values ++ [.symbol '}', .symbol ';'] ++ rest =
        .word enumWords.1 :: .word enumWords.2 :: .word name :: .symbol ':' ::
          .word underlying :: .symbol '{' ::
            (enumeratorTokens values ++ .symbol '}' :: .symbol ';' :: rest) := by simp
  rw [hsplit, itemParts, hread]
  rfl

/-- `type(ctype(a) op ctype(b))` -/
def binaryBody (type ctype : Word) (op : Char) (a b : Word) : Expr :=
  .convert type (.binary op (.convert ctype (.name a)) (.convert ctype (.name b)))

theorem binaryOperator {type ctype a b : Word} {op : Char} (hop : op = '|' ∨ op = '&')
    (htype : isIdentifier type = true) (hctype : isIdentifier ctype = true)
    (ha : isIdentifier a = true) (hb : isIdentifier b = true) (hne : type ≠ a) (hab : b ≠ a) :
    ReadsItem
      [.word operatorWords.1, .word type, .word operatorWords.2, .symbol op, .symbol '(',
        .word type, .word a, .symbol ',', .word type, .word b, .symbol ')', .symbol '{',
        .word returnWord, .word type, .symbol '(', .word ctype, .symbol '(', .word a, .symbol ')',
        .symbol op, .word ctype, .symbol '(', .word b, .symbol ')', .symbol ')', .symbol ';',
        .symbol '}']
      (.operator ⟨type, op, [(type, a), (type, b)], binaryBody type ctype op a b⟩) := by
  refine of_parts (List.cons_ne_nil _ _) ?_ fun rest => ?_
  · simp [Item.isSpelled, parametersSpelled, binaryBody, Expr.isSpelled, htype, hctype, ha, hb, hne,
      hab]
  rcases hop with rfl | rfl
  · rfl
  · rfl

/-- `type(~ctype(v))` -/
def complementBody (type ctype v : Word) : Expr :=
  .convert type (.complement (.convert ctype (.name v)))

theorem unaryOperator {type ctype v : Word} (htype : isIdentifier type = true)
    (hctype : isIdentifier ctype = true) (hv : isIdentifier v = true) :
    ReadsItem
      [.word operatorWords.1, .word type, .word operatorWords.2, .symbol '~', .symbol '(',
        .word type, .word v, .symbol ')', .symbol '{', .word returnWord, .word type, .symbol '(',
        .symbol '~', .word ctype, .symbol '(', .word v, .symbol ')', .symbol ')', .symbol ';',
        .symbol '}']
      (.operator ⟨type, '~', [(type, v)], complementBody type ctype v⟩) := by
  refine of_parts (List.cons_ne_nil _ _) ?_ fun _ => rfl
  simp [Item.isSpelled, parametersSpelled, complementBody, Expr.isSpelled, htype, hctype, hv]

theorem declaration {name : Word} (hname : isIdentifier name = true) :
    ReadsItem [.word structWord, .word name, .symbol ';'] (.declaration name) :=
  of_parts (List.cons_ne_nil _ _) hname fun _ => rfl

theorem struct {ts : List Token} {ms : List Member} (h : Opens ts ms) {name : Word}
    (hname : isIdentifier name = true) :
    ReadsItem (.word structWord :: .word name :: .symbol '{' :: ts ++ [.symbol '}', .symbol ';'])
      (.struct name ms) := by
  refine of_parts (List.cons_ne_nil _ _) hname fun rest => ?_
  have hread := h.readsMembers (.symbol ';' :: rest)
    ((ts ++ .symbol '}' :: .symbol ';' :: rest).length + 1) (by rw [List.length_append]; omega)
  have hsplit : .word structWord :: .word name :: .symbol '{' :: ts ++ [.symbol '}', .symbol ';'] ++
      rest = .word structWord :: .word name :: .symbol '{' ::
        (ts ++ .symbol '}' :: .symbol ';' :: rest) := by simp
  rw [hsplit, itemParts, hread]
  rfl

end ReadsItem

section Measures

def selectionTokens (path : List Word) : List Token :=
  path.flatMap fun w => [.symbol '.', .word w]

/-- The measure as it is written. -/
def measureTokens (m : Measure) : List Token :=
  match m.path with
  | [] => [.word m.kind, .symbol '(', .word m.struct, .symbol ')']
  | w :: path => [.word m.kind, .symbol '(', .word m.struct, .symbol ',', .word w] ++
      selectionTokens path ++ [.symbol ')']

theorem selection_selectionTokens (path : List Word) (rest : List Token) :
    selection (selectionTokens path ++ .symbol ')' :: rest) = (path, .symbol ')' :: rest) := by
  induction path with
  | nil => rfl
  | cons w path ih =>
      rw [selectionTokens] at ih
      simp [selectionTokens, selection, ih]

theorem measureParts_measureTokens (m : Measure) (rest : List Token) :
    measureParts (measureTokens m ++ rest) = some (m, rest) := by
  obtain ⟨kind, struct, path⟩ := m
  cases path with
  | nil => rfl
  | cons w path =>
      have hread := selection_selectionTokens path rest
      have hsplit : measureTokens ⟨kind, struct, w :: path⟩ ++ rest =
          .word kind :: .symbol '(' :: .word struct :: .symbol ',' :: .word w ::
            (selectionTokens path ++ .symbol ')' :: rest) := by
        simp [measureTokens]
      rw [hsplit, measureParts, hread]
      rfl

theorem measure_measureTokens {m : Measure} (hm : m.isSpelled = true) (rest : List Token) :
    measure (measureTokens m ++ rest) = some (m, rest) := by
  rw [measure, measureParts_measureTokens]
  exact Option.filter_some_pos hm

theorem ReadsItem.assertion {left right : Measure} (hspelledLeft : left.isSpelled = true)
    (hspelledRight : right.isSpelled = true) :
    ReadsItem (.word assertWord :: .symbol '(' :: measureTokens left ++
        .symbol '=' :: .symbol '=' :: measureTokens right ++
          [.symbol ',', .symbol '"', .symbol '"', .symbol ')', .symbol ';'])
      (.assertion left right) := by
  refine of_parts (List.cons_ne_nil _ _) rfl fun rest => ?_
  have hleft := measure_measureTokens hspelledLeft (.symbol '=' :: .symbol '=' ::
    (measureTokens right ++ .symbol ',' :: .symbol '"' :: .symbol '"' :: .symbol ')' ::
      .symbol ';' :: rest))
  have hright := measure_measureTokens hspelledRight
    (.symbol ',' :: .symbol '"' :: .symbol '"' :: .symbol ')' :: .symbol ';' :: rest)
  have hsplit : .word assertWord :: .symbol '(' :: measureTokens left ++
      .symbol '=' :: .symbol '=' :: measureTokens right ++
        [.symbol ',', .symbol '"', .symbol '"', .symbol ')', .symbol ';'] ++ rest =
      .word assertWord :: .symbol '(' :: (measureTokens left ++ .symbol '=' :: .symbol '=' ::
        (measureTokens right ++ .symbol ',' :: .symbol '"' :: .symbol '"' :: .symbol ')' ::
          .symbol ';' :: rest)) := by simp
  rw [hsplit, itemParts, hleft]
  simp only [hright]
  rfl

end Measures

section Items

def ReadsItems (ts : List Token) (is : List Item) : Prop :=
  ∀ fuel, ts.length < fuel → items fuel ts = some is

/-- The tokens are items in front of whatever items follow. -/
def Heads (ts : List Token) (is : List Item) : Prop :=
  ∀ more mems, ReadsItems more mems → ReadsItems (ts ++ more) (is ++ mems)

theorem readsItems_nil : ReadsItems [] [] := by
  intro fuel hfuel
  obtain ⟨fuel, rfl⟩ := Nat.exists_eq_succ_of_ne_zero (Nat.ne_of_gt hfuel)
  rfl

namespace Heads

theorem nil : Heads [] [] := fun _ _ hmore => hmore

theorem append {ts more : List Token} {is mems : List Item} (h : Heads ts is)
    (hmore : Heads more mems) : Heads (ts ++ more) (is ++ mems) := by
  intro rest mems' hrest
  rw [List.append_assoc, List.append_assoc]
  exact h _ _ (hmore _ _ hrest)

theorem one {ts : List Token} {i : Item} (h : ReadsItem ts i) : Heads ts [i] := by
  intro more mems hmore fuel hfuel
  obtain ⟨hne, hread⟩ := h
  have hpos := List.length_pos_iff.mpr hne
  rw [List.length_append] at hfuel
  obtain ⟨fuel, rfl⟩ := Nat.exists_eq_succ_of_ne_zero (Nat.ne_of_gt (Nat.zero_lt_of_lt hfuel))
  have hrest := hmore fuel (by omega)
  rw [items, hread]
  · simp [hrest]
  · simp [hne]

theorem flatMap {α : Type*} {xs : List α} {ts : α → List Token} {is : α → List Item}
    (hxs : ∀ x ∈ xs, Heads (ts x) (is x)) : Heads (xs.flatMap ts) (xs.flatMap is) := by
  induction xs with
  | nil => exact nil
  | cons x xs ih =>
      exact (hxs x List.mem_cons_self).append (ih fun y hy => hxs y (List.mem_cons_of_mem x hy))

theorem readHeader {text : List Char} {is : List Item} (h : Heads (tokens text) is) :
    readHeader text = some is := by
  have hread := h [] [] readsItems_nil ((tokens text).length + 1) (by simp)
  rwa [List.append_nil, List.append_nil] at hread

end Heads

end Items

end CloudabiCpp.Lib.Headers
