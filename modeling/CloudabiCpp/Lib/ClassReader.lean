import CloudabiCpp.Lib.Aggregates

/-!
A reader for the member list of a class. The rules say what is read when pieces
of such a list are put together, whatever members follow.
-/

namespace CloudabiCpp.Lib.ClassReader

open CloudabiCpp.Lib.Lexer
open CloudabiCpp.Lib.Declarations
open CloudabiCpp.Lib.Aggregates

/-- Line breaks separate words as blanks do. -/
def tokens (text : List Char) : List Token :=
  (lex text).filter (· ≠ .symbol '\n')

/-- A declaration or a type-id whose `const` may stand on either side of the base
type. -/
def eitherDeclaration : (fuel : Nat) → List Token → Option (CType × Option Word × List Token)
  | 0, _ => none
  | fuel + 1, ts =>
      match baseType (eitherDeclaration fuel) (takeConst ts).2 with
      | none => none
      | some (base, rest) =>
          if (takeConst ts).1 && (takeConst rest).1 then none
          else
            (declarator (rest.length + 1) (takeConst rest).2).map fun read =>
              (read.1.apply
                (if (takeConst ts).1 || (takeConst rest).1 then base.addConst else base),
                read.1.declared, read.2)

def structWord : Word := ['s', 't', 'r', 'u', 'c', 't']

def unionWord : Word := ['u', 'n', 'i', 'o', 'n']

/-- The members up to the closing brace. -/
def members : (fuel : Nat) → List Token → Option (List Member × List Token)
  | 0, _ => none
  | fuel + 1, ts =>
      match ts with
      | .symbol '}' :: ts => some ([], .symbol '}' :: ts)
      | .word w :: .symbol '{' :: ts =>
          match members fuel ts with
          | some (inner, .symbol '}' :: .symbol ';' :: ts) =>
              if w = unionWord then
                (members fuel ts).map fun read => (.union inner :: read.1, read.2)
              else none
          | some (inner, .symbol '}' :: .word name :: .symbol ';' :: ts) =>
              if w = structWord ∧ isIdentifier name = true then
                (members fuel ts).map fun read => (.struct inner name :: read.1, read.2)
              else none
          | _ => none
      | ts =>
          match eitherDeclaration (ts.length + 1) ts with
          | some (type, some name, .symbol ';' :: rest) =>
              (members fuel rest).map fun read => (.field type name :: read.1, read.2)
          | _ => none

section Declaration

theorem baseType_mono {f g : List Token → Option (CType × Option Word × List Token)}
    (hfg : ∀ ts read, f ts = some read → g ts = some read) {ts : List Token}
    {read : CType × List Token} (hread : baseType f ts = some read) :
    baseType g ts = some read := by
  have hnamed : ∀ read, namedType f ts = some read → namedType g ts = some read := by
    intro read hread
    unfold namedType at hread ⊢
    split at hread
    · split at hread
      · rename_i hargument
        rw [hfg _ _ hargument]
        exact hread
      · cases hread
    · exact hread
    · cases hread
  rw [baseType] at hread ⊢
  rcases Option.or_eq_some_iff.mp hread with hfundamental | ⟨hnone, hread⟩
  · rw [hfundamental]
    rfl
  · rw [hnone, Option.none_or]
    exact hnamed read hread

theorem eitherDeclaration_of_plain {fuel : Nat} {ts : List Token}
    {read : CType × Option Word × List Token}
    (hread : declaration fuel ts = some read) : eitherDeclaration fuel ts = some read := by
  induction fuel generalizing ts read with
  | zero => cases hread
  | succ fuel ih =>
      rw [declaration] at hread
      split at hread
      · cases hread
      · rename_i base rest hbase
        obtain ⟨d, hdeclarator, hd⟩ := Option.map_eq_some_iff.mp hread
        rw [eitherDeclaration, baseType_mono (fun _ _ => ih) hbase]
        simp [takeConst_of_declarator hdeclarator, hdeclarator, hd]

/-- A base type with `const` after it, as a type-id. -/
theorem eitherDeclaration_const {ts : List Token} {base : CType} (hbase : ReadsBase ts (some base))
    {rest : List Token} (hrest : closes rest = true) {fuel : Nat} (hfuel : ts.length < fuel) :
    eitherDeclaration fuel (ts ++ .word constWord :: rest) = some (base.addConst, none, rest) := by
  obtain ⟨fuel, rfl⟩ := Nat.exists_eq_succ_of_ne_zero (Nat.ne_of_gt (Nat.zero_lt_of_lt hfuel))
  have hread := hbase.read (.word constWord :: rest) rfl fuel (by omega)
  have hconst : takeConst (.word constWord :: rest) = (true, rest) := by
    simp [takeConst]
  have hnothing := ReadsDirect.reads ReadsDirect.nothing rest hrest
    ((.word constWord :: rest).length + 1) (by simp)
  rw [List.nil_append] at hnothing
  rw [eitherDeclaration, hbase.plain,
    baseType_mono (fun _ _ => eitherDeclaration_of_plain) hread]
  simp only [hconst]
  rw [hnothing]
  rfl

/-- The type with the name of its base type looked up in a namespace. -/
def inside (ns : Word) : CType → CType
  | .named const path => .named const (ns :: path)
  | .template const path argument => .template const (ns :: path) argument
  | .pointer const target => .pointer const (inside ns target)
  | .array count element => .array count (inside ns element)

/-- The type with such a namespace left out again. -/
def unqualified (ns : Word) : CType → CType
  | .named const (w :: w' :: path) =>
      if w = ns then .named const (w' :: path) else .named const (w :: w' :: path)
  | .template const (w :: w' :: path) argument =>
      if w = ns then .template const (w' :: path) argument
      else .template const (w :: w' :: path) argument
  | .pointer const target => .pointer const (unqualified ns target)
  | .array count element => .array count (unqualified ns element)
  | type => type

theorem addConst_inside (ns : Word) (type : CType) :
    (inside ns type).addConst = inside ns type.addConst := by
  induction type with
  | named const path => rfl
  | template const path argument ih => rfl
  | pointer const target ih => rfl
  | array count element ih => simp only [inside, CType.addConst, ih]

theorem apply_inside (ns : Word) (d : Declarator) (base : CType) :
    d.apply (inside ns base) = inside ns (d.apply base) := by
  induction d generalizing base with
  | name declared => rfl
  | pointer const inner ih => exact ih (.pointer const base)
  | array inner count ih => exact ih (.array count base)

theorem baseType_qualified (argument : List Token → Option (CType × Option Word × List Token))
    {ns w : Word} (hns : isIdentifier ns = true) (hw : isIdentifier w = true) (ts : List Token) :
    baseType argument (.word ns :: .symbol ':' :: .symbol ':' :: .word w :: ts) =
      (baseType argument (.word w :: ts)).map fun read => (inside ns read.1, read.2) := by
  have hpath : path (.word ns :: .symbol ':' :: .symbol ':' :: .word w :: ts) =
      (path (.word w :: ts)).map fun read => (ns :: read.1, read.2) := by
    rw [path, if_pos hns]
  rcases hread : path (.word w :: ts) with _ | ⟨names, rest⟩
  · rw [hread] at hpath
    rw [baseType_identifier _ hns, baseType_identifier _ hw, namedType, hpath, namedType, hread]
    rfl
  · rw [hread] at hpath
    by_cases hangle : ∃ ts', rest = .symbol '<' :: ts'
    · obtain ⟨ts', rfl⟩ := hangle
      rw [baseType_template argument hpath, baseType_template argument hread]
      split
      · rfl
      · rfl
    · have hrest : ∀ ts', rest ≠ .symbol '<' :: ts' := fun ts' heq => hangle ⟨ts', heq⟩
      rw [baseType_named argument hpath hrest, baseType_named argument hread hrest]
      rfl

/-- A qualifier before a declaration that begins with a name. -/
theorem eitherDeclaration_qualified {ns w : Word} (hns : isIdentifier ns = true)
    (hw : isIdentifier w = true) (ts : List Token) (fuel : Nat) :
    eitherDeclaration fuel (.word ns :: .symbol ':' :: .symbol ':' :: .word w :: ts) =
      (eitherDeclaration fuel (.word w :: ts)).map fun read => (inside ns read.1, read.2) := by
  cases fuel with
  | zero => rfl
  | succ fuel =>
      rw [eitherDeclaration, takeConst_identifier hns, baseType_qualified _ hns hw,
        eitherDeclaration, takeConst_identifier hw]
      rcases baseType (eitherDeclaration fuel) (.word w :: ts) with _ | ⟨base, rest⟩
      · rfl
      · simp only [Option.map_some, Bool.false_and, Bool.false_or, Bool.false_eq_true, if_false,
          Option.map_map]
        congr 1
        funext read
        by_cases hconst : (takeConst rest).1 = true
        · simp only [Function.comp_apply, hconst, if_true, addConst_inside, apply_inside]
        · simp [hconst, apply_inside]

end Declaration

section Tokens

theorem mem_of_symbol_mem_lex {c : Char} {text : List Char} (hc : .symbol c ∈ lex text) :
    c ∈ text := by
  induction text with
  | nil => simp [lex] at hc
  | cons d text ih =>
      have hextend : .symbol c ∈ extendWord d (lex text) → .symbol c ∈ lex text := by
        unfold extendWord
        split <;> simp_all
      rw [lex] at hc
      split at hc
      · split at hc
        · exact List.mem_cons_of_mem d (ih (hextend hc))
        · exact List.mem_cons_of_mem d (ih (by simpa using hc))
      · split at hc
        · exact List.mem_cons_of_mem d (ih hc)
        · rcases List.mem_cons.mp hc with heq | hrest
          · rw [Token.symbol.inj heq]
            exact List.mem_cons_self
          · exact List.mem_cons_of_mem d (ih hrest)

theorem tokens_eq_lex {text : List Char} (hbreak : '\n' ∉ text) : tokens text = lex text := by
  rw [tokens, List.filter_eq_self]
  rintro t ht
  have hne : t ≠ .symbol '\n' := by
    rintro rfl
    exact hbreak (mem_of_symbol_mem_lex ht)
  simpa using hne

theorem tokens_append {text more : List Char}
    (hboundary : endsWord text = false ∨ startsWord more = false) :
    tokens (text ++ more) = tokens text ++ tokens more := by
  rw [tokens, lex_append hboundary, List.filter_append]
  rfl

theorem tokens_line (text more : List Char) :
    tokens (text ++ '\n' :: more) = tokens text ++ tokens more := by
  rw [tokens_append (Or.inr rfl)]
  congr 1

def IsWord (w : Word) : Prop :=
  w ≠ [] ∧ w.all isWordChar = true
  deriving Decidable

theorem isWord_of_isName {w : Word} (hw : IsName w) : IsWord w := ⟨hw.1, hw.2.1⟩

theorem tokens_word {w : Word} (hw : IsWord w) : tokens w = [.word w] := by
  rw [tokens, lex_word hw.1 hw.2]
  rfl

/-- The text ends between two tokens. -/
def Spells (text : List Char) (ts : List Token) : Prop :=
  endsWord text = false ∧ tokens text = ts
  deriving Decidable

/-- A text that can stand between two words. -/
def IsGap (gap : List Char) (ts : List Token) : Prop :=
  gap ≠ [] ∧ startsWord gap = false ∧ Spells gap ts
  deriving Decidable

theorem endsWord_append {text more : List Char} (hmore : endsWord more = false)
    (htext : more = [] → endsWord text = false) : endsWord (text ++ more) = false := by
  rw [endsWord, List.getLast?_append]
  cases hlast : more.getLast? with
  | none => exact htext (List.getLast?_eq_none_iff.mp hlast)
  | some c => rwa [endsWord, hlast] at hmore

namespace Spells

theorem nil : Spells [] [] := ⟨rfl, rfl⟩

theorem append {text more : List Char} {ts us : List Token} (h : Spells text ts)
    (hmore : Spells more us) : Spells (text ++ more) (ts ++ us) := by
  refine ⟨endsWord_append hmore.1 fun _ => h.1, ?_⟩
  rw [tokens_append (Or.inl h.1), h.2, hmore.2]

theorem word {text gap : List Char} {ts us : List Token} (h : Spells text ts) {w : Word}
    (hw : IsWord w) (hgap : IsGap gap us) :
    Spells (text ++ w ++ gap) (ts ++ .word w :: us) := by
  obtain ⟨hne, hstarts, hspells⟩ := hgap
  have hword : Spells (w ++ gap) (.word w :: us) := by
    refine ⟨endsWord_append hspells.1 fun hnil => absurd hnil hne, ?_⟩
    rw [tokens_append (Or.inr hstarts), tokens_word hw, hspells.2]
    rfl
  rw [List.append_assoc]
  exact h.append hword

end Spells

end Tokens

section Members

/-- The tokens are the declaration of a field, up to the semicolon. -/
def ReadsField (ts : List Token) (type : CType) (name : Word) : Prop :=
  ∀ rest fuel, ts.length < fuel →
    eitherDeclaration fuel (ts ++ .symbol ';' :: rest) = some (type, some name, .symbol ';' :: rest)

/-- The tokens are a type-id. -/
def ReadsTypeId (ts : List Token) (type : CType) : Prop :=
  ∀ rest, closes rest = true → ∀ fuel, ts.length < fuel →
    eitherDeclaration fuel (ts ++ rest) = some (type, none, rest)

/-- The tokens are the members, up to the closing brace. -/
def ReadsMembers (ts : List Token) (ms : List Member) : Prop :=
  ∀ rest fuel, ts.length < fuel →
    members fuel (ts ++ .symbol '}' :: rest) = some (ms, .symbol '}' :: rest)

/-- The tokens are members in front of whatever members follow. -/
def Opens (ts : List Token) (ms : List Member) : Prop :=
  ∀ more mems, ReadsMembers more mems → ReadsMembers (ts ++ more) (ms ++ mems)

theorem readsMembers_nil : ReadsMembers [] [] := by
  intro rest fuel hfuel
  obtain ⟨fuel, rfl⟩ := Nat.exists_eq_succ_of_ne_zero (Nat.ne_of_gt hfuel)
  rfl

theorem not_brace_of_eitherDeclaration {fuel : Nat} {ts : List Token}
    {read : CType × Option Word × List Token} (hread : eitherDeclaration fuel ts = some read) :
    (∀ ts', ts ≠ .symbol '}' :: ts') ∧ ∀ w ts', ts ≠ .word w :: .symbol '{' :: ts' := by
  cases fuel with
  | zero => cases hread
  | succ fuel =>
      constructor
      · rintro ts' rfl
        cases hread
      · rintro w ts' rfl
        rw [eitherDeclaration] at hread
        by_cases hconst : w = constWord
        · have htake : takeConst (.word w :: .symbol '{' :: ts') = (true, .symbol '{' :: ts') := by
            simp [takeConst, hconst]
          rw [htake] at hread
          cases hread
        · have htake : takeConst (.word w :: .symbol '{' :: ts') =
              (false, .word w :: .symbol '{' :: ts') := by
            simp [takeConst, hconst]
          rw [htake] at hread
          -- whatever the word is read as, no declarator begins with a brace
          have hbase : ∀ read, baseType (eitherDeclaration fuel) (.word w :: .symbol '{' :: ts') =
              some read → read.2 = .symbol '{' :: ts' := by
            intro read hread
            by_cases hw : isIdentifier w = true
            · have hpath : path (.word w :: .symbol '{' :: ts') =
                  some ([w], .symbol '{' :: ts') := by simp [path, hw]
              rw [baseType_named _ hpath (by simp)] at hread
              rw [← Option.some.inj hread]
            · have hpath : path (.word w :: .symbol '{' :: ts') = none := by simp [path, hw]
              rw [baseType, namedType, hpath, fundamentalType, Option.or_none] at hread
              split_ifs at hread
              rw [← Option.some.inj hread]
          split at hread
          · cases hread
          · rename_i base rest hsome
            obtain rfl := hbase _ hsome
            simp [takeConst, declarator, closes, opensSuffix] at hread

theorem ReadsTypeId.const {ts : List Token} {base : CType} (hbase : ReadsBase ts (some base)) :
    ReadsTypeId (ts ++ [.word constWord]) base.addConst := by
  intro rest hrest fuel hfuel
  rw [List.length_append] at hfuel
  rw [List.append_assoc]
  exact eitherDeclaration_const hbase hrest (by omega)

theorem ReadsField.template {names : List Word} (hne : names ≠ [])
    (hnames : ∀ w ∈ names, isIdentifier w = true) {ts : List Token} {argument : CType}
    (hargument : ReadsTypeId ts argument) {name : Word} (hname : isIdentifier name = true) :
    ReadsField (pathTokens names ++ .symbol '<' :: ts ++ [.symbol '>', .word name])
      (.template false names argument) name := by
  intro rest fuel hfuel
  simp only [List.length_append, List.length_cons] at hfuel
  obtain ⟨fuel, rfl⟩ := Nat.exists_eq_succ_of_ne_zero (Nat.ne_of_gt (Nat.zero_lt_of_lt hfuel))
  have hsplit : pathTokens names ++ .symbol '<' :: ts ++ [.symbol '>', .word name] ++
      .symbol ';' :: rest = pathTokens names ++ .symbol '<' ::
        (ts ++ .symbol '>' :: .word name :: .symbol ';' :: rest) := by simp
  have hpath : path (pathTokens names ++ .symbol '<' ::
      (ts ++ .symbol '>' :: .word name :: .symbol ';' :: rest)) =
        some (names, .symbol '<' :: (ts ++ .symbol '>' :: .word name :: .symbol ';' :: rest)) :=
    path_pathTokens hne hnames (Or.inr ⟨_, rfl⟩)
  have hread := hargument (.symbol '>' :: .word name :: .symbol ';' :: rest) rfl fuel (by omega)
  have hdeclarator := (ReadsDirect.name hname).reads (.symbol ';' :: rest) rfl
    ((.word name :: .symbol ';' :: rest).length + 1) (by simp)
  rw [hsplit, eitherDeclaration, takeConst_pathTokens hne hnames, baseType_template _ hpath, hread]
  simp only [takeConst_identifier hname]
  rw [List.singleton_append] at hdeclarator
  rw [hdeclarator]
  rfl

namespace Opens

theorem readsMembers {ts : List Token} {ms : List Member} (h : Opens ts ms) :
    ReadsMembers ts ms := by
  have hnil := h [] [] readsMembers_nil
  rwa [List.append_nil, List.append_nil] at hnil

theorem nil : Opens [] [] := fun _ _ hmore => hmore

theorem append {ts more : List Token} {ms mems : List Member} (h : Opens ts ms)
    (hmore : Opens more mems) : Opens (ts ++ more) (ms ++ mems) := by
  intro rest mems' hrest
  rw [List.append_assoc, List.append_assoc]
  exact h _ _ (hmore _ _ hrest)

theorem field {ts : List Token} {type : CType} {name : Word} (h : ReadsField ts type name) :
    Opens (ts ++ [.symbol ';']) [.field type name] := by
  intro more mems hmore rest fuel hfuel
  simp only [List.length_append, List.length_singleton] at hfuel
  obtain ⟨fuel, rfl⟩ := Nat.exists_eq_succ_of_ne_zero (Nat.ne_of_gt (Nat.zero_lt_of_lt hfuel))
  have hfollow := hmore rest fuel (by omega)
  have hsplit : ts ++ [.symbol ';'] ++ more ++ .symbol '}' :: rest =
      ts ++ .symbol ';' :: (more ++ .symbol '}' :: rest) := by simp
  have hread := h (more ++ .symbol '}' :: rest)
    ((ts ++ .symbol ';' :: (more ++ .symbol '}' :: rest)).length + 1)
    (by rw [List.length_append]; omega)
  obtain ⟨hbrace, hopen⟩ := not_brace_of_eitherDeclaration hread
  rw [hsplit, members]
  · rw [hread]
    simp [hfollow]
  · exact hbrace
  · exact hopen

theorem union {ts : List Token} {ms : List Member} (h : Opens ts ms) :
    Opens (.word unionWord :: .symbol '{' :: ts ++ [.symbol '}', .symbol ';']) [.union ms] := by
  intro more mems hmore rest fuel hfuel
  simp only [List.length_append, List.length_cons, List.length_nil] at hfuel
  obtain ⟨fuel, rfl⟩ := Nat.exists_eq_succ_of_ne_zero (Nat.ne_of_gt (Nat.zero_lt_of_lt hfuel))
  have hfollow := hmore rest fuel (by omega)
  have hinner := h.readsMembers (.symbol ';' :: (more ++ .symbol '}' :: rest)) fuel (by omega)
  have hsplit : .word unionWord :: .symbol '{' :: ts ++ [.symbol '}', .symbol ';'] ++ more ++
      .symbol '}' :: rest = .word unionWord :: .symbol '{' ::
        (ts ++ .symbol '}' :: .symbol ';' :: (more ++ .symbol '}' :: rest)) := by simp
  rw [hsplit, members]
  simp [hinner, hfollow]

theorem struct {ts : List Token} {ms : List Member} (h : Opens ts ms) {name : Word}
    (hname : isIdentifier name = true) :
    Opens (.word structWord :: .symbol '{' :: ts ++ [.symbol '}', .word name, .symbol ';'])
      [.struct ms name] := by
  intro more mems hmore rest fuel hfuel
  simp only [List.length_append, List.length_cons, List.length_nil] at hfuel
  obtain ⟨fuel, rfl⟩ := Nat.exists_eq_succ_of_ne_zero (Nat.ne_of_gt (Nat.zero_lt_of_lt hfuel))
  have hfollow := hmore rest fuel (by omega)
  have hinner := h.readsMembers (.word name :: .symbol ';' :: (more ++ .symbol '}' :: rest)) fuel
    (by omega)
  have hsplit : .word structWord :: .symbol '{' :: ts ++ [.symbol '}', .word name, .symbol ';'] ++
      more ++ .symbol '}' :: rest = .word structWord :: .symbol '{' ::
        (ts ++ .symbol '}' :: .word name :: .symbol ';' :: (more ++ .symbol '}' :: rest)) := by
    simp
  rw [hsplit, members]
  simp [hinner, hfollow, hname]

end Opens

end Members

end CloudabiCpp.Lib.ClassReader
