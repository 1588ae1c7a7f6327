import Brewin.Proofs.LeadingKeyword

namespace Brewin

/-- The statements that neither open nor close a part of the program. -/
inductive Simple
  | var (type : String) (names : List String)
  | assign (target : String) (expr : List String)
  | call (name : String) (args : List String)
  | ret (expr : List String)
  | nop
  | malformed (omission : Omission)
  deriving DecidableEq, Repr

def Simple.statement : Simple → Statement
  | var type names => .var type names
  | assign target expr => .assign target expr
  | call name args => .call name args
  | ret expr => .ret expr
  | nop => .nop
  | malformed omission => .malformed omission

/-- A properly nested sequence of lines as a tree: what stands first, and the rest behind it. Each
part carries the number of the line that it starts with. -/
inductive Body
  | done
  | line (here : Nat) (simple : Simple) (rest : Body)
  | branch (here : Nat) (cond : List String) (yes rest : Body)
  | fork (here : Nat) (cond : List String) (yes no rest : Body)
  | loop (here : Nat) (cond : List String) (inside rest : Body)
  deriving DecidableEq, Repr

namespace Body

/-- The lines that a tree stands for. -/
def statements : Body → List Statement
  | done => []
  | line _ simple rest => simple.statement :: rest.statements
  | branch _ cond yes rest => .ifThen cond :: yes.statements ++ .endIf :: rest.statements
  | fork _ cond yes no rest =>
    .ifThen cond :: yes.statements ++ .orElse :: no.statements ++ .endIf :: rest.statements
  | loop _ cond inside rest => .whileDo cond :: inside.statements ++ .endWhile :: rest.statements

def length (b : Body) : Nat :=
  b.statements.length

@[simp]
theorem length_done : done.length = 0 :=
  rfl

@[simp]
theorem length_line (here : Nat) (simple : Simple) (rest : Body) :
    (line here simple rest).length = rest.length + 1 :=
  rfl

@[simp]
theorem length_branch (here : Nat) (cond : List String) (yes rest : Body) :
    (branch here cond yes rest).length = yes.length + rest.length + 2 := by
  simp only [length, statements, List.length_append, List.length_cons]
  omega

@[simp]
theorem length_fork (here : Nat) (cond : List String) (yes no rest : Body) :
    (fork here cond yes no rest).length = yes.length + no.length + rest.length + 3 := by
  simp only [length, statements, List.length_append, List.length_cons]
  omega

@[simp]
theorem length_loop (here : Nat) (cond : List String) (inside rest : Body) :
    (loop here cond inside rest).length = inside.length + rest.length + 2 := by
  simp only [length, statements, List.length_append, List.length_cons]
  omega

/-- The numbers in the tree are those of its lines, the first of which is line `n`. -/
def Numbered : Nat → Body → Prop
  | _, done => True
  | n, line here _ rest => here = n ∧ Numbered (n + 1) rest
  | n, branch here _ yes rest =>
    here = n ∧ Numbered (n + 1) yes ∧ Numbered (n + yes.length + 2) rest
  | n, fork here _ yes no rest =>
    here = n ∧ Numbered (n + 1) yes ∧ Numbered (n + yes.length + 2) no ∧
      Numbered (n + yes.length + no.length + 3) rest
  | n, loop here _ inside rest =>
    here = n ∧ Numbered (n + 1) inside ∧ Numbered (n + inside.length + 2) rest

/-- The same tree with its numbers set right. -/
def renumber : Nat → Body → Body
  | _, done => done
  | n, line _ simple rest => line n simple (renumber (n + 1) rest)
  | n, branch _ cond yes rest =>
    branch n cond (renumber (n + 1) yes) (renumber (n + yes.length + 2) rest)
  | n, fork _ cond yes no rest =>
    fork n cond (renumber (n + 1) yes) (renumber (n + yes.length + 2) no)
      (renumber (n + yes.length + no.length + 3) rest)
  | n, loop _ cond inside rest =>
    loop n cond (renumber (n + 1) inside) (renumber (n + inside.length + 2) rest)

theorem statements_renumber (n : Nat) (b : Body) : (renumber n b).statements = b.statements := by
  induction b generalizing n with
  | done => rfl
  | line here simple rest ih => simp only [renumber, statements, ih]
  | branch here cond yes rest ihYes ih => simp only [renumber, statements, ihYes, ih]
  | fork here cond yes no rest ihYes ihNo ih =>
    simp only [renumber, statements, ihYes, ihNo, ih]
  | loop here cond inside rest ihInside ih => simp only [renumber, statements, ihInside, ih]

theorem length_renumber (n : Nat) (b : Body) : (renumber n b).length = b.length := by
  simp only [length, statements_renumber]

theorem numbered_renumber (n : Nat) (b : Body) : (renumber n b).Numbered n := by
  induction b generalizing n with
  | done => trivial
  | line here simple rest ih => exact ⟨rfl, ih _⟩
  | branch here cond yes rest ihYes ih =>
    refine ⟨rfl, ihYes _, ?_⟩
    rw [length_renumber]
    exact ih _
  | fork here cond yes no rest ihYes ihNo ih =>
    refine ⟨rfl, ihYes _, ?_, ?_⟩
    · rw [length_renumber]
      exact ihNo _
    · rw [length_renumber, length_renumber]
      exact ih _
  | loop here cond inside rest ihInside ih =>
    refine ⟨rfl, ihInside _, ?_⟩
    rw [length_renumber]
    exact ih _

end Body

/-- A function: what its func line declares, and its body. -/
structure Routine where
  definition : Definition
  body : Body
  deriving DecidableEq, Repr

/-- The line of the endfunc. -/
def Routine.lastLine (r : Routine) : Nat :=
  r.definition.line + r.body.length + 1

/-- A program as a list of functions. -/
structure Outline where
  routines : List Routine
  deriving DecidableEq, Repr

/-- The function of a name; of several the last one counts. -/
def Outline.find? (t : Outline) (name : String) : Option Routine :=
  t.routines.reverse.find? (·.definition.name == name)

/-- Functions with nothing but empty lines between them, each a func line, a properly nested body
and an endfunc. -/
inductive WellNested : List Statement → Prop
  | done : WellNested []
  | gap {ss : List Statement} : WellNested ss → WellNested (.nop :: ss)
  | routine {ss : List Statement} (name : String) (b : Body) :
      WellNested ss → WellNested (.func name :: b.statements ++ .endFunc :: ss)

/-- A token stream whose first line is line `n` consists of these functions. -/
inductive Outlined : Nat → List (List String) → List Routine → Prop
  | done {n : Nat} : Outlined n [] []
  | gap {n : Nat} {tokens : List String} {stream : List (List String)} {rs : List Routine} :
      Statement.decode tokens = .nop → Outlined (n + 1) stream rs →
      Outlined n (tokens :: stream) rs
  | routine {n : Nat} {header last : List String} {inner stream : List (List String)}
      {r : Routine} {rs : List Routine} :
      Definition.ofTokens? n header = some r.definition →
      inner.map Statement.decode = r.body.statements → r.body.Numbered (n + 1) →
      Statement.decode last = .endFunc → Outlined (n + inner.length + 2) stream rs →
      Outlined n (header :: inner ++ last :: stream) (r :: rs)

/-- The statements that the lines of a source decode to. -/
def decoded (source : List String) : List Statement :=
  source.map fun line => Statement.decode (tokenize line)

/-- The outline is that of the source. -/
def Outline.Describes (t : Outline) (source : List String) : Prop :=
  Outlined 0 (source.map tokenize) t.routines

theorem exists_outlined {ss : List Statement} (h : WellNested ss) {stream : List (List String)}
    (hs : stream.map Statement.decode = ss) (n : Nat) : ∃ rs, Outlined n stream rs := by
  induction h generalizing stream n with
  | done =>
    cases List.map_eq_nil_iff.mp hs
    exact ⟨[], .done⟩
  | gap _ ih =>
    obtain ⟨tokens, rest, rfl, ht, hr⟩ := List.map_eq_cons_iff.mp hs
    obtain ⟨rs, hrs⟩ := ih hr (n + 1)
    exact ⟨rs, .gap ht hrs⟩
  | routine name b _ ih =>
    obtain ⟨front, back, rfl, hf, hb⟩ := List.map_eq_append_iff.mp hs
    obtain ⟨header, inner, rfl, hh, hi⟩ := List.map_eq_cons_iff.mp hf
    obtain ⟨last, rest, rfl, hl, hr⟩ := List.map_eq_cons_iff.mp hb
    obtain ⟨f, hd, -⟩ := ofTokens?_isSome_iff.mpr hh
    obtain ⟨rs, hrs⟩ := ih hr (n + inner.length + 2)
    refine ⟨⟨f, b.renumber (n + 1)⟩ :: rs, .routine hd ?_ (b.numbered_renumber _) hl hrs⟩
    rw [b.statements_renumber, hi]

theorem exists_describes {source : List String} (h : WellNested (decoded source)) :
    ∃ t : Outline, t.Describes source := by
  have hs : (source.map tokenize).map Statement.decode = decoded source := by
    simp [decoded]
  obtain ⟨rs, hrs⟩ := exists_outlined h hs 0
  exact ⟨⟨rs⟩, hrs⟩

/-- A loop of two rounds around a branch and a call by reference. -/
def twoRounds : List String :=
  ["func main void", "var int x", "while < x 2", "if == x 1", "funccall print x", "else",
    "funccall print \"start\"", "endif", "funccall grow x", "endwhile", "return", "endfunc", "",
    "func grow n:refint void", "assign n + n 1", "endfunc"]

def twoRoundsTokens : List (List String) :=
  ["func", "main", "void"] :: [["var", "int", "x"], ["while", "<", "x", "2"],
    ["if", "==", "x", "1"], ["funccall", "print", "x"], ["else"], ["funccall", "print", "\"start\""],
    ["endif"], ["funccall", "grow", "x"], ["endwhile"], ["return"]] ++ ["endfunc"] :: [] ::
  (["func", "grow", "n:refint", "void"] :: [["assign", "n", "+", "n", "1"]] ++ ["endfunc"] :: [])

theorem tokenize_twoRounds : twoRounds.map tokenize = twoRoundsTokens := by
  decide +kernel

def twoRoundsBody : Body :=
  .line 1 (.var "int" ["x"]) <|
  .loop 2 ["<", "x", "2"]
    (.fork 3 ["==", "x", "1"] (.line 4 (.call "print" ["x"]) .done)
      (.line 6 (.call "print" ["\"start\""]) .done) (.line 8 (.call "grow" ["x"]) .done)) <|
  .line 10 (.ret []) .done

def growBody : Body :=
  .line 14 (.assign "n" ["+", "n", "1"]) .done

def twoRoundsOutline : Outline :=
  ⟨[⟨⟨"main", 0, [], "void"⟩, twoRoundsBody⟩,
    ⟨⟨"grow", 13, [⟨"n", "int", true⟩], "void"⟩, growBody⟩]⟩

theorem wellNested_twoRounds : WellNested (decoded twoRounds) := by
  have h : decoded twoRounds = .func "main" :: twoRoundsBody.statements ++ .endFunc ::
      .nop :: (.func "grow" :: growBody.statements ++ .endFunc :: []) := by
    rw [decoded, ← Function.comp_def, ← List.map_map, tokenize_twoRounds]
    decide
  rw [h]
  exact .routine _ _ (.gap (.routine _ _ .done))

theorem describes_twoRounds : twoRoundsOutline.Describes twoRounds := by
  rw [Outline.Describes, tokenize_twoRounds]
  refine .routine (by decide) (by decide) ?_ (by decide)
    (.gap (by decide) (.routine (by decide) (by decide) ?_ (by decide) .done))
  · simp [Body.Numbered, twoRoundsBody]
  · simp [Body.Numbered, growBody]

end Brewin
