import Mathlib.Data.List.Basic
import Brewin.Flags

namespace Brewin

theorem toOption_eq_some_iff {ε α : Type} {r : Except ε α} {a : α} :
    r.toOption = some a ↔ r = .ok a := by
  cases r <;> simp [Except.toOption]

/-- In a fold the last step that sets a field decides it. -/
theorem getLast?_of_foldlM {σ ι α : Type} {step : σ → ι → Option σ} {get : σ → Option α}
    {read : ι → Option α} {is : List ι} {s t : σ} (h : is.foldlM step s = some t)
    (hstep : ∀ {s i t}, step s i = some t → get t = (read i).or (get s)) :
    get t = (is.filterMap read).getLast?.or (get s) := by
  induction is generalizing s with
  | nil =>
    cases h
    rfl
  | cons i is ih =>
    rw [List.foldlM_cons] at h
    obtain ⟨m, hm, h⟩ := Option.bind_eq_some_iff.mp h
    rw [ih h, hstep hm]
    cases hr : read i with
    | none => rw [List.filterMap_cons_none hr, Option.none_or]
    | some a =>
      rw [List.filterMap_cons_some hr, List.getLast?_cons]
      cases (is.filterMap read).getLast? <;> rfl

/-- What an entry says about a name. -/
def said? {α β : Type} (read : β → Option α) (name : String) (entry : String × β) : Option α :=
  if entry.1 = name then read entry.2 else none

/-- What entries say about a name. The last one counts. -/
def lastSaid? {α β : Type} (read : β → Option α) (name : String) (entries : List (String × β)) :
    Option α :=
  (entries.filterMap (said? read name)).getLast?

namespace Flags

/-- The uses of flags in front of the operands: each is a name with what is written for it. -/
def uses : List String → List (String × Option String)
  | [] => []
  | argument :: rest =>
    match readArgument argument with
    | .flag name value? =>
      match takesValue name, value?, rest with
      | true, none, value :: rest => (name, some value) :: uses rest
      | _, value?, rest => (name, value?) :: uses rest
    | .operand | .terminator | .bad => []

/-- A flag alone says yes. -/
def useTruth? : Option String → Option Bool
  | none => some true
  | some text => Settings.readTruth? text

def useNumber? (value? : Option String) : Option Int :=
  value?.bind fun text => (readPrefixed text).toOption

/-- What a command line says about a flag. -/
def given? {α : Type} (read : Option String → Option α) (name : String) (args : List String) :
    Option α :=
  lastSaid? read name (uses args)

theorem isSome_setTruth? (f : Flags) (name : String) (b b' : Bool) :
    (f.setTruth? name b).isSome = (f.setTruth? name b').isSome := by
  unfold setTruth?
  (repeat' split) <;> rfl

theorem setFlag_cases {f g : Flags} {name : String} {value? : Option String}
    (h : f.setFlag name value? = .ok g) :
    (name = "s" ∧ ∃ n, useNumber? value? = some n ∧ g = { f with maxSteps? := some n }) ∨
    (name = "c" ∧ ∃ text, value? = some text ∧ g = { f with configFile := text }) ∨
    ∃ b, useTruth? value? = some b ∧ f.setTruth? name b = some g := by
  unfold setFlag at h
  split at h
  next hname =>
    cases value? with
    | none => cases h
    | some text =>
      simp only [setValue] at h
      split at h
      next hs =>
        split at h
        next n hn =>
          cases h
          exact .inl ⟨hs, n, by simp [useNumber?, hn, Except.toOption], rfl⟩
        next => cases h
      next hs =>
        cases h
        have hc : name = "c" := by simpa [takesValue, hs] using hname
        exact .inr (.inl ⟨hc, text, rfl, rfl⟩)
  next =>
    split at h
    next => cases h
    next t ht =>
      cases value? with
      | none =>
        cases h
        exact .inr (.inr ⟨true, rfl, ht⟩)
      | some text =>
        simp only at h
        split at h
        next b hb =>
          have hsome : (f.setTruth? name b).isSome = true := by
            rw [isSome_setTruth? f name b true, ht]
            rfl
          obtain ⟨u, hu⟩ := Option.isSome_iff_exists.mp hsome
          rw [hu, Option.getD_some] at h
          cases h
          exact .inr (.inr ⟨b, hb, hu⟩)
        next => cases h

theorem setTruth?_cases {f g : Flags} {name : String} {b : Bool}
    (h : f.setTruth? name b = some g) :
    (name = "h" ∧ g = { f with help := b }) ∨ (name = "v" ∧ g = { f with verbose? := some b }) ∨
    (name = "n" ∧ g = { f with noColor? := some b }) ∨
    (name = "t" ∧ g = { f with trace? := some b }) := by
  unfold setTruth? at h
  (repeat' split at h) <;> simp_all

/-- A use of a flag sets what the flag stands for, and nothing else. -/
theorem setFlag_said {f g : Flags} {use : String × Option String}
    (h : (f.setFlag use.1 use.2).toOption = some g) :
    g.verbose? = (said? useTruth? "v" use).or f.verbose? ∧
    g.noColor? = (said? useTruth? "n" use).or f.noColor? ∧
    g.trace? = (said? useTruth? "t" use).or f.trace? ∧
    g.maxSteps? = (said? useNumber? "s" use).or f.maxSteps? ∧
    some g.configFile = (said? id "c" use).or (some f.configFile) := by
  obtain ⟨name, value?⟩ := use
  have hok : f.setFlag name value? = .ok g := toOption_eq_some_iff.mp h
  rcases setFlag_cases hok with ⟨rfl, n, hn, rfl⟩ | ⟨rfl, text, rfl, rfl⟩ | ⟨b, hb, ht⟩
  · simp [said?, hn]
  · simp [said?]
  · rcases setTruth?_cases ht with ⟨rfl, rfl⟩ | ⟨rfl, rfl⟩ | ⟨rfl, rfl⟩ | ⟨rfl, rfl⟩
    all_goals simp [said?, hb]

theorem foldlM_of_parse {f g : Flags} {args operands : List String}
    (h : f.parse args = .ok (g, operands)) :
    (uses args).foldlM (fun f use => (f.setFlag use.1 use.2).toOption) f = some g := by
  fun_induction parse f args with
  | case1 f =>
    cases h
    rfl
  | case2 f argument rest hread | case3 f argument rest hread =>
    cases h
    simp only [uses, hread]
    rfl
  | case4 | case6 | case8 => cases h
  | case5 f argument name value rest htakes f' hset hread ih =>
    simp only [uses, hread, htakes, List.foldlM_cons, hset, Except.toOption]
    exact ih h
  | case7 f argument name value? rest f' hset hread hnext ih =>
    simp only [uses, hread, List.foldlM_cons, hset, Except.toOption]
    exact ih h

/-- The flags are what the command line says about them. -/
theorem parse_given {args operands : List String} {flags : Flags}
    (h : ({} : Flags).parse args = .ok (flags, operands)) :
    flags.verbose? = given? useTruth? "v" args ∧ flags.noColor? = given? useTruth? "n" args ∧
    flags.trace? = given? useTruth? "t" args ∧ flags.maxSteps? = given? useNumber? "s" args ∧
    flags.configFile = (given? id "c" args).getD "" := by
  have hfold := foldlM_of_parse h
  have hverbose := getLast?_of_foldlM hfold fun hset => (setFlag_said hset).1
  have hcolor := getLast?_of_foldlM hfold fun hset => (setFlag_said hset).2.1
  have htrace := getLast?_of_foldlM hfold fun hset => (setFlag_said hset).2.2.1
  have hsteps := getLast?_of_foldlM hfold fun hset => (setFlag_said hset).2.2.2.1
  have hfile := getLast?_of_foldlM hfold fun hset => (setFlag_said hset).2.2.2.2
  rw [Option.or_none] at hverbose hcolor htrace hsteps
  refine ⟨hverbose, hcolor, htrace, hsteps, ?_⟩
  rw [Option.or_some] at hfile
  exact Option.some.inj hfile

end Flags

end Brewin
