import Brewin.Proofs.GivenFlags

namespace Brewin

namespace FieldValue

def truth? : FieldValue → Option Bool
  | truth b => some b
  | number _ => none

def number? : FieldValue → Option Int
  | truth _ => none
  | number n => some n

end FieldValue

namespace Settings

/-- A pair fills what its key names, and nothing else. -/
theorem fill_said (s : Settings) (pair : String × FieldValue) :
    some (s.fill pair).verbose =
      (said? FieldValue.truth? "verbose" pair).or (some s.verbose) ∧
    some (s.fill pair).noColor =
      (said? FieldValue.truth? "no_color" pair).or (some s.noColor) ∧
    some (s.fill pair).trace =
      (said? FieldValue.truth? "trace" pair).or (some s.trace) ∧
    some (s.fill pair).maxSteps =
      (said? FieldValue.number? "max_steps" pair).or (some s.maxSteps) := by
  unfold fill
  split
  · simp [said?, FieldValue.truth?]
  · simp [said?, FieldValue.truth?]
  · simp [said?, FieldValue.truth?]
  · simp [said?, FieldValue.number?]
  next hverbose hcolor htrace hsteps =>
    obtain ⟨key, value⟩ := pair
    cases value with
    | truth b =>
      have hv : key ≠ "verbose" := fun h => hverbose b (by rw [h])
      have hc : key ≠ "no_color" := fun h => hcolor b (by rw [h])
      have ht : key ≠ "trace" := fun h => htrace b (by rw [h])
      simp [said?, FieldValue.number?, hv, hc, ht]
    | number n =>
      have hs : key ≠ "max_steps" := fun h => hsteps n (by rw [h])
      simp [said?, FieldValue.truth?, hs]

/-- Settings that are filled from pairs are what the pairs say. -/
theorem foldl_fill_given (pairs : List (String × FieldValue)) :
    (pairs.foldl fill {}).verbose =
      (lastSaid? FieldValue.truth? "verbose" pairs).getD false ∧
    (pairs.foldl fill {}).noColor =
      (lastSaid? FieldValue.truth? "no_color" pairs).getD false ∧
    (pairs.foldl fill {}).trace =
      (lastSaid? FieldValue.truth? "trace" pairs).getD false ∧
    (pairs.foldl fill {}).maxSteps =
      (lastSaid? FieldValue.number? "max_steps" pairs).getD 0 := by
  have h : pairs.foldlM (fun s pair => some (fill s pair)) {} = some (pairs.foldl fill {}) :=
    List.foldlM_pure
  have hfill : ∀ {s t : Settings} {pair}, some (s.fill pair) = some t → s.fill pair = t :=
    Option.some.inj
  have hverbose := getLast?_of_foldlM h fun hset => hfill hset ▸ (fill_said _ _).1
  have hcolor := getLast?_of_foldlM h fun hset => hfill hset ▸ (fill_said _ _).2.1
  have htrace := getLast?_of_foldlM h fun hset => hfill hset ▸ (fill_said _ _).2.2.1
  have hsteps := getLast?_of_foldlM h fun hset => hfill hset ▸ (fill_said _ _).2.2.2
  rw [Option.or_some] at hverbose hcolor htrace hsteps
  exact ⟨Option.some.inj hverbose, Option.some.inj hcolor, Option.some.inj htrace,
    Option.some.inj hsteps⟩

end Settings

section Results

variable {ε α β : Type}

theorem toOption_eq_none_iff {r : Except ε α} : r.toOption = none ↔ ∃ e, r = .error e := by
  cases r <;> simp [Except.toOption]

theorem toOption_bind (r : Except ε α) (f : α → Except ε β) :
    (r >>= f).toOption = r.toOption.bind fun a => (f a).toOption := by
  cases r <;> rfl

/-- Of two parts in a row the first or the second fails. -/
theorem bind_eq_none_iff_or {o : Option α} {f : α → Option β} {P : Prop}
    (h : ∀ a, o = some a → (f a = none ↔ P)) : o.bind f = none ↔ o = none ∨ P := by
  cases o with
  | none => simp
  | some a => simpa using h a rfl

/-- A layer that is read if it is there, and otherwise leaves what is below it. -/
theorem eq_getD_of_elim {o : Option α} {read : α → Option β} {below b : β}
    (h : o.elim (some below) read = some b) : b = (o.bind read).getD below := by
  cases o with
  | none => exact (Option.some.inj h).symm
  | some a => rw [Option.bind_some, show read a = some b from h, Option.getD_some]

theorem elim_eq_none_iff {o : Option α} {read : α → Option β} (below : β) :
    o.elim (some below) read = none ↔ ∃ a, o = some a ∧ read a = none := by
  cases o <;> simp

end Results

/-- What becomes of a file: there is none, it is rejected, or it delivers its content. -/
inductive Delivery (α : Type)
  | absent | rejected | delivered (content : α)

namespace Delivery

variable {α β : Type}

/-- A file that is there but cannot be read is rejected. -/
def ofFile (read? : String → Option α) : Except FileError String → Delivery α
  | .error .missing => absent
  | .error _ => rejected
  | .ok text => (read? text).elim rejected delivered

def look? (f : α → Option β) : Delivery α → Option β
  | delivered content => f content
  | absent | rejected => none

end Delivery

namespace Settings

/-- The pairs that a decoder delivers for the four keys. A text without a document has none. -/
def pairs? (readers : Readers) (text : String) : Option (List (String × FieldValue)) :=
  match readers.decode [("verbose", .truth), ("no_color", .truth), ("trace", .truth),
    ("max_steps", .number)] text with
  | .error .ended => some []
  | .error .refused => none
  | .ok pairs => some pairs

/-- The settings file that is named, or the one that is read if none is. -/
def settingsFile (readers : Readers) (around : Surroundings) (path : String) :
    Delivery (List (String × FieldValue)) :=
  .ofFile (pairs? readers) (around.read (if path = "" then "brewin.yml" else path))

/-- The file of assignments. -/
def assignments (readers : Readers) (around : Surroundings) : Delivery (List (String × String)) :=
  .ofFile readers.assignments? (around.read ".env")

/-- What the settings file says about a key. -/
def fileValue? {α : Type} (readers : Readers) (around : Surroundings) (path : String)
    (read : FieldValue → Option α) (key : String) : Option α :=
  (settingsFile readers around path).look? (lastSaid? read key)

/-- The value of a variable in the environment, even if it is empty, or else in the file of
assignments. -/
def effectiveValue? (readers : Readers) (around : Surroundings) (name : String) : Option String :=
  (around.env? name).or ((assignments readers around).look? (·.lookup name))

/-- A step limit is a number that fits into 64 bits and is not negative. -/
def readLimit? (text : String) : Option Int :=
  ((readInt64? text).map Int64.toInt).filter fun n => 0 ≤ n

section

variable (readers : Readers) (around : Surroundings) (path : String)

theorem toOption_ofFile :
    (ofFile readers around path).toOption =
      match settingsFile readers around path with
      | .absent => if path = "" then some {} else none
      | .rejected => none
      | .delivered pairs => (some (pairs.foldl fill {})).filter fun s => 0 ≤ s.maxSteps := by
  unfold ofFile settingsFile
  dsimp only [defaultFile, fields]
  cases around.read (if path = "" then "brewin.yml" else path) with
  | error e =>
    by_cases hpath : path = "" <;> cases e <;> simp [hpath, Delivery.ofFile, Except.toOption]
  | ok text =>
    simp only [Delivery.ofFile, pairs?]
    cases readers.decode _ text with
    | error e => cases e <;> rfl
    | ok pairs =>
      by_cases hneg : (pairs.foldl fill {}).maxSteps < 0 <;>
        simp [hneg, Except.toOption, Option.filter]

theorem toOption_dotEnvVariables :
    (dotEnvVariables readers around).toOption =
      match assignments readers around with
      | .absent => some []
      | .rejected => none
      | .delivered assigned => some assigned := by
  unfold dotEnvVariables assignments
  dsimp only [dotEnvFile]
  cases around.read ".env" with
  | error e => cases e <;> rfl
  | ok text => cases h : readers.assignments? text <;> simp [Delivery.ofFile, h, Except.toOption]

end

theorem toOption_truthOf (env? : String → Option String) (name : String) (unset : Bool) :
    (truthOf env? name unset).toOption = (env? name).elim (some unset) readTruth? := by
  unfold truthOf
  cases env? name with
  | none => rfl
  | some text => cases h : readTruth? text <;> simp [h, Except.toOption]

theorem toOption_limitOf (env? : String → Option String) (unset : Int) :
    (limitOf env? unset).toOption = (env? "BREWIN_MAX_STEPS").elim (some unset) readLimit? := by
  unfold limitOf
  dsimp only [maxStepsVariable]
  cases env? "BREWIN_MAX_STEPS" with
  | none => rfl
  | some text =>
    cases h : readInt64? text with
    | none => simp [readLimit?, h, Except.toOption]
    | some n =>
      by_cases hn : n.toInt < 0 <;> simp [readLimit?, h, hn, Except.toOption, Option.filter]

theorem toOption_override (s : Settings) (env? : String → Option String) :
    (s.override env?).toOption =
      ((env? "BREWIN_VERBOSE").elim (some s.verbose) readTruth?).bind fun verbose =>
      ((env? "BREWIN_TRACE").elim (some s.trace) readTruth?).bind fun trace =>
      ((env? "BREWIN_MAX_STEPS").elim (some s.maxSteps) readLimit?).map fun maxSteps =>
        let noColor := s.noColor || (env? "NO_COLOR").getD "" != ""
        { verbose, noColor, trace, maxSteps } := by
  unfold override
  simp only [toOption_bind, toOption_truthOf, toOption_limitOf, Option.map_eq_bind]
  rfl

theorem override_fails_iff (s : Settings) (env? : String → Option String) :
    (s.override env?).toOption = none ↔
      (∃ text, env? "BREWIN_VERBOSE" = some text ∧ readTruth? text = none) ∨
      (∃ text, env? "BREWIN_TRACE" = some text ∧ readTruth? text = none) ∨
      ∃ text, env? "BREWIN_MAX_STEPS" = some text ∧ readLimit? text = none := by
  rw [toOption_override, ← elim_eq_none_iff s.verbose, ← elim_eq_none_iff s.trace,
    ← elim_eq_none_iff s.maxSteps]
  refine bind_eq_none_iff_or fun _ _ => bind_eq_none_iff_or fun _ _ => ?_
  exact Option.map_eq_none_iff

theorem override_given {s t : Settings} {env? : String → Option String}
    (h : (s.override env?).toOption = some t) :
    t.verbose = ((env? "BREWIN_VERBOSE").bind readTruth?).getD s.verbose ∧
    t.noColor = (s.noColor || (env? "NO_COLOR").getD "" != "") ∧
    t.trace = ((env? "BREWIN_TRACE").bind readTruth?).getD s.trace ∧
    t.maxSteps = ((env? "BREWIN_MAX_STEPS").bind readLimit?).getD s.maxSteps := by
  rw [toOption_override] at h
  obtain ⟨verbose, hverbose, h⟩ := Option.bind_eq_some_iff.mp h
  obtain ⟨trace, htrace, h⟩ := Option.bind_eq_some_iff.mp h
  obtain ⟨maxSteps, hsteps, rfl⟩ := Option.map_eq_some_iff.mp h
  exact ⟨eq_getD_of_elim hverbose, rfl, eq_getD_of_elim htrace, eq_getD_of_elim hsteps⟩

section

variable {readers : Readers} {around : Surroundings} {path : String}

theorem effective_eq {assigned : List (String × String)}
    (h : (dotEnvVariables readers around).toOption = some assigned) :
    effective around assigned = effectiveValue? readers around := by
  funext name
  have hlook : assigned.lookup name = (assignments readers around).look? (·.lookup name) := by
    rw [toOption_dotEnvVariables] at h
    cases ha : assignments readers around with
    | absent | delivered =>
      rw [ha] at h
      cases h
      rfl
    | rejected =>
      rw [ha] at h
      cases h
  unfold effective effectiveValue?
  rw [hlook]
  cases around.env? name <;> rfl

theorem toOption_loadWith :
    (loadWith readers around path).toOption =
      (ofFile readers around path).toOption.bind fun s =>
      (dotEnvVariables readers around).toOption.bind fun _ =>
      (s.override (effectiveValue? readers around)).toOption := by
  unfold loadWith
  simp only [toOption_bind]
  congr 1
  funext s
  refine Option.bind_congr fun assigned h => ?_
  rw [effective_eq h]

theorem ofFile_given {s : Settings} (h : (ofFile readers around path).toOption = some s) :
    s.verbose = (fileValue? readers around path FieldValue.truth? "verbose").getD false ∧
    s.noColor = (fileValue? readers around path FieldValue.truth? "no_color").getD false ∧
    s.trace = (fileValue? readers around path FieldValue.truth? "trace").getD false ∧
    s.maxSteps = (fileValue? readers around path FieldValue.number? "max_steps").getD 0 := by
  rw [toOption_ofFile] at h
  unfold fileValue?
  split at h
  next hfile =>
    split at h
    next =>
      cases h
      rw [hfile]
      exact ⟨rfl, rfl, rfl, rfl⟩
    next => cases h
  next => cases h
  next pairs hfile =>
    rw [hfile]
    cases (Option.filter_eq_some_iff.mp h).1
    exact foldl_fill_given pairs

theorem ofFile_fails_iff :
    (ofFile readers around path).toOption = none ↔
      (path ≠ "" ∧ settingsFile readers around path = .absent) ∨
      settingsFile readers around path = .rejected ∨
      ∃ n, fileValue? readers around path FieldValue.number? "max_steps" = some n ∧ n < 0 := by
  rw [toOption_ofFile]
  unfold fileValue?
  cases settingsFile readers around path with
  | absent => simp [Delivery.look?]
  | rejected => simp
  | delivered pairs =>
    have hsteps := (foldl_fill_given pairs).2.2.2
    cases hn : lastSaid? FieldValue.number? "max_steps" pairs with
    | none => simp [Delivery.look?, hn, hsteps, Option.filter]
    | some n => simp [Delivery.look?, hn, hsteps, Option.filter]

/-- What keeps settings from being loaded. -/
inductive Unloadable (readers : Readers) (around : Surroundings) (path : String) : Prop
  | missing (hnamed : path ≠ "") (h : settingsFile readers around path = .absent)
  | rejected (h : settingsFile readers around path = .rejected)
  | negative {n : Int}
    (h : fileValue? readers around path FieldValue.number? "max_steps" = some n) (hn : n < 0)
  | badAssignments (h : assignments readers around = .rejected)
  | badTruth {name text : String} (hname : name = "BREWIN_VERBOSE" ∨ name = "BREWIN_TRACE")
    (h : effectiveValue? readers around name = some text) (hread : readTruth? text = none)
  | badLimit {text : String} (h : effectiveValue? readers around "BREWIN_MAX_STEPS" = some text)
    (hread : readLimit? text = none)

theorem loadWith_fails_iff :
    (∃ e, loadWith readers around path = .error e) ↔ Unloadable readers around path := by
  have hdotEnv : (dotEnvVariables readers around).toOption = none ↔
      assignments readers around = .rejected := by
    rw [toOption_dotEnvVariables]
    cases assignments readers around <;> simp
  rw [← toOption_eq_none_iff, toOption_loadWith,
    bind_eq_none_iff_or fun s _ => bind_eq_none_iff_or fun _ _ => override_fails_iff s _,
    ofFile_fails_iff, hdotEnv]
  constructor
  · rintro ((⟨hnamed, h⟩ | h | ⟨n, h, hn⟩) | h | ⟨text, h, hread⟩ | ⟨text, h, hread⟩ |
      ⟨text, h, hread⟩)
    · exact .missing hnamed h
    · exact .rejected h
    · exact .negative h hn
    · exact .badAssignments h
    · exact .badTruth (.inl rfl) h hread
    · exact .badTruth (.inr rfl) h hread
    · exact .badLimit h hread
  · rintro (⟨hnamed, h⟩ | h | ⟨h, hn⟩ | h | ⟨rfl | rfl, h, hread⟩ | ⟨h, hread⟩)
    · exact .inl (.inl ⟨hnamed, h⟩)
    · exact .inl (.inr (.inl h))
    · exact .inl (.inr (.inr ⟨_, h, hn⟩))
    · exact .inr (.inl h)
    · exact .inr (.inr (.inl ⟨_, h, hread⟩))
    · exact .inr (.inr (.inr (.inl ⟨_, h, hread⟩)))
    · exact .inr (.inr (.inr (.inr ⟨_, h, hread⟩)))

theorem loadWith_given {s : Settings} (h : loadWith readers around path = .ok s) :
    s.verbose = (((effectiveValue? readers around "BREWIN_VERBOSE").bind readTruth?).or
      (fileValue? readers around path FieldValue.truth? "verbose")).getD false ∧
    s.noColor = decide (fileValue? readers around path FieldValue.truth? "no_color" = some true ∨
      (effectiveValue? readers around "NO_COLOR").getD "" ≠ "") ∧
    s.trace = (((effectiveValue? readers around "BREWIN_TRACE").bind readTruth?).or
      (fileValue? readers around path FieldValue.truth? "trace")).getD false ∧
    s.maxSteps = (((effectiveValue? readers around "BREWIN_MAX_STEPS").bind readLimit?).or
      (fileValue? readers around path FieldValue.number? "max_steps")).getD 0 := by
  rw [← toOption_eq_some_iff, toOption_loadWith] at h
  obtain ⟨file, hfile, h⟩ := Option.bind_eq_some_iff.mp h
  obtain ⟨_, -, h⟩ := Option.bind_eq_some_iff.mp h
  obtain ⟨hverbose, hcolor, htrace, hsteps⟩ := override_given h
  obtain ⟨fverbose, fcolor, ftrace, fsteps⟩ := ofFile_given hfile
  rw [hverbose, hcolor, htrace, hsteps, fverbose, fcolor, ftrace, fsteps]
  refine ⟨?_, ?_, ?_, ?_⟩
  · rw [Option.getD_or]
  · rw [Bool.eq_iff_iff]
    cases fileValue? readers around path FieldValue.truth? "no_color" <;> simp
  · rw [Option.getD_or]
  · rw [Option.getD_or]

end

end Settings

/-- However the files are read: the command line goes before the variables, these go before the
settings file, and the colors can only be switched off below the command line. Nothing else keeps
the settings from being loaded than what is named. -/
theorem settings_follow_layers (readers : Readers) (around : Surroundings)
    {args operands : List String} {flags : Flags}
    (h : ({} : Flags).parse args = .ok (flags, operands)) :
    flags.configFile = (Flags.given? id "c" args).getD "" ∧
    (∀ s, Settings.loadWith readers around flags.configFile = .ok s →
      (flags.merge s).verbose =
        (((Flags.given? Flags.useTruth? "v" args).or
          ((Settings.effectiveValue? readers around "BREWIN_VERBOSE").bind
            Settings.readTruth?)).or
          (Settings.fileValue? readers around flags.configFile FieldValue.truth?
            "verbose")).getD false ∧
      (flags.merge s).trace =
        (((Flags.given? Flags.useTruth? "t" args).or
          ((Settings.effectiveValue? readers around "BREWIN_TRACE").bind Settings.readTruth?)).or
          (Settings.fileValue? readers around flags.configFile FieldValue.truth?
            "trace")).getD false ∧
      (flags.merge s).maxSteps =
        (((Flags.given? Flags.useNumber? "s" args).or
          ((Settings.effectiveValue? readers around "BREWIN_MAX_STEPS").bind
            Settings.readLimit?)).or
          (Settings.fileValue? readers around flags.configFile FieldValue.number?
            "max_steps")).getD 0 ∧
      (flags.merge s).noColor =
        (Flags.given? Flags.useTruth? "n" args).getD
          (decide (Settings.fileValue? readers around flags.configFile FieldValue.truth?
              "no_color" = some true ∨
            (Settings.effectiveValue? readers around "NO_COLOR").getD "" ≠ ""))) ∧
    ((∃ e, Settings.loadWith readers around flags.configFile = .error e) ↔
      Settings.Unloadable readers around flags.configFile) := by
  obtain ⟨hverbose, hcolor, htrace, hsteps, hfile⟩ := Flags.parse_given h
  refine ⟨hfile, fun s hs => ?_, Settings.loadWith_fails_iff⟩
  obtain ⟨sverbose, scolor, strace, ssteps⟩ := Settings.loadWith_given hs
  simp only [Flags.merge, hverbose, hcolor, htrace, hsteps, sverbose, scolor, strace, ssteps,
    Option.or_assoc, Option.getD_or, and_self]

/-- Readers for the two files below. -/
def mixedReaders : Readers where
  decode _ text :=
    if text = "verbose: true\ntrace: false\nmax_steps: 10\n" then
      .ok [("verbose", .truth true), ("trace", .truth false), ("max_steps", .number 10)]
    else .error .refused
  assignments? text :=
    if text = "BREWIN_TRACE=true\nBREWIN_MAX_STEPS=7\nNO_COLOR=1\n" then
      some [("BREWIN_TRACE", "true"), ("BREWIN_MAX_STEPS", "7"), ("NO_COLOR", "1")]
    else none

/-- Surroundings where every layer sets something. -/
def mixedSurroundings : Surroundings where
  read file :=
    if file = "brewin.yml" then .ok "verbose: true\ntrace: false\nmax_steps: 10\n"
    else if file = ".env" then .ok "BREWIN_TRACE=true\nBREWIN_MAX_STEPS=7\nNO_COLOR=1\n"
    else .error .missing
  env? name :=
    if name = "BREWIN_MAX_STEPS" then some "8" else if name = "NO_COLOR" then some "" else none

/-- The settings file decides on verbosity, the file of assignments on the trace, the environment
on the step limit, and the command line on the colors. -/
theorem settings_follow_layers_mixed :
    ∃ flags s, ({} : Flags).parse ["-n", "main.br"] = .ok (flags, ["main.br"]) ∧
      Settings.loadWith mixedReaders mixedSurroundings flags.configFile = .ok s ∧
      (flags.merge s).verbose = true ∧ (flags.merge s).trace = true ∧
      (flags.merge s).maxSteps = 8 ∧ s.noColor = false ∧ (flags.merge s).noColor = true := by
  have hparse : ({} : Flags).parse ["-n", "main.br"] =
      .ok ({ noColor? := some true }, ["main.br"]) := rfl
  have hload : Settings.loadWith mixedReaders mixedSurroundings "" =
      .ok { verbose := true, noColor := false, trace := true, maxSteps := 8 } :=
    toOption_eq_some_iff.mp (by decide +kernel)
  obtain ⟨-, hlayers, -⟩ := settings_follow_layers mixedReaders mixedSurroundings hparse
  obtain ⟨hverbose, htrace, hsteps, hcolor⟩ := hlayers _ hload
  exact ⟨_, _, hparse, hload, hverbose.trans (by decide +kernel), htrace.trans (by decide +kernel),
    hsteps.trans (by decide +kernel), rfl, hcolor.trans (by decide +kernel)⟩

end Brewin
