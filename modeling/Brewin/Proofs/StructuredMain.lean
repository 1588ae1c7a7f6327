import Brewin.Proofs.StructuredRefinement

namespace Brewin

variable {p : Program} {o : Options} {t : Outline} {console : Console}

/-- The machine follows a whole program: it ends as the tree does, and it goes on for `fuel` steps
where the tree has come to no end within `fuel` rounds. -/
theorem runMain_follows (hc : t.Covers p) (ho : o.maxSteps ≤ 0) (fuel : Nat) {st : State}
    (hs : p.start console = .ok st) :
    match t.runMain console fuel with
    | none => ∃ m st', fuel ≤ m ∧ Goes p o m st st'
    | some (c, e) => Ends p o st c e := by
  unfold Program.start FunctionTable.entryLine? at hs
  rw [hc.find?] at hs
  cases hf : t.find? mainFunction with
  | none => simp [hf] at hs
  | some r =>
    obtain ⟨hm, hn⟩ := Outline.mem_of_find? hf
    have hr := hc.installed r hm
    rw [hf] at hs
    cases Except.ok.inj hs
    have hfind : p.functions.find? r.definition.name = some r.definition := by
      rw [hc.find?, hn, hf]
      rfl
    let w : Workspace := { scopes := .start mainFunction noLine, console }
    have standing : Standing p ⟨r.definition, true⟩ { ip := r.definition.line, workspace := w }
        r.definition.line w noLine [] := ⟨rfl, rfl, hn.symm, hfind, rfl⟩
    obtain ⟨st₁, hg₁, hip₁, hw₁⟩ := reaches_past ho standing hr.head rfl
    have hb := run_follows hc ho fuel hr.body (standing.move hip₁ hw₁ rfl)
    have hmain : t.runMain console fuel = (t.run fuel ⟨r.definition, true⟩ r.body w).map
        fun result => (result.1.console, result.2.ending) := by
      simp only [Outline.runMain, hf]
      rfl
    rw [hmain]
    cases hrun : t.run fuel ⟨r.definition, true⟩ r.body w with
    | none =>
      rw [hrun] at hb
      obtain ⟨m, st', hle, hg⟩ := hb
      exact ⟨1 + m, st', by omega, hg₁.trans hg⟩
    | some result =>
      obtain ⟨done, exit⟩ := result
      rw [hrun] at hb
      refine hg₁.ends ?_
      cases exit with
      | fault f => exact hb
      | back result? => exact hb
      | through =>
        obtain ⟨m, st₂, hg₂, hip₂, hw₂⟩ := hb
        have hlast : p.at? (r.definition.line + 1 + r.body.length : Nat) = some .endFunc := by
          rw [Nat.add_right_comm]
          exact hr.last
        exact hg₂.ends (givesBack_of_execute ho hip₂ hw₂ hlast rfl)

theorem runFor_start {st : State} (hs : p.start console = .ok st) (fuel : Nat) :
    p.runFor o console fuel = st.runFor p o fuel #[] := by
  simp only [Program.runFor, hs]

/-- A run ends in at most one way. -/
theorem Ends.unique {st : State} {c c' : Console} {e e' : Ending} (h : Ends p o st c e)
    (h' : Ends p o st c' e') : c = c' ∧ e = e' := by
  induction h with
  | halted hs =>
    cases h' with
    | halted => exact ⟨rfl, rfl⟩
    | failed hs' => simp [hs] at hs'
    | next hs' => simp [hs] at hs'
  | failed hs =>
    cases h' with
    | halted hs' => simp [hs] at hs'
    | failed hs' => rw [hs] at hs'; cases hs'; exact ⟨rfl, rfl⟩
    | next hs' => simp [hs] at hs'
  | next hs _ ih =>
    cases h' with
    | halted hs' => simp [hs] at hs'
    | failed hs' => simp [hs] at hs'
    | next _ h' => exact ih h'

theorem exists_runMain_of_ends (hc : t.Covers p) (ho : o.maxSteps ≤ 0) {st : State}
    (hs : p.start console = .ok st) {c : Console} {e : Ending} (h : Ends p o st c e) :
    ∃ fuel, (t.runMain console fuel).isSome := by
  obtain ⟨limit, hl⟩ := h.bound
  refine ⟨limit + 1, ?_⟩
  have hf := runMain_follows hc ho (limit + 1) hs
  cases hr : t.runMain console (limit + 1) with
  | none =>
    rw [hr] at hf
    obtain ⟨m, st', hle, hg⟩ := hf
    have := hl m st' hg
    omega
  | some result => rfl

/-- Without a main function the machine and the tree stop with the same fault. -/
theorem runMain_of_start_error (hc : t.Covers p) {fault : Fault}
    (hs : p.start console = .error fault) (fuel : Nat) :
    t.runMain console fuel = some (console, .failed fault) := by
  unfold Program.start FunctionTable.entryLine? at hs
  rw [hc.find?] at hs
  cases hf : t.find? mainFunction with
  | none =>
    rw [hf] at hs
    cases Except.error.inj hs
    simp only [Outline.runMain, hf]
  | some r => simp [hf] at hs

/-- Without a step limit a properly nested program comes to an end on the machine exactly if it
does as a tree, and then with the same console and in the same way. -/
theorem runFor_iff_runMain {source : List String} (h : WellNested (decoded source)) :
    (∃ t : Outline, t.Describes source) ∧
      ∀ t : Outline, t.Describes source → ∀ o : Options, o.maxSteps ≤ 0 → ∀ console : Console,
        ((∃ fuel, ((Program.load source).runFor o console fuel).ending ≠ .unfinished) ↔
          ∃ fuel, (t.runMain console fuel).isSome) ∧
        ∀ fuel fuel' c e,
          ((Program.load source).runFor o console fuel).ending ≠ .unfinished →
          t.runMain console fuel' = some (c, e) →
          ((Program.load source).runFor o console fuel).console = c ∧
            ((Program.load source).runFor o console fuel).ending = e := by
  refine ⟨exists_describes h, fun t ht o ho console => ?_⟩
  have hc := ht.covers
  cases hs : (Program.load source).start console with
  | error fault =>
    have hmain := runMain_of_start_error hc hs
    have hrun : ∀ fuel, (Program.load source).runFor o console fuel =
        ⟨console, 0, #[], .failed fault⟩ := by
      intro fuel
      simp only [Program.runFor, hs]
    refine ⟨⟨fun _ => ⟨0, by simp [hmain]⟩, fun _ => ⟨0, by simp [hrun]⟩⟩, ?_⟩
    intro fuel fuel' c e _ hr
    rw [hmain] at hr
    cases hr
    simp [hrun]
  | ok st =>
    have ends : ∀ fuel, ((Program.load source).runFor o console fuel).ending ≠ .unfinished →
        Ends (Program.load source) o st ((Program.load source).runFor o console fuel).console
          ((Program.load source).runFor o console fuel).ending := by
      intro fuel hu
      rw [runFor_start hs] at hu ⊢
      exact (ends_iff_runFor #[]).mpr ⟨hu, fuel, rfl, rfl⟩
    have tree : ∀ fuel c e, t.runMain console fuel = some (c, e) →
        Ends (Program.load source) o st c e := by
      intro fuel c e hr
      have := runMain_follows hc ho fuel hs
      rwa [hr] at this
    refine ⟨⟨?_, ?_⟩, ?_⟩
    · rintro ⟨fuel, hu⟩
      exact exists_runMain_of_ends hc ho hs (ends fuel hu)
    · rintro ⟨fuel, hr⟩
      obtain ⟨⟨c, e⟩, hr⟩ := Option.isSome_iff_exists.mp hr
      obtain ⟨hu, fuel, -, he⟩ := (ends_iff_runFor #[]).mp (tree fuel c e hr)
      refine ⟨fuel, ?_⟩
      rw [runFor_start hs, he]
      exact hu
    · intro fuel fuel' c e hu hr
      exact (ends fuel hu).unique (tree fuel' c e hr)

theorem runFor_twoRounds :
    twoRoundsOutline.Describes twoRounds ∧
      ∃ fuel, ((Program.load twoRounds).runFor {} (.ofInput "") fuel).console.written =
          "start\n1\n" ∧
        ((Program.load twoRounds).runFor {} (.ofInput "") fuel).ending = .finished := by
  obtain ⟨hiff, hsame⟩ := (runFor_iff_runMain wellNested_twoRounds).2 twoRoundsOutline
    describes_twoRounds {} (by decide) (.ofInput "")
  have hr : twoRoundsOutline.runMain (.ofInput "") 20 =
      some ({ written := "start\n1\n" }, .finished) := by decide +kernel
  obtain ⟨fuel, hu⟩ := hiff.mpr ⟨20, by rw [hr]; rfl⟩
  obtain ⟨hc, he⟩ := hsame fuel 20 _ _ hu hr
  exact ⟨describes_twoRounds, fuel, by rw [hc], he⟩

end Brewin
