import Mathlib.Data.Finset.Interval
import Mathlib.Order.Interval.Finset.Nat
import Brewin.Flow

namespace Brewin

/-- The word is the first one of the line. -/
def Starts (stream : List (List String)) (word : String) (line : Nat) : Prop :=
  stream[line]?.bind List.head? = some word

instance (stream : List (List String)) (word : String) : DecidablePred (Starts stream word) :=
  fun line => inferInstanceAs (Decidable (stream[line]?.bind List.head? = some word))

/-- How many of the lines start with the word. -/
def tally (stream : List (List String)) (word : String) (lines : Finset Nat) : Nat :=
  (lines.filter (Starts stream word)).card

/-- The word that opens a block and the word that closes it. -/
structure Brackets where
  opener : String
  closer : String
  distinct : opener ≠ closer

def ifBrackets : Brackets := ⟨"if", "endif", by decide⟩

def loopBrackets : Brackets := ⟨"while", "endwhile", by decide⟩

/-- Behind line `i`, line `n` is the first one at which the closers outnumber the openers. -/
structure Brackets.Closes (b : Brackets) (stream : List (List String)) (i n : Nat) : Prop where
  behind : i < n
  outnumbered : tally stream b.opener (Finset.Ioc i n) < tally stream b.closer (Finset.Ioc i n)
  first : ∀ m, i < m → m < n →
    tally stream b.closer (Finset.Ioc i m) ≤ tally stream b.opener (Finset.Ioc i m)

section

variable {stream : List (List String)} {word : String} {i j n : Nat}

theorem Starts.unique {other : String} (h : Starts stream word n) (h' : Starts stream other n) :
    word = other :=
  Option.some.inj (h.symm.trans h')

theorem Starts.excludes {other : String} (h : Starts stream word n) (hne : other ≠ word) :
    ¬ Starts stream other n :=
  fun h' => hne (h'.unique h)

theorem Starts.lt_length (h : Starts stream word n) : n < stream.length := by
  obtain ⟨tokens, htokens, -⟩ := Option.bind_eq_some_iff.mp h
  exact (List.getElem?_eq_some_iff.mp htokens).1

theorem tally_Ioc (stream : List (List String)) (word : String) (i n : Nat) :
    tally stream word (Finset.Ioc i n) = tally stream word (Finset.Ioo i (n + 1)) := by
  congr 1
  ext l
  simp only [Finset.mem_Ioc, Finset.mem_Ioo]
  omega

theorem tally_next (stream : List (List String)) (word : String) (i : Nat) :
    tally stream word (Finset.Ioo i (i + 1)) = 0 := by
  have hempty : Finset.Ioo i (i + 1) = ∅ := by
    ext l
    simp only [Finset.mem_Ioo, Finset.notMem_empty, iff_false]
    omega
  rw [tally, hempty]
  rfl

theorem tally_succ (stream : List (List String)) (word : String) (h : i < n) :
    tally stream word (Finset.Ioo i (n + 1)) =
      tally stream word (Finset.Ioo i n) + if Starts stream word n then 1 else 0 := by
  have hinsert : Finset.Ioo i (n + 1) = insert n (Finset.Ioo i n) := by
    ext l
    simp only [Finset.mem_Ioo, Finset.mem_insert]
    omega
  rw [tally, hinsert, Finset.filter_insert]
  split
  · rw [Finset.card_insert_of_notMem (by simp)]
    rfl
  · rfl

theorem tally_split (stream : List (List String)) (word : String) (hij : i < j) (hjn : j < n) :
    tally stream word (Finset.Ioo i n) =
      tally stream word (Finset.Ioo i (j + 1)) + tally stream word (Finset.Ioo j n) := by
  induction n, hjn using Nat.le_induction with
  | base => rw [tally_next, Nat.add_zero]
  | succ n hle ih =>
    rw [tally_succ stream word (show i < n by omega), tally_succ stream word (show j < n by omega), ih]
    omega

end

namespace Brackets

variable (b : Brackets) (stream : List (List String))

/-- How many more openers than closers stand strictly between two lines. -/
def excess (i n : Nat) : Int :=
  tally stream b.opener (Finset.Ioo i n) - tally stream b.closer (Finset.Ioo i n)

/-- Line `i` opens a block that is not closed in front of line `n`. -/
structure Pending (i n : Nat) : Prop where
  opens : Starts stream b.opener i
  before : i < n
  enough : ∀ m, i < m → m ≤ n → 0 ≤ b.excess stream i m

/-- The stack of the blocks that wait in front of line `n`. The excess behind an opener is its
distance from the top. -/
structure Waiting (n : Nat) (pending : Stack Nat) : Prop where
  mem : ∀ i, i ∈ pending ↔ b.Pending stream i n
  excess : ∀ (depth i : Nat), pending[depth]? = some i → b.excess stream i n = depth

variable {b stream} {i j m n : Nat}

theorem excess_next : b.excess stream i (i + 1) = 0 := by
  simp [Brackets.excess, tally_next]

theorem not_closer_of_opener (h : Starts stream b.opener n) : ¬ Starts stream b.closer n :=
  fun hc => b.distinct (h.unique hc)

theorem excess_opener (hi : i < n) (h : Starts stream b.opener n) :
    b.excess stream i (n + 1) = b.excess stream i n + 1 := by
  have hc := not_closer_of_opener h
  rw [Brackets.excess, tally_succ _ _ hi, tally_succ _ _ hi, if_pos h, if_neg hc,
    Brackets.excess]
  omega

theorem excess_closer (hi : i < n) (h : Starts stream b.closer n) :
    b.excess stream i (n + 1) = b.excess stream i n - 1 := by
  have ho : ¬ Starts stream b.opener n := fun ho => not_closer_of_opener ho h
  rw [Brackets.excess, tally_succ _ _ hi, tally_succ _ _ hi, if_neg ho, if_pos h,
    Brackets.excess]
  omega

theorem excess_other (hi : i < n) (ho : ¬ Starts stream b.opener n)
    (hc : ¬ Starts stream b.closer n) : b.excess stream i (n + 1) = b.excess stream i n := by
  rw [Brackets.excess, tally_succ _ _ hi, tally_succ _ _ hi, if_neg ho, if_neg hc,
    Brackets.excess]
  omega

/-- The excess falls only at a closer, and then by one. -/
theorem closer_of_excess_lt (hi : i < n)
    (h : b.excess stream i (n + 1) < b.excess stream i n) : Starts stream b.closer n := by
  by_contra hc
  by_cases ho : Starts stream b.opener n
  · have := excess_opener hi ho
    omega
  · have := excess_other hi ho hc
    omega

theorem excess_split (hij : i < j) (hjn : j < n) (h : Starts stream b.opener j) :
    b.excess stream i n = b.excess stream i j + 1 + b.excess stream j n := by
  have hstep := excess_opener hij h
  have ho := tally_split stream b.opener hij hjn
  have hc := tally_split stream b.closer hij hjn
  unfold Brackets.excess at hstep ⊢
  omega

theorem closes_iff : b.Closes stream i n ↔
    i < n ∧ b.excess stream i (n + 1) < 0 ∧
      ∀ m, i < m → m ≤ n → 0 ≤ b.excess stream i m := by
  constructor
  · intro h
    refine ⟨h.behind, ?_, ?_⟩
    · have hless := h.outnumbered
      rw [tally_Ioc, tally_Ioc] at hless
      unfold Brackets.excess
      omega
    · intro m him hmn
      by_cases hm : m = i + 1
      · rw [hm, excess_next]
      · obtain ⟨m, rfl⟩ : ∃ l, m = l + 1 := ⟨m - 1, by omega⟩
        have hfirst := h.first m (by omega) (by omega)
        rw [tally_Ioc, tally_Ioc] at hfirst
        unfold Brackets.excess
        omega
  · rintro ⟨hin, hless, henough⟩
    unfold Brackets.excess at hless henough
    refine ⟨hin, ?_, ?_⟩
    · rw [tally_Ioc, tally_Ioc]
      omega
    · intro m him hmn
      have := henough (m + 1) (by omega) (by omega)
      rw [tally_Ioc, tally_Ioc]
      omega

theorem Closes.closer (h : b.Closes stream i n) : Starts stream b.closer n := by
  obtain ⟨hin, hless, henough⟩ := closes_iff.mp h
  have := henough n hin le_rfl
  exact closer_of_excess_lt hin (by omega)

theorem Closes.unique (h : b.Closes stream i n) (h' : b.Closes stream i m) : n = m := by
  obtain ⟨hin, hless, henough⟩ := closes_iff.mp h
  obtain ⟨him, hless', henough'⟩ := closes_iff.mp h'
  rcases Nat.lt_trichotomy n m with hlt | heq | hgt
  · have := henough' (n + 1) (by omega) hlt
    omega
  · exact heq
  · have := henough (m + 1) (by omega) hgt
    omega

/-- A block that opens inside another one is closed inside it. -/
theorem Closes.nested (h : b.Closes stream i n) (h' : b.Closes stream j m)
    (hj : Starts stream b.opener j) (hij : i < j) : m < n ∨ n < j := by
  by_cases hjn : j < n
  · left
    obtain ⟨-, hless, henough⟩ := closes_iff.mp h
    obtain ⟨hjm, -, henough'⟩ := closes_iff.mp h'
    by_contra hnm
    have hsplit := excess_split hij hjn hj
    have hend := excess_closer hjn h.closer
    have hend' := excess_closer (show i < n by omega) h.closer
    have hi := henough j hij (by omega)
    have hjpos := henough' n hjn (by omega)
    omega
  · right
    -- The line that closes the one block does not open another.
    have hne : j ≠ n := by
      rintro rfl
      exact not_closer_of_opener hj h.closer
    omega

theorem Pending.not_closed (h : b.Pending stream i n) (hm : m < n) :
    ¬ b.Closes stream i m := by
  intro hc
  obtain ⟨him, hless, -⟩ := closes_iff.mp hc
  have := h.enough (m + 1) (by omega) (by omega)
  omega

theorem Pending.succ (h : b.Pending stream i n) (he : 0 ≤ b.excess stream i (n + 1)) :
    b.Pending stream i (n + 1) := by
  refine ⟨h.opens, Nat.lt_succ_of_lt h.before, fun m him hmn => ?_⟩
  by_cases hm : m = n + 1
  · rwa [hm]
  · exact h.enough m him (by omega)

theorem Pending.of_succ (h : b.Pending stream i (n + 1)) (hne : i ≠ n) :
    b.Pending stream i n := by
  have hlt := h.before
  refine ⟨h.opens, by omega, fun m him hmn => h.enough m him (by omega)⟩

theorem pending_self (h : Starts stream b.opener n) : b.Pending stream n (n + 1) := by
  refine ⟨h, Nat.lt_succ_self n, fun m hnm hm => ?_⟩
  have heq : m = n + 1 := by omega
  rw [heq, excess_next]

namespace Waiting

variable {pending : Stack Nat}

theorem start : b.Waiting stream 0 [] := by
  refine ⟨fun i => ⟨by simp, fun h => ?_⟩, by simp⟩
  exact absurd h.before (Nat.not_lt_zero i)

/-- A line closes the block on top of the stack, and no other. -/
theorem closes_iff (h : b.Waiting stream n pending) :
    (Starts stream b.opener i ∧ b.Closes stream i n) ↔
      Starts stream b.closer n ∧ pending.head? = some i := by
  constructor
  · rintro ⟨hopen, hcloses⟩
    obtain ⟨hin, hless, henough⟩ := Brackets.closes_iff.mp hcloses
    have hmem : i ∈ pending := (h.mem i).mpr ⟨hopen, hin, henough⟩
    obtain ⟨depth, hdepth⟩ := List.mem_iff_getElem?.mp hmem
    have hexcess := h.excess depth i hdepth
    have hend := excess_closer hin hcloses.closer
    have hzero : depth = 0 := by omega
    refine ⟨hcloses.closer, ?_⟩
    rw [List.head?_eq_getElem?, ← hzero]
    exact hdepth
  · rintro ⟨hcloser, htop⟩
    have hpending : b.Pending stream i n := (h.mem i).mp (List.mem_of_head? htop)
    have hexcess := h.excess 0 i (by rwa [← List.head?_eq_getElem?])
    have hend := excess_closer hpending.before hcloser
    refine ⟨hpending.opens, Brackets.closes_iff.mpr ⟨hpending.before, ?_, hpending.enough⟩⟩
    omega

theorem closes_top_iff (h : b.Waiting stream n (j :: pending)) (hn : Starts stream b.closer n) :
    (Starts stream b.opener i ∧ b.Closes stream i n) ↔ i = j := by
  rw [h.closes_iff]
  constructor
  · rintro ⟨-, htop⟩
    exact (Option.some.inj htop).symm
  · rintro rfl
    exact ⟨hn, rfl⟩

theorem opener (h : b.Waiting stream n pending) (hn : Starts stream b.opener n) :
    b.Waiting stream (n + 1) (n :: pending) := by
  have hstep : ∀ {i}, i < n → b.excess stream i (n + 1) = b.excess stream i n + 1 :=
    fun hi => excess_opener hi hn
  refine ⟨fun i => ?_, fun depth i hi => ?_⟩
  · rw [List.mem_cons, h.mem]
    constructor
    · rintro (rfl | hp)
      · exact pending_self hn
      · have hnow := hp.enough n hp.before le_rfl
        have := hstep hp.before
        exact hp.succ (by omega)
    · intro hp
      by_cases hi : i = n
      · exact Or.inl hi
      · exact Or.inr (hp.of_succ hi)
  · cases depth with
    | zero =>
      cases hi
      exact excess_next
    | succ depth =>
      have hpending := (h.mem i).mp (List.mem_of_getElem? hi)
      rw [hstep hpending.before, h.excess depth i hi]
      rfl

theorem closer (h : b.Waiting stream n pending) (hn : Starts stream b.closer n) :
    b.Waiting stream (n + 1) pending.tail := by
  have hstep : ∀ {i}, i < n → b.excess stream i (n + 1) = b.excess stream i n - 1 :=
    fun hi => excess_closer hi hn
  have below : ∀ depth i, pending.tail[depth]? = some i → pending[depth + 1]? = some i :=
    fun depth i hi => by rwa [List.getElem?_tail] at hi
  refine ⟨fun i => ⟨fun hi => ?_, fun hp => ?_⟩, fun depth i hi => ?_⟩
  · obtain ⟨depth, hdepth⟩ := List.mem_iff_getElem?.mp hi
    have hexcess := h.excess _ i (below depth i hdepth)
    have hpending := (h.mem i).mp (List.mem_of_getElem? (below depth i hdepth))
    have := hstep hpending.before
    exact hpending.succ (by omega)
  · have hne : i ≠ n := by
      rintro rfl
      exact not_closer_of_opener hp.opens hn
    have hpending := hp.of_succ hne
    obtain ⟨depth, hdepth⟩ := List.mem_iff_getElem?.mp ((h.mem i).mpr hpending)
    have hexcess := h.excess depth i hdepth
    have hend := hstep hpending.before
    have hleft := hp.enough (n + 1) hp.before le_rfl
    -- The block that this line closes would have no excess left.
    obtain ⟨lower, rfl⟩ : ∃ l, depth = l + 1 := ⟨depth - 1, by omega⟩
    rw [← List.getElem?_tail] at hdepth
    exact List.mem_of_getElem? hdepth
  · have hexcess := h.excess _ i (below depth i hi)
    have hpending := (h.mem i).mp (List.mem_of_getElem? (below depth i hi))
    rw [hstep hpending.before, hexcess]
    omega

theorem other (h : b.Waiting stream n pending) (ho : ¬ Starts stream b.opener n)
    (hc : ¬ Starts stream b.closer n) : b.Waiting stream (n + 1) pending := by
  have hstep : ∀ {i}, i < n → b.excess stream i (n + 1) = b.excess stream i n :=
    fun hi => excess_other hi ho hc
  refine ⟨fun i => ?_, fun depth i hi => ?_⟩
  · rw [h.mem]
    constructor
    · intro hp
      have hnow := hp.enough n hp.before le_rfl
      have := hstep hp.before
      exact hp.succ (by omega)
    · intro hp
      have hne : i ≠ n := by
        rintro rfl
        exact ho hp.opens
      exact hp.of_succ hne
  · have hpending := (h.mem i).mp (List.mem_of_getElem? hi)
    rw [hstep hpending.before, h.excess depth i hi]

end Waiting

end Brackets

end Brewin
