import Brewin.Proofs.DefinitionLines
import Brewin.Proofs.FlowBounds

namespace Brewin

/-- The place of a line after another line has been put in front of the line `k`. -/
def movedLine (k line : Nat) : Nat :=
  if line < k then line else line + 1

theorem movedLine_of_lt {k line : Nat} (h : line < k) : movedLine k line = line :=
  if_pos h

theorem movedLine_of_le {k line : Nat} (h : k ≤ line) : movedLine k line = line + 1 :=
  if_neg (Nat.not_lt.mpr h)

theorem movedLine_injective (k : Nat) : Function.Injective (movedLine k) := by
  intro a b h
  unfold movedLine at h
  split at h
  next ha =>
    split at h
    next => exact h
    next hb => omega
  next ha =>
    split at h
    next hb => omega
    next => omega

/-- A number of lines in a row either end in front of `k` and stay, or begin behind it and move
by one. -/
def Offset (k line count d : Nat) : Prop :=
  d = 0 ∧ line + count ≤ k ∨ d = 1 ∧ k ≤ line

theorem Offset.movedLine {k line count d : Nat} (h : Offset k line (count + 1) d) :
    movedLine k line = line + d := by
  rcases h with ⟨rfl, hle⟩ | ⟨rfl, hle⟩
  · exact movedLine_of_lt (by omega)
  · exact movedLine_of_le hle

theorem Offset.next {k line count d : Nat} (h : Offset k line (count + 1) d) :
    Offset k (line + 1) count d := by
  unfold Offset at h ⊢
  omega

def Branch.moved (k : Nat) (b : Branch) : Branch :=
  ⟨b.elseLine?.map (movedLine k), movedLine k b.endLine⟩

def Flow.moved (k : Nat) (flow : Flow) : Flow where
  branches := flow.branches.map (Prod.map (movedLine k) (Branch.moved k))
  elses := flow.elses.map (Prod.map (movedLine k) (movedLine k))
  loops := flow.loops.map (Prod.map (movedLine k) (movedLine k))

def OpenIf.moved (k : Nat) (opened : OpenIf) : OpenIf :=
  ⟨movedLine k opened.line, opened.elses.map (movedLine k)⟩

namespace Flow

theorem lookup_map_of_injective {α β : Type} {f : Nat → Nat} (hf : Function.Injective f)
    (g : α → β) (entries : List (Nat × α)) (line : Nat) :
    (entries.map (Prod.map f g)).lookup (f line) = (entries.lookup line).map g := by
  induction entries with
  | nil => rfl
  | cons entry entries ih =>
    obtain ⟨key, found⟩ := entry
    rw [List.map_cons, Prod.map_apply, List.lookup_cons, List.lookup_cons]
    by_cases h : line = key
    · subst h
      simp
    · have hne : f line ≠ f key := fun he => h (hf he)
      rw [beq_eq_false_iff_ne.mpr h, beq_eq_false_iff_ne.mpr hne]
      exact ih

variable (flow : Flow) (k line : Nat)

theorem branch?_moved :
    (flow.moved k).branch? (movedLine k line) = (flow.branch? line).map (Branch.moved k) :=
  lookup_map_of_injective (movedLine_injective k) (Branch.moved k) flow.branches line

theorem elseEnd?_moved :
    (flow.moved k).elseEnd? (movedLine k line) = (flow.elseEnd? line).map (movedLine k) :=
  lookup_map_of_injective (movedLine_injective k) (movedLine k) flow.elses line

theorem loopPartner?_moved :
    (flow.moved k).loopPartner? (movedLine k line) =
      (flow.loopPartner? line).map (movedLine k) :=
  lookup_map_of_injective (movedLine_injective k) (movedLine k) flow.loops line

end Flow

namespace Matching

/-- All that has been found agrees but for the places of the lines. -/
structure Moved (k : Nat) (m m' : Matching) : Prop where
  ifs : m'.ifs = m.ifs.map (OpenIf.moved k)
  whiles : m'.whiles = m.whiles.map (movedLine k)
  flow : m'.flow = m.flow.moved k

variable {k : Nat} {m m' : Matching}

theorem Moved.closeIf (h : Moved k m m') (hl : m'.line = movedLine k m.line) (opened : OpenIf)
    (ifs : Stack OpenIf) :
    Moved k (m.closeIf opened ifs) (m'.closeIf (opened.moved k) (ifs.map (OpenIf.moved k))) := by
  have hflow := h.flow
  unfold Matching.closeIf
  rcases he : opened.elses with _ | ⟨e, _ | ⟨e', es⟩⟩ <;> constructor <;>
    simp [OpenIf.moved, Flow.moved, Branch.moved, he, hl, hflow, h.whiles]

theorem Moved.visit (h : Moved k m m') (hl : m'.line = movedLine k m.line) (c : TokenClass) :
    Moved k (m.visit c) (m'.visit c) := by
  have hifs := h.ifs
  have hwhiles := h.whiles
  unfold Matching.visit
  split
  next =>
    refine ⟨?_, hwhiles, h.flow⟩
    simp only [hifs, hl]
    rfl
  next =>
    -- An else is noted with the innermost if, at its moved line.
    cases hi : m.ifs with
    | nil =>
      rw [hi] at hifs
      rw [hifs]
      exact h
    | cons opened ifs =>
      rw [hi] at hifs
      rw [hifs]
      refine ⟨?_, hwhiles, h.flow⟩
      simp [OpenIf.moved, hl]
  next =>
    cases hi : m.ifs with
    | nil =>
      rw [hi] at hifs
      rw [hifs]
      exact h
    | cons opened ifs =>
      rw [hi] at hifs
      rw [hifs]
      exact h.closeIf hl opened ifs
  next =>
    refine ⟨hifs, ?_, h.flow⟩
    simp only [hwhiles, hl]
    rfl
  next =>
    cases hw : m.whiles with
    | nil =>
      rw [hw] at hwhiles
      rw [hwhiles]
      exact h
    | cons opened whiles =>
      rw [hw] at hwhiles
      rw [hwhiles]
      refine ⟨hifs, rfl, ?_⟩
      simp [Matching.closeWhile, h.flow, Flow.moved, hl]
  next => exact h

theorem Moved.advance (h : Moved k m m') (hl : m'.line = movedLine k m.line)
    (tokens : List String) : Moved k (m.advance tokens) (m'.advance tokens) := by
  have hv := h.visit hl (leadingClass tokens)
  exact ⟨hv.ifs, hv.whiles, hv.flow⟩

theorem Moved.foldl (h : Moved k m m') {d : Nat} (hl : m'.line = m.line + d)
    {stream : List (List String)} (hd : Offset k m.line stream.length d) :
    Moved k (stream.foldl Matching.advance m) (stream.foldl Matching.advance m') := by
  induction stream generalizing m m' with
  | nil => exact h
  | cons tokens stream ih =>
    have hline : m'.line = movedLine k m.line := by
      rw [hl, hd.movedLine]
    have hnext : (m'.advance tokens).line = (m.advance tokens).line + d := by
      rw [line_advance, line_advance, hl]
      omega
    exact ih (h.advance hline tokens) hnext hd.next

end Matching

theorem offset_front {α : Type} (front : List α) : Offset front.length 0 front.length 0 :=
  .inl ⟨rfl, by omega⟩

/-- A line that does nothing takes no part in the matching of the others. -/
theorem Flow.resolve_insert {tokens : List String} (ht : Statement.decode tokens = .nop)
    (front back : List (List String)) :
    resolve (front ++ tokens :: back) = (resolve (front ++ back)).moved front.length := by
  have hstart : Matching.Moved front.length {} {} := ⟨rfl, rfl, rfl⟩
  have hfront := hstart.foldl rfl (offset_front front)
  have hplain := (front.foldl Matching.advance {}).advance_plain ht (by simp [Statement.keyword?])
  have hpassed : Matching.Moved front.length (front.foldl Matching.advance {})
      ((front.foldl Matching.advance {}).advance tokens) := by
    rw [hplain]
    exact ⟨hfront.ifs, hfront.whiles, hfront.flow⟩
  have hline : (front.foldl Matching.advance {}).line = front.length := by
    simpa using Matching.line_foldl {} front
  have hoffset : Offset front.length (front.foldl Matching.advance {}).line back.length 1 :=
    .inr ⟨rfl, by omega⟩
  have hback := hpassed.foldl (Matching.line_advance _ _) hoffset
  rw [resolve, resolve, List.foldl_append, List.foldl_append, List.foldl_cons]
  exact hback.flow

def Definition.moved (k : Nat) (f : Definition) : Definition :=
  { f with line := movedLine k f.line }

def FunctionTable.moved (k : Nat) (t : FunctionTable) : FunctionTable :=
  ⟨t.functions.map (Definition.moved k)⟩

namespace FunctionTable

theorem find?_moved (k : Nat) (t : FunctionTable) (name : String) :
    (t.moved k).find? name = (t.find? name).map (Definition.moved k) :=
  List.find?_map

theorem returnType_moved (k : Nat) (t : FunctionTable) (name : String) :
    (t.moved k).returnType name = t.returnType name := by
  unfold returnType
  rw [find?_moved]
  cases t.find? name with
  | none => rfl
  | some f => rfl

theorem defaultResult?_moved (k : Nat) (t : FunctionTable) :
    (t.moved k).defaultResult? = t.defaultResult? := by
  funext function
  rw [defaultResult?, returnType_moved, defaultResult?]

theorem checkResult_moved (k : Nat) (t : FunctionTable) :
    (t.moved k).checkResult = t.checkResult := by
  funext function v
  rw [checkResult, returnType_moved, checkResult]

theorem insertLine_moved (k : Nat) (t : FunctionTable) (tokens : List String) (line : Nat) :
    (t.moved k).insertLine (tokens, movedLine k line) = (t.insertLine (tokens, line)).moved k := by
  have htokens : Definition.ofTokens? (movedLine k line) tokens =
      (Definition.ofTokens? line tokens).map (Definition.moved k) := by
    unfold Definition.ofTokens?
    split
    next =>
      split
      next => rfl
      next => rfl
    next => rfl
  unfold insertLine
  rw [htokens]
  cases Definition.ofTokens? line tokens with
  | none => rfl
  | some f =>
    change (t.moved k).insert (f.moved k) = (t.insert f).moved k
    simp only [insert, moved, List.map_append, List.filter_map]
    rfl

theorem foldl_insertLine_moved {k d line : Nat} (t : FunctionTable) (stream : List (List String))
    (hd : Offset k line stream.length d) :
    (stream.zipIdx (line + d)).foldl insertLine (t.moved k) =
      ((stream.zipIdx line).foldl insertLine t).moved k := by
  induction stream generalizing t line with
  | nil => rfl
  | cons tokens stream ih =>
    have hline := hd.movedLine
    rw [List.zipIdx_cons, List.zipIdx_cons, List.foldl_cons, List.foldl_cons, ← hline,
      insertLine_moved, ← ih _ hd.next, hline, Nat.add_right_comm]

/-- A line that does nothing defines no function. -/
theorem ofStream_insert {tokens : List String} (ht : Statement.decode tokens = .nop)
    (front back : List (List String)) :
    ofStream (front ++ tokens :: back) = (ofStream (front ++ back)).moved front.length := by
  have hfront : (front.zipIdx.foldl insertLine {}).moved front.length =
      front.zipIdx.foldl insertLine {} :=
    (foldl_insertLine_moved {} front (offset_front front)).symm
  have hoffset : Offset front.length front.length back.length 1 := .inr ⟨rfl, Nat.le_refl _⟩
  have hback := foldl_insertLine_moved (front.zipIdx.foldl insertLine {}) back hoffset
  have hplain := insertLine_plain (front.zipIdx.foldl insertLine {}) front.length
    (fun name => by rw [ht]; exact Statement.noConfusion)
  simp only [ofStream, List.zipIdx_append, List.zipIdx_cons, List.foldl_append, List.foldl_cons,
    Nat.zero_add, hplain]
  rw [← hback, hfront]

end FunctionTable

/-- The second program has a line `k` that does nothing, and otherwise what the first has. -/
structure Program.Widened (k : Nat) (p q : Program) : Prop where
  line : ∀ n : Nat, q.at? (movedLine k n : Nat) = p.at? n
  added : q.at? k = some .nop
  flow : q.flow = p.flow.moved k
  functions : q.functions = p.functions.moved k

theorem widened_load {text : String} (ht : Statement.decode (tokenize text) = .nop)
    (front back : List String) :
    Program.Widened front.length (Program.load (front ++ back))
      (Program.load (front ++ text :: back)) where
  line n := by
    rw [at?_load, at?_load, decoded, decoded, List.getElem?_map, List.getElem?_map]
    by_cases hn : n < front.length
    · rw [movedLine_of_lt hn, List.getElem?_append_left hn, List.getElem?_append_left hn]
    · have hle : front.length ≤ n := Nat.le_of_not_lt hn
      have hsub : n + 1 - front.length = n - front.length + 1 := by omega
      rw [movedLine_of_le hle, List.getElem?_append_right hle,
        List.getElem?_append_right (by omega), hsub, List.getElem?_cons_succ]
  added := by
    rw [at?_load, decoded, List.getElem?_map, List.getElem?_append_right (Nat.le_refl _),
      Nat.sub_self]
    exact congrArg some ht
  flow := by
    have h := Flow.resolve_insert ht (front.map tokenize) (back.map tokenize)
    rw [List.length_map] at h
    simpa [Program.load, Program.ofStream] using h
  functions := by
    have h := FunctionTable.ofStream_insert ht (front.map tokenize) (back.map tokenize)
    rw [List.length_map] at h
    simpa [Program.load, Program.ofStream] using h

theorem insertIdx_eq_append {α : Type} (xs : List α) {k : Nat} (hk : k ≤ xs.length) (x : α) :
    xs.insertIdx k x = xs.take k ++ x :: xs.drop k := by
  induction xs generalizing k with
  | nil =>
    have hzero : k = 0 := Nat.le_zero.mp hk
    subst hzero
    rfl
  | cons y ys ih =>
    cases k with
    | zero => rfl
    | succ k =>
      rw [List.insertIdx_succ_cons, ih (Nat.le_of_succ_le_succ hk)]
      rfl

/-- A source with a new line that does nothing. -/
theorem widened_insertIdx {source : List String} {k : Nat} (hk : k ≤ source.length)
    {text : String} (ht : Statement.decode (tokenize text) = .nop) :
    Program.Widened k (Program.load source) (Program.load (source.insertIdx k text)) := by
  have h := widened_load ht (source.take k) (source.drop k)
  rw [List.take_append_drop, List.length_take_of_le hk] at h
  rwa [insertIdx_eq_append source hk]

end Brewin
