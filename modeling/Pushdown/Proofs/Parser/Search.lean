import Pushdown.Parser.Basic

/-! Closing frames. A search looks ahead at the stacks that are left when frames are closed one after another. -/

namespace Pushdown

/-- One more frame has been passed. -/
def Search.next : Search → Search
  | found closing => .found (closing + 1)
  | stuck accepting => .stuck accepting

theorem Search.next_eq_found_iff (search : Search) (closing : Nat) :
    search.next = .found closing ↔ ∃ n, search = .found n ∧ closing = n + 1 := by
  cases search with
  | found n => simp [next, eq_comm]
  | stuck accepting => simp [next]

theorem Search.next_eq_stuck_iff (search : Search) (accepting : Bool) :
    search.next = .stuck accepting ↔ search = .stuck accepting := by
  cases search with
  | found n => simp [next]
  | stuck accepting' => rfl

/-- The state that a frame is in. -/
def Frame.current (frame : Frame) : State := frame.automaton.state frame.state

namespace Parser

/-- Frames are closed from the top, each in a state of which `ends` holds, until `rest` is left. -/
inductive Closes (ends : State → Prop) : (stack rest : List Frame) → Prop where
  | refl (stack : List Frame) : Closes ends stack stack
  | close {top parent : Frame} {below rest : List Frame} (hends : ends top.current)
    (h : Closes ends (parent.close top :: below) rest) : Closes ends (top :: parent :: below) rest

/-- A search goes on below a frame in such a state. -/
def Passes (label : Label) (state : State) : Prop := state.arcFor? label = none ∧ state.accepting = true

theorem Closes.imp {ends ends' : State → Prop} {stack rest : List Frame} (h : Closes ends stack rest)
    (himp : ∀ state, ends state → ends' state) : Closes ends' stack rest := by
  induction h with
  | refl stack => exact .refl stack
  | close hends _ ih => exact .close (himp _ hends) ih

theorem Closes.trans {ends : State → Prop} {stack middle rest : List Frame} (h : Closes ends stack middle)
    (h' : Closes ends middle rest) : Closes ends stack rest := by
  induction h with
  | refl => exact h'
  | close hends _ ih => exact .close hends (ih h')

/-- A stack is empty or has one frame, or its top can be closed. -/
theorem closing_induction {motive : List Frame → Prop} (nil : motive []) (single : ∀ frame, motive [frame])
    (close : ∀ top parent below, motive (parent.close top :: below) → motive (top :: parent :: below))
    (stack : List Frame) : motive stack := by
  induction hlength : stack.length generalizing stack with
  | zero => exact List.length_eq_zero_iff.1 hlength ▸ nil
  | succ n ih =>
    match stack with
    | [frame] => exact single frame
    | top :: parent :: below =>
      -- Closing the top leaves one frame less.
      apply close
      apply ih
      simpa using hlength

section Search

variable (label : Label)

theorem searchFrom_succ (closing : Nat) (current : UInt32) (stack : List Frame) :
    searchFrom label (closing + 1) current stack = (searchFrom label closing current stack).next := by
  induction stack generalizing closing current with
  | nil => rfl
  | cons frame below ih =>
    simp only [searchFrom, ih]
    split
    · rfl
    · split <;> rfl

theorem search_singleton (frame : Frame) :
    search label [frame] =
      if (frame.current.arcFor? label).isSome then .found 0 else .stuck frame.current.accepting := by
  simp only [search, searchFrom, Frame.current]
  cases (frame.automaton.state frame.state).accepting <;> rfl

theorem search_cons_cons (top parent : Frame) (below : List Frame) :
    search label (top :: parent :: below) =
      if (top.current.arcFor? label).isSome then .found 0
      else if top.current.accepting then (search label (parent.close top :: below)).next
      else .stuck false := by
  -- Below a frame that is closed, a search only looks at automata and at the states to return to.
  have hclosed : search label (parent.close top :: below) =
      searchFrom label 0 top.returnState (parent :: below) := rfl
  rw [hclosed, ← searchFrom_succ]
  rfl

variable {label}

theorem Closes.search_eq_found {stack below : List Frame} {top : Frame} (hfind : (top.current.arcFor? label).isSome)
    (h : Closes (Passes label) stack (top :: below)) :
    ∃ closing, search label stack = .found closing ∧ closeFrames closing stack = top :: below := by
  generalize hrest : top :: below = rest at h
  -- Every frame that is closed is one that the search has passed.
  induction h with
  | refl stack =>
    subst hrest
    refine ⟨0, ?_, by rw [closeFrames]; simp⟩
    cases below with
    | nil => rw [search_singleton, if_pos hfind]
    | cons parent below => rw [search_cons_cons, if_pos hfind]
  | close hends _ ih =>
    obtain ⟨closing, hsearch, hclose⟩ := ih hrest
    refine ⟨closing + 1, ?_, hclose⟩
    rw [search_cons_cons, hends.1, if_neg (by simp), if_pos hends.2, hsearch]
    rfl

theorem Closes.search_eq_stuck {stack : List Frame} {root : Frame} (hroot : Passes label root.current)
    (h : Closes (Passes label) stack [root]) : search label stack = .stuck true := by
  generalize hrest : [root] = rest at h
  induction h with
  | refl stack =>
    subst hrest
    rw [search_singleton, hroot.1, if_neg (by simp), hroot.2]
  | close hends _ ih =>
    rw [search_cons_cons, hends.1, if_neg (by simp), if_pos hends.2, ih hrest]
    rfl

theorem closes_of_search_eq_found {closing : Nat} {stack : List Frame} (h : search label stack = .found closing) :
    ∃ top below, closeFrames closing stack = top :: below ∧ (top.current.arcFor? label).isSome ∧
      Closes (Passes label) stack (top :: below) := by
  induction stack using closing_induction generalizing closing with
  | nil => cases h
  | single frame =>
    rw [search_singleton] at h
    split at h
    · rename_i hfind
      cases h
      exact ⟨frame, [], rfl, hfind, .refl _⟩
    · cases h
  | close top parent below ih =>
    rw [search_cons_cons] at h
    split at h
    · rename_i hfind
      cases h
      exact ⟨top, parent :: below, rfl, hfind, .refl _⟩
    rename_i hfind
    split at h
    · rename_i haccepting
      obtain ⟨n, hsearch, rfl⟩ := (Search.next_eq_found_iff _ _).1 h
      obtain ⟨top', below', hclose, hfind', hcloses⟩ := ih hsearch
      have hnone : top.current.arcFor? label = none := by simpa using hfind
      exact ⟨top', below', hclose, hfind', .close ⟨hnone, haccepting⟩ hcloses⟩
    · cases h

theorem closes_of_search_eq_stuck {stack : List Frame} (hne : stack ≠ []) (h : search label stack = .stuck true) :
    ∃ root, Passes label root.current ∧ Closes (Passes label) stack [root] := by
  induction stack using closing_induction with
  | nil => exact absurd rfl hne
  | single frame =>
    rw [search_singleton] at h
    split at h
    · cases h
    · rename_i hfind
      have hnone : frame.current.arcFor? label = none := by simpa using hfind
      exact ⟨frame, ⟨hnone, by simpa using h⟩, .refl _⟩
  | close top parent below ih =>
    rw [search_cons_cons] at h
    split at h
    · cases h
    rename_i hfind
    split at h
    · rename_i haccepting
      obtain ⟨root, hroot, hcloses⟩ := ih (List.cons_ne_nil _ _) ((Search.next_eq_stuck_iff _ _).1 h)
      have hnone : top.current.arcFor? label = none := by simpa using hfind
      exact ⟨root, hroot, .close ⟨hnone, haccepting⟩ hcloses⟩
    · exact absurd h (by simp)

end Search

theorem Closes.closeFrames_eq {ends : State → Prop} {stack : List Frame} {root : Frame}
    (h : Closes ends stack [root]) : closeFrames (stack.length - 1) stack = [root] := by
  generalize hrest : [root] = rest at h
  induction h with
  | refl stack =>
    subst hrest
    rfl
  | close _ _ ih => exact ih hrest

theorem allAccepting_singleton (frame : Frame) : allAccepting [frame] = frame.current.accepting :=
  Bool.and_true _

theorem allAccepting_cons_cons (top parent : Frame) (below : List Frame) :
    allAccepting (top :: parent :: below) =
      (top.current.accepting && allAccepting (parent.close top :: below)) := rfl

theorem closes_of_allAccepting {stack : List Frame} (hne : stack ≠ []) (h : allAccepting stack = true) :
    ∃ root, root.current.accepting = true ∧ Closes (fun state => state.accepting = true) stack [root] := by
  induction stack using closing_induction with
  | nil => exact absurd rfl hne
  | single frame => exact ⟨frame, (allAccepting_singleton frame).symm.trans h, .refl _⟩
  | close top parent below ih =>
    rw [allAccepting_cons_cons, Bool.and_eq_true] at h
    obtain ⟨root, hroot, hcloses⟩ := ih (List.cons_ne_nil _ _) h.2
    exact ⟨root, hroot, .close h.1 hcloses⟩

theorem Closes.allAccepting_eq {stack : List Frame} {root : Frame} (hroot : root.current.accepting = true)
    (h : Closes (fun state => state.accepting = true) stack [root]) : allAccepting stack = true := by
  generalize hrest : [root] = rest at h
  induction h with
  | refl stack =>
    subst hrest
    rw [allAccepting_singleton, hroot]
  | close hends _ ih => rw [allAccepting_cons_cons, hends, ih hrest, Bool.and_true]

section Expected

theorem mem_state_expected_iff (state : State) (label : Label) :
    label ∈ state.expected ↔ (state.arcFor? label).isSome := by
  rw [State.expected, State.arcFor?, List.lookup_isSome_iff]
  simp

theorem mem_foldl_expected_iff (state : State) (found : LabelSet) (label : Label) :
    label ∈ state.expected.foldl LabelSet.insert found ↔ label ∈ found ∨ (state.arcFor? label).isSome :=
  LabelSet.mem_foldl_insert.trans (or_congr_right (mem_state_expected_iff state label))

theorem exists_next_eq_found_iff (search : Search) :
    (∃ closing, search.next = .found closing) ↔ ∃ closing, search = .found closing := by
  cases search with
  | found n => simp [Search.next]
  | stuck accepting => simp [Search.next]

theorem mem_expectedFrom_iff (label : Label) (found : LabelSet) (stack : List Frame) :
    label ∈ expectedFrom found (reachableStates stack) ↔
      label ∈ found ∨ ∃ closing, search label stack = .found closing := by
  induction stack using closing_induction generalizing found with
  | nil => simp [reachableStates, expectedFrom, search]
  | single frame =>
    have hstates : expectedFrom found (reachableStates [frame]) =
        frame.current.expected.foldl LabelSet.insert found := by
      simp [reachableStates, statesFrom, expectedFrom, Frame.current]
    rw [hstates, mem_foldl_expected_iff, search_singleton]
    by_cases hfind : (frame.current.arcFor? label).isSome
    · simp [hfind]
    · simp [hfind]
  | close top parent below ih =>
    have hstates : reachableStates (top :: parent :: below) =
        top.current :: reachableStates (parent.close top :: below) := rfl
    rw [hstates, expectedFrom, search_cons_cons]
    -- Both go on below a frame only if it may end.
    by_cases hfind : (top.current.arcFor? label).isSome
    · by_cases haccepting : top.current.accepting
      · simp [hfind, haccepting, ih, mem_foldl_expected_iff]
      · simp [hfind, haccepting, mem_foldl_expected_iff]
    · by_cases haccepting : top.current.accepting
      · simp [hfind, haccepting, ih, mem_foldl_expected_iff, exists_next_eq_found_iff]
      · simp [hfind, haccepting, mem_foldl_expected_iff]

/-- Expected are the labels for which a search finds a frame. -/
theorem mem_expected_iff (parser : Parser) (label : Label) :
    label ∈ parser.expected ↔ ∃ closing, search label parser.stack = .found closing := by
  have hempty : ¬ label ∈ LabelSet.empty := List.not_mem_nil
  have hiff := mem_expectedFrom_iff label .empty parser.stack
  rw [or_iff_right hempty] at hiff
  exact hiff

end Expected

end Parser

end Pushdown
