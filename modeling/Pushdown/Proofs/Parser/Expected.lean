import Pushdown.Proofs.Grammar.Terminals
import Pushdown.Proofs.Parser.Stack

/-! The labels that a parser expects are exactly those that it can take. -/

namespace Pushdown.Parser

variable {grammar : Grammar} {label : Label}

/-- Every frame may end in the state that it is in once all frames above it have been closed. -/
def MayEnd (stack : List Frame) : Prop :=
  ∀ closing top below, closing < stack.length → closeFrames closing stack = top :: below →
    top.current.accepting = true

theorem mayEnd_cons_cons (top parent : Frame) (below : List Frame) :
    MayEnd (top :: parent :: below) ↔ top.current.accepting = true ∧ MayEnd (parent.close top :: below) := by
  constructor
  · intro h
    refine ⟨h 0 top (parent :: below) (Nat.succ_pos _) rfl, ?_⟩
    intro closing next rest hlt hclose
    exact h (closing + 1) next rest (Nat.succ_lt_succ hlt) hclose
  · rintro ⟨htop, hbelow⟩ closing next rest hlt hclose
    cases closing with
    | zero =>
      cases hclose
      exact htop
    | succ closing => exact hbelow closing next rest (Nat.lt_of_succ_lt_succ hlt) hclose

theorem allAccepting_iff_mayEnd (stack : List Frame) : allAccepting stack = true ↔ MayEnd stack := by
  induction stack using closing_induction with
  | nil => exact ⟨fun _ _ _ _ hlt => absurd hlt (Nat.not_lt_zero _), fun _ => rfl⟩
  | single frame =>
    rw [allAccepting_singleton]
    constructor
    · intro h closing top below hlt hclose
      obtain rfl : closing = 0 := Nat.lt_one_iff.1 hlt
      cases hclose
      exact h
    · exact fun h => h 0 frame [] Nat.one_pos rfl
  | close top parent below ih => rw [allAccepting_cons_cons, Bool.and_eq_true, ih, mayEnd_cons_cons]

/-- A search that finds no frame says whether all of them may end. -/
theorem allAccepting_of_search_eq_stuck {accepting : Bool} {stack : List Frame}
    (h : search label stack = .stuck accepting) : allAccepting stack = accepting := by
  induction stack using closing_induction with
  | nil =>
    cases h
    rfl
  | single frame =>
    rw [search_singleton] at h
    split at h
    · cases h
    · cases h
      exact allAccepting_singleton frame
  | close top parent below ih =>
    rw [search_cons_cons] at h
    rw [allAccepting_cons_cons]
    split at h
    · cases h
    split at h
    · rename_i hend
      rw [hend, Bool.true_and, ih ((Search.next_eq_stuck_iff _ _).1 h)]
    · rename_i hgoesOn
      cases h
      rw [Bool.eq_false_iff.2 hgoesOn, Bool.false_and]

/-- The token is taken, or it completes the parse. -/
def Accepts (parser : Parser) (kind : TokenKind) (token : Token) (label : Label) : Prop :=
  ∃ complete next, parser.addToken kind token label = (.ok complete, next)

section Accepts

variable {parser : Parser} (kind : TokenKind) (token : Token)

theorem accepts_of_mem_expected (hs : parser.grammar.Sound) (hknown : Known parser.grammar parser.stack)
    (h : label ∈ parser.expected) : parser.Accepts kind token label := by
  obtain ⟨closing, hsearch⟩ := (parser.mem_expected_iff label).1 h
  obtain ⟨stack, next, -, hcloses, hconsume⟩ := consume_of_search hs hknown token hsearch
  have hadd := addToken_of_takes kind hs hknown hcloses (takes_of_consume_eq_ok hconsume)
  split at hadd
  · exact ⟨true, _, hadd⟩
  · exact ⟨false, _, hadd⟩

/-- A label that is not expected is taken as the end of the input or not at all. -/
theorem addToken_of_not_mem_expected (hne : parser.stack ≠ []) (h : label ∉ parser.expected) :
    parser.addToken kind token label =
      if allAccepting parser.stack && kind.isEndMarker then (.ok true, parser.finish)
      else (.error (parser.unexpected kind token (allAccepting parser.stack)), parser) := by
  cases hsearch : search label parser.stack with
  | found closing => exact absurd ((parser.mem_expected_iff label).2 ⟨closing, hsearch⟩) h
  | stuck accepting =>
    rw [addToken_of_search_eq_stuck kind hne hsearch, allAccepting_of_search_eq_stuck hsearch]

theorem accepts_iff (hs : parser.grammar.Sound) (hknown : Known parser.grammar parser.stack)
    (hne : parser.stack ≠ []) :
    parser.Accepts kind token label ↔
      label ∈ parser.expected ∨ (MayEnd parser.stack ∧ kind.isEndMarker = true) := by
  by_cases h : label ∈ parser.expected
  · exact iff_of_true (accepts_of_mem_expected kind token hs hknown h) (.inl h)
  · rw [or_iff_right h, ← allAccepting_iff_mayEnd, ← Bool.and_eq_true, Accepts,
      addToken_of_not_mem_expected kind token hne h]
    split
    · rename_i hend
      exact iff_of_true ⟨true, _, rfl⟩ hend
    · rename_i hend
      exact iff_of_false (by simp) hend

theorem expected_of_error (hs : parser.grammar.Sound) (hknown : Known parser.grammar parser.stack)
    (hne : parser.stack ≠ []) {error : ParseError} {next : Parser}
    (h : parser.addToken kind token label = (.error error, next)) :
    error.expected = parser.expected ∧ label ∉ parser.expected := by
  have hlabel : label ∉ parser.expected := by
    intro hmem
    obtain ⟨complete, next', hadd⟩ := accepts_of_mem_expected kind token hs hknown hmem
    cases hadd.symm.trans h
  rw [addToken_of_not_mem_expected kind token hne hlabel] at h
  split at h
  · cases h
  · cases h
    exact ⟨rfl, hlabel⟩

end Accepts

/-- What is expected can be consumed in some state of the grammar. -/
theorem exists_find_of_mem_expected {parser : Parser} (hknown : Known parser.grammar parser.stack)
    (h : label ∈ parser.expected) :
    ∃ (frame : Frame) (arc : Arc), frame.automaton ∈ parser.grammar.automata ∧
      frame.current.arcFor? label = some arc := by
  obtain ⟨closing, hsearch⟩ := (parser.mem_expected_iff label).1 h
  obtain ⟨top, below, -, hfind, hcloses⟩ := closes_of_search_eq_found hsearch
  obtain ⟨arc, harc⟩ := Option.isSome_iff_exists.1 hfind
  exact ⟨top, arc, hcloses.known hknown top List.mem_cons_self, harc⟩

theorem terminal_of_mem_expected {parser : Parser} (hg : parser.grammar.Compiled)
    (hknown : Known parser.grammar parser.stack) (h : label ∈ parser.expected) : parser.grammar.Terminal label := by
  obtain ⟨frame, arc, hframe, hfind⟩ := exists_find_of_mem_expected hknown h
  exact hg.terminal_of_arcFor? hframe hfind

/--
A token that is no end marker is taken if and only if its label is expected, and an end marker also if all frames
may end. The expected labels are ascending, they are terminal labels, and some token has each of them. An error
names exactly these labels, so never the one that is rejected.
-/
theorem expected_exact (hg : grammar.Compiled) {parser : Parser} (h : Reachable grammar parser)
    (hprogress : parser.stack ≠ []) :
    (∀ kind token label,
      (kind.isEndMarker = false → (parser.Accepts kind token label ↔ label ∈ parser.expected)) ∧
      (kind.isEndMarker = true →
        (parser.Accepts kind token label ↔ label ∈ parser.expected ∨ MayEnd parser.stack)) ∧
      ∀ error next, parser.addToken kind token label = (.error error, next) →
        error.expected = parser.expected ∧ label ∉ error.expected) ∧
    parser.expected.Pairwise (· < ·) ∧
    ∀ label ∈ parser.expected, grammar.Terminal label ∧
      ∃ token : Token, grammar.resolve? token.kind token.text = some label := by
  obtain ⟨rfl, hconsistent⟩ := h.consistent hg.sound
  have hs := hg.sound
  have hknown := hconsistent.known
  refine ⟨fun kind token label => ⟨?_, ?_, ?_⟩, LabelSet.ascending _, ?_⟩
  · intro hkind
    rw [accepts_iff kind token hs hknown hprogress, hkind]
    simp
  · intro hkind
    rw [accepts_iff kind token hs hknown hprogress, and_iff_left hkind]
  · intro error next hadd
    obtain ⟨heq, hlabel⟩ := expected_of_error kind token hs hknown hprogress hadd
    exact ⟨heq, heq ▸ hlabel⟩
  · intro label hlabel
    obtain ⟨frame, arc, hmem, hfind⟩ := exists_find_of_mem_expected hknown hlabel
    have hterminal := hg.terminal_of_arcFor? hmem hfind
    exact ⟨hterminal, hs.exists_resolve hterminal⟩

/-- After `ac` the inner sentence is complete, and only `b` can follow, in the outer one. -/
theorem expected_exact_nested :
    ((nested.pushToken ⟨.name, "a", .empty 0⟩).2.pushToken ⟨.name, "c", .empty 1⟩).2.Accepts .name
      ⟨.name, "b", .empty 2⟩ ⟨1⟩ := by
  have hreach := ((Reachable.setup .new setup_nested).pushToken ⟨.name, "a", .empty 0⟩).pushToken
    ⟨.name, "c", .empty 1⟩
  have hstack : ((nested.pushToken ⟨.name, "a", .empty 0⟩).2.pushToken ⟨.name, "c", .empty 1⟩).2.stack ≠ [] := by
    rw [← List.isEmpty_eq_false_iff]
    cbv
  have hexpected : ((nested.pushToken ⟨.name, "a", .empty 0⟩).2.pushToken ⟨.name, "c", .empty 1⟩).2.expected =
      [⟨1⟩] := by
    cbv
  have hexact := (expected_exact (.ofTable .nested Table.ofTable_nested) hreach hstack).1 .name
    ⟨.name, "b", .empty 2⟩ ⟨1⟩
  refine (hexact.1 rfl).2 ?_
  rw [hexpected]
  exact List.mem_singleton.2 rfl

end Pushdown.Parser
