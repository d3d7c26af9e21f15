import Pushdown.Proofs.Parser.Completeness

/-!
What can stand behind a nonterminal. If this always tells whether a nonterminal ends, every derivation tree is found.
Tables are not checked for it, and there are tables for which it does not.
-/

namespace Pushdown

namespace Grammar

/-- The labels that can stand behind a nonterminal in an input that is read as `start` and ends with `last`. -/
inductive Follows (grammar : Grammar) (start : SymbolId) (last : Label) : SymbolId → Label → Prop where
  | last : Follows grammar start last start last
  | next {symbol inner : SymbolId} {automaton : Automaton} {state : UInt32} {arc : Arc} {label : Label}
    (hautomaton : grammar.automaton? symbol = some automaton) (harc : arc ∈ (automaton.state state).arcs)
    (hinner : grammar.labelOf? (.symbol inner) = some arc.label)
    (hfind : ((automaton.state arc.target).arcFor? label).isSome) : Follows grammar start last inner label
  | outer {symbol inner : SymbolId} {automaton : Automaton} {state : UInt32} {arc : Arc} {label : Label}
    (hautomaton : grammar.automaton? symbol = some automaton) (harc : arc ∈ (automaton.state state).arcs)
    (hinner : grammar.labelOf? (.symbol inner) = some arc.label)
    (haccepting : (automaton.state arc.target).accepting = true)
    (h : Follows grammar start last symbol label) : Follows grammar start last inner label

/-- Where a nonterminal may end, it cannot go on with a label that can stand behind it. -/
def Decided (grammar : Grammar) (start : SymbolId) (last : Label) : Prop :=
  ∀ symbol automaton state label, grammar.automaton? symbol = some automaton →
    (automaton.state state).accepting = true → grammar.Follows start last symbol label →
    (automaton.state state).arcFor? label = none

variable {grammar : Grammar} {start : SymbolId} {last : Label}

/-- The tokens, if there are any, begin with one that can stand behind the nonterminal. -/
def Followed (grammar : Grammar) (start : SymbolId) (last : Label) (symbol : SymbolId) (tokens : List Token) :
    Prop :=
  ∀ token ∈ tokens.head?, ∀ label, grammar.resolve? token.kind token.text = some label →
    grammar.Follows start last symbol label

/-- What stands behind a child begins with its next sibling, or else stands behind its parent. -/
theorem Followed.child (hs : grammar.Sound) {symbol inner : SymbolId} {automaton : Automaton}
    (hautomaton : grammar.automaton? symbol = some automaton) {state stop : UInt32} {arc : Arc}
    (harc : arc ∈ (automaton.state state).arcs) (hinner : grammar.labelOf? (.symbol inner) = some arc.label)
    {rest : List Tree} (hrest : grammar.Reads automaton arc.target rest stop)
    (haccepting : (automaton.state stop).accepting = true)
    (hderivation : ∀ child ∈ rest, ∀ inner, child.symbol? = some inner → grammar.Derivation inner child)
    {following : List Token} (h : grammar.Followed start last symbol following) :
    grammar.Followed start last inner (rest.flatMap Tree.leaves ++ following) := by
  intro token htoken label hresolve
  cases hrest with
  | nil => exact .outer hautomaton harc hinner haccepting (h token htoken label hresolve)
  | @cons _ _ next sibling trees hnext hlabel _ =>
    -- The first leaf of the sibling is consumed where the child has ended.
    have hmem := mem_of_automaton? hautomaton
    have hsibling := hderivation sibling List.mem_cons_self
    obtain ⟨token', leaves, label', hleaves, hresolve', hfind⟩ := hs.arcFor?_of_child hmem hnext hlabel hsibling
    rw [List.flatMap_cons, hleaves] at htoken
    obtain rfl : token' = token := Option.some.inj htoken
    obtain rfl : label' = label := Option.some.inj (hresolve'.symm.trans hresolve)
    exact .next hautomaton harc hinner (by rw [hfind, Option.isSome_some])

/-- A child takes all that it can if its tree does so wherever something stands behind it that can. -/
theorem Reads.greedy_child (hs : grammar.Sound) {symbol : SymbolId} {automaton : Automaton}
    (hautomaton : grammar.automaton? symbol = some automaton) {first stop : UInt32} {before rest : List Tree}
    {child : Tree} (hreads : grammar.Reads automaton first (before ++ child :: rest) stop)
    (haccepting : (automaton.state stop).accepting = true)
    (hderivation : ∀ tree ∈ before ++ child :: rest, ∀ inner, tree.symbol? = some inner →
      grammar.Derivation inner tree)
    (hgreedy : ∀ inner, child.symbol? = some inner → ∀ following, grammar.Followed start last inner following →
      grammar.Greedy child following)
    {following : List Token} (hfollowed : grammar.Followed start last symbol following) :
    grammar.Greedy child (rest.flatMap Tree.leaves ++ following) := by
  obtain ⟨state, arc, harc, hlabel, hrest⟩ := hreads.exists_arc
  have hsiblings : ∀ tree ∈ rest, ∀ inner, tree.symbol? = some inner → grammar.Derivation inner tree :=
    fun tree htree => hderivation tree (List.mem_append_right before (List.mem_cons_of_mem child htree))
  cases child with
  | leaf token => exact .leaf token _
  | node inner grandchildren =>
    apply hgreedy inner rfl
    exact Followed.child hs hautomaton harc hlabel hrest haccepting hsiblings hfollowed

/-- Where ends are decided, there is no choice in a derivation tree. -/
theorem Derivation.greedy (hs : grammar.Sound) (hdecided : grammar.Decided start last) {symbol : SymbolId}
    {tree : Tree} (h : grammar.Derivation symbol tree) {following : List Token}
    (hfollowed : grammar.Followed start last symbol following) : grammar.Greedy tree following := by
  induction h generalizing following with
  | @node symbol automaton children stop hautomaton _ hreads haccepting hderivation ih =>
    refine .node ?_ ?_
    · intro token htoken
      refine ⟨automaton, stop, hautomaton, hreads, fun label hresolve => ?_⟩
      exact hdecided symbol automaton stop label hautomaton haccepting (hfollowed token htoken label hresolve)
    · rintro before child rest rfl
      have hmem : child ∈ before ++ child :: rest := List.mem_append_right before List.mem_cons_self
      exact hreads.greedy_child hs hautomaton haccepting hderivation
        (fun inner hinner _ => ih child hmem inner hinner) hfollowed

/--
Every derivation tree of an input is found, with or without its end marker, as long as what can stand behind a
nonterminal tells whether it ends. So no input has two derivation trees.
-/
theorem parseTokens_of_decided (hg : grammar.Compiled) (input : List Token)
    (hinput : ∀ token ∈ input, token.kind.isEndMarker = false) (final : Token)
    (hfinal : final.kind.isEndMarker = true) (hlast : grammar.resolve? final.kind final.text = some last)
    (hdecided : grammar.Decided start last) :
    (∀ tree, grammar.Derivation start tree → tree.leaves = input ∨ tree.leaves = input ++ [final] →
      ∀ rest, grammar.parseTokens start (input ++ final :: rest) = .ok ⟨.ok tree, rest⟩) ∧
    ∀ tree tree', grammar.Derivation start tree → grammar.Derivation start tree' →
      (tree.leaves = input ∨ tree.leaves = input ++ [final]) →
      (tree'.leaves = input ∨ tree'.leaves = input ++ [final]) → tree = tree' := by
  have hs := hg.sound
  have hfollowed : grammar.Followed start last start [final] := by
    intro token htoken label hresolve
    obtain rfl : final = token := Option.some.inj htoken
    obtain rfl : last = label := Option.some.inj (hlast.symm.trans hresolve)
    exact .last
  have hparse : ∀ tree, grammar.Derivation start tree → tree.leaves = input ∨ tree.leaves = input ++ [final] →
      ∀ rest, grammar.parseTokens start (input ++ final :: rest) = .ok ⟨.ok tree, rest⟩ := by
    intro tree hderivation hleaves
    have hmatch : grammar.LongestMatch start input final tree := by
      refine ⟨hderivation, ?_⟩
      rcases hleaves with hleaves | hleaves
      · exact .inl ⟨hleaves, hderivation.greedy hs hdecided hfollowed⟩
      · exact .inr ⟨hleaves, hderivation.greedy hs hdecided fun _ htoken => by cases htoken⟩
    exact hmatch.parseTokens_eq hs hinput hfinal
  refine ⟨hparse, ?_⟩
  intro tree tree' hderivation hderivation' hleaves hleaves'
  cases (hparse tree hderivation hleaves []).symm.trans (hparse tree' hderivation' hleaves' [])
  rfl

/-- Nothing leaves the state in which a nested sentence ends. -/
theorem decided_nested (last : Label) : Grammar.nested.Decided (.ofIndex 0) last := by
  intro symbol automaton state label hautomaton haccepting _
  have hmem := mem_of_automaton? hautomaton
  obtain rfl : automaton = .nested := by simpa [Grammar.nested] using hmem
  have hstate : Automaton.nested.state state = ⟨[], true, []⟩ ∨ (Automaton.nested.state state).accepting = false := by
    unfold Automaton.state
    rcases hnumber : state.toNat with _ | _ | _ | _ | n
    · exact .inr rfl
    · exact .inr rfl
    · exact .inr rfl
    · exact .inl rfl
    · exact .inr rfl
  rcases hstate with hend | hrejecting
  · rw [hend]
    rfl
  · rw [hrejecting] at haccepting
    cases haccepting

theorem parseTokens_of_decided_nested :
    Grammar.nested.parseTokens (.ofIndex 0) (Tree.nested.leaves ++ [.endMarker 3]) = .ok ⟨.ok .nested, []⟩ := by
  have hinput : ∀ token ∈ Tree.nested.leaves, token.kind.isEndMarker = false := by
    simp [Tree.nested, TokenKind.isEndMarker, TokenKind.name, TokenKind.endMarker]
  have hlast : Grammar.nested.resolve? (Token.endMarker 3).kind (Token.endMarker 3).text = some .implicitEnd := by
    cbv
  exact (parseTokens_of_decided (.ofTable .nested Table.ofTable_nested) Tree.nested.leaves hinput (.endMarker 3) rfl
    hlast (decided_nested .implicitEnd)).1 .nested Tree.longestMatch_nested.1 (.inl rfl) []

end Grammar

/-- `S` is `A` and then `x`, and `A` is `a` with or without an `x`, so that both can take an `x` behind an `a`. -/
def Table.contested : Table where
  version := 1
  tokenNames := .empty
  labels := #[.token .name (some "a"), .token .name (some "x"), .symbol (.ofIndex 1)]
  symbols := #[{
    name := "S"
    states := #[⟨[⟨⟨2⟩, 1⟩], false⟩, ⟨[⟨⟨1⟩, 2⟩], false⟩, ⟨[], true⟩]
    first := [⟨0⟩] }, {
    name := "A"
    states := #[⟨[⟨⟨0⟩, 1⟩], false⟩, ⟨[⟨⟨1⟩, 2⟩], true⟩, ⟨[], true⟩]
    first := [⟨0⟩] }]
  starts := StartMap.empty.insert "s" "S"

def Automaton.contestedOuter : Automaton where
  symbol := .ofIndex 0
  name := "S"
  states := #[⟨[⟨⟨2⟩, 1⟩], false, [(⟨0⟩, ⟨⟨2⟩, 1⟩)]⟩, ⟨[⟨⟨1⟩, 2⟩], false, [(⟨1⟩, ⟨⟨1⟩, 2⟩)]⟩, ⟨[], true, []⟩]
  first := .ofList [⟨0⟩]

def Automaton.contestedInner : Automaton where
  symbol := .ofIndex 1
  name := "A"
  states := #[⟨[⟨⟨0⟩, 1⟩], false, [(⟨0⟩, ⟨⟨0⟩, 1⟩)]⟩, ⟨[⟨⟨1⟩, 2⟩], true, [(⟨1⟩, ⟨⟨1⟩, 2⟩)]⟩, ⟨[], true, []⟩]
  first := .ofList [⟨0⟩]

def Grammar.contested : Grammar where
  labels := Table.contested.labels
  automata := #[.contestedOuter, .contestedInner]
  starts := StartMap.empty.insert "s" (.ofIndex 0)
  tokenNames := .empty

theorem Table.ofTable_contested : Grammar.ofTable .contested = .ok .contested := by
  have hnames : checkNames ∅ (contested.symbols.toList.map (·.name)) = .ok () := by
    simp [contested, checkNames]
  have hlabels : contested.checkLabels ∅ 0 contested.labels.toList = .ok () := by
    simp [contested, checkLabels]
    cbv
  have hstructure : contested.checkStructure = .ok () := by
    rw [checkStructure, hnames, hlabels]
    cbv
  rw [Grammar.ofTable, hstructure]
  cbv

/-- The tree of `a x`. -/
def Tree.contested : Tree :=
  .node (.ofIndex 0) [.node (.ofIndex 1) [.leaf ⟨.name, "a", ⟨0, 1, by decide⟩⟩], .leaf ⟨.name, "x", ⟨2, 3, by decide⟩⟩]

theorem Tree.derivation_contested : Grammar.contested.Derivation (.ofIndex 0) contested := by
  have houter : Grammar.contested.automaton? (.ofIndex 0) = some .contestedOuter := rfl
  have hinner : Grammar.contested.automaton? (.ofIndex 1) = some .contestedInner := rfl
  have ha : (⟨⟨0⟩, 1⟩ : Arc) ∈ (Automaton.contestedInner.state 0).arcs := by decide
  have hA : (⟨⟨2⟩, 1⟩ : Arc) ∈ (Automaton.contestedOuter.state 0).arcs := by decide
  have hx : (⟨⟨1⟩, 2⟩ : Arc) ∈ (Automaton.contestedOuter.state 1).arcs := by decide
  have hleft : Grammar.contested.Derivation (.ofIndex 1)
      (.node (.ofIndex 1) [.leaf ⟨.name, "a", ⟨0, 1, by decide⟩⟩]) :=
    .node hinner (List.cons_ne_nil _ _) (.cons ha (by cbv) (.nil 1)) rfl (by simp [Tree.symbol?])
  refine .node houter (List.cons_ne_nil _ _) (.cons hA (by cbv) (.cons hx (by cbv) (.nil 2))) rfl ?_
  simpa [Tree.symbol?] using hleft

/-- A table may be accepted although it does not decide where `A` ends. Then `a x` has a derivation tree, but `A`
takes the `x`, and the parse fails. -/
theorem Grammar.parseTokens_contested :
    ∃ grammar, Grammar.ofTable .contested = .ok grammar ∧ grammar.start? "s" = some (.ofIndex 0) ∧
      grammar.Derivation (.ofIndex 0) .contested ∧
      (∀ token ∈ Tree.contested.leaves, token.kind.isEndMarker = false) ∧
      grammar.parseTokens (.ofIndex 0) (Tree.contested.leaves ++ [.endMarker 3]) =
        .ok ⟨.error ⟨.incompleteInput, .endMarker 3, [⟨1⟩]⟩, []⟩ := by
  refine ⟨.contested, Table.ofTable_contested, by cbv, Tree.derivation_contested, ?_, ?_⟩
  · simp [Tree.contested, TokenKind.isEndMarker, TokenKind.name, TokenKind.endMarker]
  · have hleaves : Tree.contested.leaves = [⟨.name, "a", ⟨0, 1, by decide⟩⟩, ⟨.name, "x", ⟨2, 3, by decide⟩⟩] := by
      simp [Tree.contested]
    rw [hleaves]
    cbv

end Pushdown
