import Pushdown.Proofs.Parser.Parallel

/-!
A parser sees a token only through its label. Tokens with the same labels are parsed to the same tree, but for the
tokens at its leaves, or they fail in the same way at the same place.
-/

namespace Pushdown

namespace Grammar

variable {grammar : Grammar} {token token' : Token}

/-- The tokens have the same label, or neither has one. -/
def SameLabel (grammar : Grammar) (token token' : Token) : Prop :=
  grammar.resolve? token.kind token.text = grammar.resolve? token'.kind token'.text

theorem Sound.kind_eq_of_resolve (hs : grammar.Sound) {kind kind' : TokenKind} {text text' : String} {label : Label}
    (h : grammar.resolve? kind text = some label) (h' : grammar.resolve? kind' text' = some label) :
    kind = kind' := by
  rcases hs.entry_of_resolve h with ⟨_, hentry⟩ | ⟨rfl, hentry⟩ <;>
    rcases hs.entry_of_resolve h' with ⟨_, hentry'⟩ | ⟨rfl, hentry'⟩
  · cases hentry.symm.trans hentry'
    rfl
  · cases hentry.symm.trans hentry'
  · cases hentry.symm.trans hentry'
  · rfl

/-- Whether a token ends the input is said by its label. A token without a label never does. -/
theorem Sound.isEndMarker_eq (hs : grammar.Sound) (h : grammar.SameLabel token token') :
    token.kind.isEndMarker = token'.kind.isEndMarker := by
  unfold SameLabel at h
  cases hlabel : grammar.resolve? token.kind token.text with
  | some label => rw [hs.kind_eq_of_resolve hlabel (h.symm.trans hlabel)]
  | none =>
    -- An end marker always has a label, if only the implicit one.
    have hnot : ∀ {other : Token}, grammar.resolve? other.kind other.text = none → other.kind.isEndMarker = false := by
      intro other hother
      apply Bool.eq_false_iff.2
      intro hkind
      obtain ⟨label, hsome⟩ := Parser.exists_resolve_endMarker grammar hkind
      cases hother.symm.trans hsome
    rw [hnot hlabel, hnot (h.symm.trans hlabel)]

end Grammar

namespace Parser

variable {grammar : Grammar} {base : Automaton}

section SameLabels

variable {related : Token → Token → Prop}

/-- Two runs over the same grammar, of which the tokens are compared as `tokens` says. -/
def Likeness.byLabel (tokens : Token → Token → Prop) : Likeness := ⟨Eq, Eq, tokens⟩

theorem Likeness.grammars_byLabel (grammar : Grammar) : (byLabel related).Grammars grammar grammar where
  size_eq := rfl
  automaton _ := rel_refl (fun _ => rfl) _
  symbol_eq h := congrArg Automaton.symbol h
  accepting_eq h number := by rw [h]
  arcFor := by
    rintro a _ rfl number label _ rfl
    exact rel_refl (fun _ => ⟨rfl, rel_refl (fun _ => rfl) _⟩) _

theorem Likeness.pushed_byLabel (hs : grammar.Sound) {token token' : Token} (htokens : related token token')
    (h : grammar.SameLabel token token') : (byLabel related).Pushed grammar grammar token token' where
  tokens := htokens
  endMarker_eq := hs.isEndMarker_eq h
  label := by
    have hlabel : grammar.resolve? token.kind token.text = grammar.resolve? token'.kind token'.text := h
    rw [hlabel]
    exact rel_refl (fun _ => rfl) _

theorem Likeness.Expected.eq {expected expected' : List Label}
    (h : (byLabel related).Expected expected expected') : expected = expected' := by
  apply eq_of_pairwise_of_mem_iff _ h.ascending h.ascending' fun label => h.mem_iff rfl
  exact fun _ _ hlt hgt => Label.lt_irrefl _ (Label.lt_trans hlt hgt)

end SameLabels

end Parser

/--
Two rows of tokens with the same labels, whatever their texts and places. Either both are parsed, up to the same
number of tokens, to trees that are equal once each leaf is replaced by its position in the row; if even the texts are
the same, the trees have the same outline. Or both fail in the same way, at the same place of the two rows or because
both have no end marker.
-/
theorem Grammar.parseTokens_of_sameLabels {grammar : Grammar} (hg : grammar.Compiled) {start : SymbolId}
    {parser : Parser} (hstart : (Parser.new grammar).setup start = .ok parser) {tokens tokens' : List Token}
    (h : List.Forall₂ grammar.SameLabel tokens tokens') :
    (∃ tree tree' count, grammar.parseTokens start tokens = .ok ⟨.ok tree, tokens.drop count⟩ ∧
      grammar.parseTokens start tokens' = .ok ⟨.ok tree', tokens'.drop count⟩ ∧
      tree.leaves <+: tokens ∧ tree'.leaves <+: tokens' ∧ tree.numbered = tree'.numbered ∧
      (List.Forall₂ Tree.SameText tokens tokens' → tree.outline grammar = tree'.outline grammar)) ∨
    ∃ error error' unread unread', grammar.parseTokens start tokens = .ok ⟨.error error, unread⟩ ∧
      grammar.parseTokens start tokens' = .ok ⟨.error error', unread'⟩ ∧
      error.kind = error'.kind ∧ error.message = error'.message ∧ error.expected = error'.expected ∧
      ((∃ i : Nat, tokens[i]? = some error.token ∧ tokens'[i]? = some error'.token ∧
          unread = tokens.drop (i + 1) ∧ unread' = tokens'.drop (i + 1)) ∨
        error.message = "missing end marker" ∧ unread = [] ∧ unread' = [] ∧
          ∃ stop stop', error.token = .endMarker stop ∧ error'.token = .endMarker stop') := by
  have hs := hg.sound
  have hparse := parseTokens_of_setup hstart
  obtain ⟨base, hautomaton, hholds⟩ := Parser.Holds.setup hs rfl hstart
  have hbase := mem_of_automaton? hautomaton
  have hprogress := Parser.InProgress.setup hstart
  have houtcomes : ∀ {related : Token → Token → Prop}, List.Forall₂ related tokens tokens' →
      (Parser.Likeness.byLabel related).Outcomes 0 0 tokens tokens' (parser.run 0 tokens) (parser.run 0 tokens') := by
    intro related hrelated
    have hpushed : List.Forall₂ ((Parser.Likeness.byLabel related).Pushed grammar grammar) tokens tokens' :=
      List.forall₂_iff_zip.2 ⟨h.length_eq, fun hpair =>
        Parser.Likeness.pushed_byLabel hs (List.forall₂_zip hrelated hpair) (List.forall₂_zip h hpair)⟩
    rcases (Parser.Likeness.grammars_byLabel grammar).parseTokens_outcomes hs start hpushed with
      ⟨undefined, herror, -⟩ | ⟨outcome, outcome', houtcome, houtcome', hrelate⟩
    · cases (hparse tokens).symm.trans herror
    · cases (hparse tokens).symm.trans houtcome
      cases (hparse tokens').symm.trans houtcome'
      exact hrelate
  rw [hparse, hparse]
  -- Nothing is asked of the tokens here but that they are compared place by place.
  have hplaces := houtcomes (h.imp fun _ _ _ => trivial)
  generalize houtcome : parser.run 0 tokens = outcome, houtcome' : parser.run 0 tokens' = outcome' at hplaces
  cases hplaces with
  | @complete count tree tree' htree =>
    left
    have hleaves := hholds.leaves_prefix hs hbase hprogress houtcome
    have hleaves' := hholds.leaves_prefix hs hbase hprogress houtcome'
    refine ⟨tree, tree', count, rfl, rfl, hleaves, hleaves', htree.numbered_eq, fun htexts => ?_⟩
    -- The same two runs are compared once more, now also by the texts of their tokens.
    exact ((houtcomes htexts).alike (by rw [houtcome]) (by rw [houtcome'])).outline_eq grammar
  | @failed count token token' error error' herror htoken htoken' =>
    right
    obtain ⟨hfailure, rfl, rfl, hexpected⟩ := herror
    exact ⟨error, error', _, _, rfl, rfl, congrArg ParseFailure.kind hfailure,
      congrArg ParseFailure.message hfailure, hexpected.eq, .inl ⟨count, htoken, htoken', rfl, rfl⟩⟩
  | missing hexpected =>
    right
    exact ⟨_, _, _, _, rfl, rfl, rfl, rfl, hexpected.eq, .inr ⟨rfl, rfl, rfl, _, _, rfl, rfl⟩⟩

/-- Elsewhere in a source, and with another text for its end, the sentence `acb` has a tree of the same shape. -/
theorem Grammar.parseTokens_of_sameLabels_nested :
    ∃ tree, Grammar.nested.parseTokens (.ofIndex 0) [⟨.name, "a", .empty 7⟩, ⟨.name, "c", .empty 8⟩,
        ⟨.name, "b", .empty 9⟩, ⟨.endMarker, "end", .empty 9⟩] = .ok ⟨.ok tree, []⟩ ∧
      tree.numbered = Tree.nested.numbered := by
  have hparse : Grammar.nested.parseTokens (.ofIndex 0) (Parser.nestedTokens ++ [.endMarker 3]) =
      .ok ⟨.ok .nested, []⟩ := by cbv
  have hlabels : List.Forall₂ Grammar.nested.SameLabel (Parser.nestedTokens ++ [.endMarker 3])
      [⟨.name, "a", .empty 7⟩, ⟨.name, "c", .empty 8⟩, ⟨.name, "b", .empty 9⟩, ⟨.endMarker, "end", .empty 9⟩] :=
    .cons rfl (.cons rfl (.cons rfl (.cons (by cbv) .nil)))
  rcases parseTokens_of_sameLabels (.ofTable .nested Table.ofTable_nested) Parser.setup_nested hlabels with
    ⟨tree, tree', count, htree, htree', -, -, hnumbered, -⟩ | ⟨error, error', unread, unread', herror, -⟩
  · have houtcome := Except.ok.inj (hparse.symm.trans htree)
    have hresult : Tree.nested = tree := Except.ok.inj (congrArg ParseOutcome.result houtcome)
    -- All four tokens of the one row have been read, so all of the other.
    have hunread := List.drop_eq_nil_iff.1 (congrArg ParseOutcome.unread houtcome).symm
    rw [hlabels.length_eq] at hunread
    rw [List.drop_eq_nil_of_le hunread] at htree'
    exact ⟨tree', htree', by rw [hresult, hnumbered]⟩
  · cases hparse.symm.trans herror

end Pushdown
