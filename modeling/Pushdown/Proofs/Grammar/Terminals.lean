import Mathlib.Data.Fintype.EquivFin
import Pushdown.Proofs.Grammar.Compiled

/-! Terminal labels. Only they can be consumed, and each of them is the label of some token. -/

namespace Pushdown

/-- The text that a label asks for. -/
def LabelEntry.text? : LabelEntry → Option String
  | token _ text => text
  | symbol _ => none

theorem Table.Consumes.terminal {table : Table} {arc : Arc} {label : Label} (h : table.Consumes arc label) :
    table.Terminal label := by
  rcases h with ⟨hterminal, -⟩ | ⟨i, -, hfirst⟩
  · exact hterminal
  · exact hfirst.1

namespace Grammar

variable {grammar : Grammar} {label : Label}

/-- The label stands for tokens. -/
def Terminal (grammar : Grammar) (label : Label) : Prop :=
  ∃ kind text, grammar.entry? label = some (.token kind text)

theorem Compiled.terminal_of_arcFor? (hg : grammar.Compiled) {automaton : Automaton}
    (hmem : automaton ∈ grammar.automata) {number : UInt32} {arc : Arc}
    (hfind : (automaton.state number).arcFor? label = some arc) : grammar.Terminal label := by
  obtain ⟨table, htable⟩ := hg.exists_table
  obtain ⟨-, hdescribes⟩ := Table.wellFormed_and_describes htable
  obtain ⟨i, symbol, -, hcompiled⟩ := hdescribes.exists_symbol_of_mem hmem
  have hconsumes := ((hcompiled.arcFor?_eq_some_iff number label arc).1 hfind).2
  obtain ⟨kind, text, hentry⟩ := hconsumes.terminal
  rw [← hdescribes.labels_eq] at hentry
  exact ⟨kind, text, hentry⟩

theorem exists_text_not_mem (grammar : Grammar) :
    ∃ text, ∀ kind, LabelEntry.token kind (some text) ∉ grammar.labels := by
  obtain ⟨text, htext⟩ := Infinite.exists_notMem_finset (grammar.labels.toList.filterMap LabelEntry.text?).toFinset
  refine ⟨text, fun kind hmem => htext ?_⟩
  rw [List.mem_toFinset]
  exact List.mem_filterMap.2 ⟨_, Array.mem_toList_iff.2 hmem, rfl⟩

/-- A label for tokens of a kind is that of a token whose text has no label of its own. -/
theorem Sound.exists_resolve (hs : grammar.Sound) (h : grammar.Terminal label) :
    ∃ token : Token, grammar.resolve? token.kind token.text = some label := by
  obtain ⟨kind, text, hentry⟩ := h
  have hlabel := hs.labelOf_of_entry hentry
  cases text with
  | some text =>
    refine ⟨⟨kind, text, .empty 0⟩, ?_⟩
    rw [resolve?, hlabel, Option.some_or]
  | none =>
    obtain ⟨text, htext⟩ := grammar.exists_text_not_mem
    have hexact : grammar.labelOf? (.token kind (some text)) = none := by
      cases hcase : grammar.labelOf? (.token kind (some text)) with
      | none => rfl
      | some other => exact absurd (Array.mem_of_getElem? (hs.entry_of_labelOf hcase)) (htext kind)
    refine ⟨⟨kind, text, .empty 0⟩, ?_⟩
    rw [resolve?, hexact, hlabel, Option.none_or, Option.some_or]

end Grammar

end Pushdown
