import Pushdown.Grammar.LabelTables
import Pushdown.Proofs.Grammar.RoundTrip
import Pushdown.Proofs.Grammar.Terminals
import Pushdown.Proofs.Parser.SameLabels

/-!
The label of a token. Tables that are filled entry by entry and searched step by step find the label that the entries
of the grammar call for, and each label for tokens is found.
-/

namespace Pushdown

namespace LabelTables

variable {table : Table} {tables : LabelTables}

theorem get?_empty (entry : LabelEntry) : empty.get? entry = none := by
  rcases entry with ⟨kind, - | text⟩ | id <;> simp [empty, get?, spelled?]

theorem get?_insert (entry other : LabelEntry) (label : Label) :
    (tables.insert entry label).get? other = if entry = other then some label else tables.get? other := by
  rcases entry with ⟨kind, - | text⟩ | id
  · rcases other with ⟨kind', - | text'⟩ | id' <;> simp [insert, get?, spelled?, Std.HashMap.getElem?_insert]
  · rcases other with ⟨kind', - | text'⟩ | id'
    · simp [insert, get?]
    · -- The texts of other kinds are left alone, and so are the other texts of the kind.
      by_cases hkind : kind = kind'
      · subst hkind
        cases hbyText : tables.exact[kind]? <;>
          simp [insert, get?, spelled?, Std.HashMap.getElem?_insert, Std.HashMap.getD_eq_getD_getElem?, hbyText]
      · simp [insert, get?, spelled?, Std.HashMap.getElem?_insert, hkind]
    · simp [insert, get?]
  · rcases other with ⟨kind', - | text'⟩ | id' <;> simp [insert, get?, spelled?, Std.HashMap.getElem?_insert]

/-- Entries are refused for the same defects whether their labels are kept in one table or in several. -/
theorem map_fill {seen : Std.HashMap LabelEntry Label} (h : ∀ entry, tables.get? entry = seen[entry]?) (i : Nat)
    (entries : List LabelEntry) :
    (fill table tables i entries).map (fun _ => ()) = table.checkLabels seen i entries := by
  induction entries generalizing tables seen i with
  | nil => rfl
  | cons entry rest ih =>
    rw [fill, Table.checkLabels]
    cases hcheck : table.checkEntry (Grammar.labelAt i) entry with
    | error defect => rfl
    | ok =>
      simp only [bind, Except.bind, h entry]
      cases hprevious : seen[entry]? with
      | some previous => rfl
      | none =>
        apply ih
        intro other
        rw [get?_insert, Std.HashMap.getElem?_insert, h other]
        simp only [beq_iff_eq]

/-- An entry has the label of its position, unless it had a label before. -/
theorem get?_of_fill {entries : List LabelEntry} {i : Nat} {filled : LabelTables}
    (h : fill table tables i entries = .ok filled) (entry : LabelEntry) :
    filled.get? entry =
      (tables.get? entry).or ((entries.findIdx? (· = entry)).map fun j => Grammar.labelAt (i + j)) := by
  induction entries generalizing tables i with
  | nil =>
    obtain rfl := Except.ok.inj h
    simp
  | cons head rest ih =>
    rw [fill] at h
    obtain ⟨-, -, h⟩ := exists_of_bind_eq_ok h
    split at h
    · cases h
    rename_i hnew
    rw [ih h, get?_insert, List.findIdx?_cons]
    by_cases hhead : head = entry
    · subst hhead
      simp [hnew]
    · -- The position is counted from the entry behind.
      simp only [hhead, if_false, decide_false, Bool.false_eq_true, Option.map_map, Function.comp_def]
      simp only [Nat.add_assoc, Nat.add_comm 1]

theorem ofTable_sorted (table : Table) : ofTable table.sorted = ofTable table := by
  have hfill : ∀ entries tables i, fill table.sorted tables i entries = fill table tables i entries := by
    intro entries
    induction entries with
    | nil => exact fun _ _ => rfl
    | cons entry rest ih =>
      intro tables i
      simp only [fill, table.checkEntry_sorted, ih]
  exact hfill table.labels.toList empty 0

end LabelTables

namespace Grammar

variable {grammar : Grammar} {table : Table}

theorem exists_labelTables (h : Grammar.ofTable table = .ok grammar) :
    ∃ tables, LabelTables.ofTable table = .ok tables ∧ ∀ entry, tables.get? entry = grammar.labelOf? entry := by
  have hlabels : table.checkLabels ∅ 0 table.labels.toList = .ok () := by
    obtain ⟨⟨⟩, hstructure, -⟩ := exists_of_bind_eq_ok h
    obtain ⟨⟨⟩, -, hnames⟩ := exists_of_bind_eq_ok hstructure
    obtain ⟨⟨⟩, -, hentries⟩ := exists_of_bind_eq_ok hnames
    obtain ⟨⟨⟩, hlabels, -⟩ := exists_of_bind_eq_ok hentries
    exact hlabels
  have hempty : ∀ entry, LabelTables.empty.get? entry = (∅ : Std.HashMap LabelEntry Label)[entry]? := by
    intro entry
    rw [LabelTables.get?_empty, Std.HashMap.getElem?_empty]
  have hsame : (LabelTables.ofTable table).map (fun _ => ()) = table.checkLabels ∅ 0 table.labels.toList :=
    LabelTables.map_fill hempty 0 table.labels.toList
  rw [hlabels] at hsame
  cases hfill : LabelTables.ofTable table with
  | error defect =>
    rw [hfill] at hsame
    cases hsame
  | ok tables =>
    refine ⟨tables, rfl, fun entry => ?_⟩
    have hget := LabelTables.get?_of_fill hfill entry
    have hdescribes := (Table.wellFormed_and_describes h).2
    rw [hget, LabelTables.get?_empty, Option.none_or, labelOf?, hdescribes.labels_eq, ← List.findIdx?_toArray]
    simp only [Array.toArray_toList, Nat.zero_add]

/--
The tables by which labels are looked up are not part of a grammar. But they are the same for the table that a grammar
has been made from and for the table that its text is read as, and names are found as before.
-/
theorem labelTables_of_dump (explain : String → String) (h : Grammar.ofTable table = .ok grammar) :
    ∃ dumped reloaded tables, Table.ofText? grammar.dump = some dumped ∧ load explain grammar.dump = .ok reloaded ∧
      LabelTables.ofTable table = .ok tables ∧ LabelTables.ofTable dumped = .ok tables ∧
      (∀ entry, tables.get? entry = reloaded.labelOf? entry) ∧
      ∀ name, reloaded.symbolOf? name = grammar.symbolOf? name := by
  obtain ⟨tables, hfill, hget⟩ := exists_labelTables h
  have htext := grammar.ofText?_dump
  have hload : load explain grammar.dump = .ok grammar := by
    rw [load, htext]
    exact ofTable_toTable h
  refine ⟨grammar.toTable, grammar, tables, htext, hload, hfill, ?_, hget, fun _ => rfl⟩
  rw [Table.toTable_of_ofTable h, LabelTables.ofTable_sorted, hfill]

/-- The label is the position of the entry, and the entry stands nowhere else. -/
def Only (grammar : Grammar) (entry : LabelEntry) (label : Label) : Prop :=
  ∀ i : Nat, grammar.labels[i]? = some entry ↔ i = label.index

/-- The label of a token, if it has one, as the entries of the grammar call for it. -/
inductive Resolves (grammar : Grammar) (kind : TokenKind) (text : String) : Option Label → Prop where
  /-- There is an entry for the kind with just this text. -/
  | exact (label : Label) (h : grammar.Only (.token kind (some text)) label) : Resolves grammar kind text (some label)
  /-- Only the kind has an entry. -/
  | generic (label : Label) (hexact : .token kind (some text) ∉ grammar.labels)
      (h : grammar.Only (.token kind none) label) : Resolves grammar kind text (some label)
  | implicitEnd (hexact : .token kind (some text) ∉ grammar.labels) (hgeneric : .token kind none ∉ grammar.labels)
      (h : kind = .endMarker) : Resolves grammar kind text (some .implicitEnd)
  | unknown (hexact : .token kind (some text) ∉ grammar.labels) (hgeneric : .token kind none ∉ grammar.labels)
      (h : kind ≠ .endMarker) : Resolves grammar kind text none

/-- The label stands for tokens of the kind: by its entry, or as the implicit label of an end marker. -/
def StandsForKind (grammar : Grammar) (label : Label) (kind : TokenKind) : Prop :=
  (∃ text, grammar.entry? label = some (.token kind text)) ∨
    label = .implicitEnd ∧ kind = .endMarker ∧ grammar.entry? label = none

section Sound

variable {entry : LabelEntry} {label : Label} {kind : TokenKind} {text : String}

theorem Sound.only_iff (hs : grammar.Sound) : grammar.Only entry label ↔ grammar.labelOf? entry = some label := by
  constructor
  · intro honly
    exact hs.labelOf_of_entry ((honly label.index).2 rfl)
  · intro hlabel i
    have hentry := hs.entry_of_labelOf hlabel
    constructor
    · intro hi
      rw [Grammar.entry?, ← Array.getElem?_toList] at hentry
      rw [← Array.getElem?_toList] at hi
      have hbound := (List.getElem?_eq_some_iff.1 hi).1
      exact (List.getElem?_inj hbound hs.labels_nodup).1 (hi.trans hentry.symm)
    · rintro rfl
      exact hentry

theorem labelOf?_eq_none_iff : grammar.labelOf? entry = none ↔ entry ∉ grammar.labels := by
  rw [labelOf?, Option.map_eq_none_iff, Array.findIdx?_eq_none_iff]
  simp only [decide_eq_false_iff_not]
  exact ⟨fun h hmem => h entry hmem rfl, fun h other hother heq => h (heq ▸ hother)⟩

theorem Sound.resolves (hs : grammar.Sound) (kind : TokenKind) (text : String) :
    grammar.Resolves kind text (grammar.resolve? kind text) := by
  unfold resolve?
  -- One case for each step of the search, which goes on only if nothing has been found.
  cases hexact : grammar.labelOf? (.token kind (some text)) with
  | some label => exact .exact label (hs.only_iff.2 hexact)
  | none =>
    have hnone := labelOf?_eq_none_iff.1 hexact
    cases hgeneric : grammar.labelOf? (.token kind none) with
    | some label => exact .generic label hnone (hs.only_iff.2 hgeneric)
    | none =>
      have hnone' := labelOf?_eq_none_iff.1 hgeneric
      rw [Option.none_or, Option.none_or]
      split
      · rename_i hend
        exact .implicitEnd hnone hnone' (of_decide_eq_true hend)
      · rename_i hend
        exact .unknown hnone hnone' fun heq => hend (decide_eq_true heq)

/-- The entries leave no choice. -/
theorem Sound.resolve?_eq (hs : grammar.Sound) {result : Option Label} (h : grammar.Resolves kind text result) :
    grammar.resolve? kind text = result := by
  cases h with
  | exact label honly => rw [resolve?, hs.only_iff.1 honly, Option.some_or]
  | generic label hexact honly =>
    rw [resolve?, labelOf?_eq_none_iff.2 hexact, hs.only_iff.1 honly, Option.none_or, Option.some_or]
  | implicitEnd hexact hgeneric hend =>
    rw [resolve?, labelOf?_eq_none_iff.2 hexact, labelOf?_eq_none_iff.2 hgeneric, hend]
    rfl
  | unknown hexact hgeneric hend =>
    have hend' : kind.isEndMarker = false := decide_eq_false hend
    rw [resolve?, labelOf?_eq_none_iff.2 hexact, labelOf?_eq_none_iff.2 hgeneric, hend']
    rfl

theorem Sound.standsForKind (hs : grammar.Sound) (h : grammar.resolve? kind text = some label) :
    grammar.StandsForKind label kind := by
  have hresolves := hs.resolves kind text
  rw [h] at hresolves
  cases hresolves with
  | exact _ honly => exact .inl ⟨some text, (honly label.index).2 rfl⟩
  | generic _ _ honly => exact .inl ⟨none, (honly label.index).2 rfl⟩
  | implicitEnd _ _ hend =>
    have hbehind : grammar.entry? .implicitEnd = none := Array.getElem?_eq_none hs.labels_le
    exact .inr ⟨rfl, hend, hbehind⟩

end Sound

/--
The label of a token is the one that the entries of its grammar call for, and the tables that the grammar is checked
with find it. It stands for tokens of the same kind, so tokens of different kinds have different labels; and each label
that stands for tokens is the label of one of them.
-/
theorem resolve?_exact (hg : grammar.Compiled) :
    (∀ kind text result, grammar.resolve? kind text = result ↔ grammar.Resolves kind text result) ∧
    (∀ table, Grammar.ofTable table = .ok grammar → ∃ tables, LabelTables.ofTable table = .ok tables ∧
      ∀ kind text, tables.resolve? kind text = grammar.resolve? kind text) ∧
    (∀ kind text label, grammar.resolve? kind text = some label → grammar.StandsForKind label kind) ∧
    (∀ kind text kind' text' label, grammar.resolve? kind text = some label →
      grammar.resolve? kind' text' = some label → kind = kind') ∧
    ∀ label, grammar.Terminal label → ∃ token : Token, grammar.resolve? token.kind token.text = some label := by
  have hs := hg.sound
  refine ⟨?_, ?_, fun _ _ _ => hs.standsForKind, fun _ _ _ _ _ => hs.kind_eq_of_resolve,
    fun _ => hs.exists_resolve⟩
  · intro kind text result
    constructor
    · rintro rfl
      exact hs.resolves kind text
    · exact hs.resolve?_eq
  · intro table htable
    obtain ⟨tables, hfill, hget⟩ := exists_labelTables htable
    refine ⟨tables, hfill, fun kind text => ?_⟩
    calc tables.resolve? kind text
        = (tables.get? (.token kind (some text))).or ((tables.get? (.token kind none)).or
            (if kind.isEndMarker then some .implicitEnd else none)) := rfl
      _ = grammar.resolve? kind text := by rw [hget, hget, resolve?]

/-- In `nested`, a name has a label for three of its texts only, and an end marker has the implicit one. -/
theorem resolve?_exact_nested :
    nested.Resolves .name "c" (some ⟨2⟩) ∧ nested.Resolves .name "d" none ∧
      nested.StandsForKind .implicitEnd .endMarker ∧
      ∃ token : Token, nested.resolve? token.kind token.text = some ⟨1⟩ := by
  obtain ⟨hresolve, -, hstands, -, hfound⟩ := resolve?_exact (.ofTable .nested Table.ofTable_nested)
  refine ⟨(hresolve _ _ _).1 ?_, (hresolve _ _ _).1 ?_, hstands .endMarker "" _ ?_, hfound ⟨1⟩ ?_⟩
  · cbv
  · cbv
  · cbv
  · exact ⟨.name, some "b", by decide⟩

end Grammar

end Pushdown
