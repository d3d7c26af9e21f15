import Pushdown.Proofs.Json.Access
import Pushdown.Proofs.Json.RoundTrip
import Pushdown.Proofs.Table.Names
import Pushdown.Table.Json

/-! The text of a table is read as the table, whatever the table is like. -/

namespace Pushdown

open Json (Made)

section Parts

theorem LabelEntry.spelling?_ofText (text : String) : spelling? (some (.ofText text)) = some (some text) := by
  have htext := Json.text?_ofText text
  rw [Json.ofText] at htext ⊢
  rw [spelling?, htext, Option.map_some]
  exact fun h => by cases h

theorem LabelEntry.ofJson?_toJson (entry : LabelEntry) : ofJson? entry.toJson = some entry := by
  rcases entry with ⟨kind, none | text⟩ | id
  · simp [toJson, ofJson?, Json.single?, spelling?]
  · simp [toJson, ofJson?, Json.single?, spelling?_ofText]
  · simp [toJson, ofJson?]

theorem Arc.ofJson?_toJson (arc : Arc) : ofJson? arc.toJson = some arc := by
  simp [toJson, ofJson?, Json.items?]

theorem StateEntry.ofJson?_toJson (state : StateEntry) : ofJson? state.toJson = some state := by
  have harcs := Json.listOf?_array Arc.toJson Arc.ofJson? Arc.ofJson?_toJson state.arcs
  simp [toJson, ofJson?, Json.single?, accepting?, Json.bool?, harcs]

theorem SymbolEntry.ofJson?_toJson (symbol : SymbolEntry) : ofJson? symbol.toJson = some symbol := by
  have hstates := Json.listOf?_array StateEntry.toJson StateEntry.ofJson? StateEntry.ofJson?_toJson symbol.states.toList
  have hfirst := Json.listOf?_array (fun label : Label => .ofNat label.code.toNat)
    (fun label => label.uint16?.map Label.mk) (by simp) symbol.first
  simp [toJson, ofJson?, Json.single?, hstates, hfirst]

theorem TokenNames.kind?_toString (kind : TokenKind) : kind? (toString kind.code.toNat) = some kind := by
  have hdigits : Json.digits? 65536 (toString kind.code.toNat) = some kind.code.toNat :=
    Json.digits?_toString kind.code.toNat_lt
  rw [kind?, if_pos (Json.naturalPattern_accepts_toString _), hdigits, Option.map_some]
  exact congrArg (fun code => some (TokenKind.mk code)) (UInt16.ofNat_toNat)

theorem TokenNames.ofJson?_toJson (names : TokenNames) : ofJson? names.toJson = some names := by
  rw [toJson, ofJson?]
  calc
    _ = some (names.entries.foldl (fun names entry => names.insert entry.1 entry.2) empty) := by
      apply Json.foldlM_map_eq_some
      rintro names ⟨kind, name⟩
      dsimp only
      rw [kind?_toString, Json.text?_ofText]
      rfl
    _ = some names := by rw [foldl_insert_entries]

theorem StartMap.ofJson?_toJson (starts : StartMap String) : ofJson? starts.toJson = some starts := by
  rw [toJson, ofJson?, Json.fields?_ofFields]
  calc
    _ = some (starts.entries.foldl (fun starts entry => starts.insert entry.1 entry.2) empty) := by
      apply Json.foldlM_map_eq_some
      rintro starts ⟨name, symbol⟩
      dsimp only
      rw [Json.text?_ofText]
      rfl
    _ = some starts := by rw [foldl_insert_entries]

theorem Table.ofJson?_toJson (table : Table) : ofJson? table.toJson = some table := by
  have hlabels := Json.listOf?_array LabelEntry.toJson LabelEntry.ofJson? LabelEntry.ofJson?_toJson table.labels.toList
  have hsymbols :=
    Json.listOf?_array SymbolEntry.toJson SymbolEntry.ofJson? SymbolEntry.ofJson?_toJson table.symbols.toList
  have hstarts := StartMap.ofJson?_toJson table.starts
  have hnames := TokenNames.ofJson?_toJson table.tokenNames
  by_cases hempty : table.tokenNames.entries = []
  · -- Token names are left out if there are none.
    have htokenNames : table.tokenNames = .empty := TokenNames.ext hempty
    simp [toJson, ofJson?, Json.single?, hempty, tokenNames?, hlabels, hsymbols, hstarts, ← htokenNames]
  · simp [toJson, ofJson?, Json.single?, hempty, tokenNames?, hlabels, hsymbols, hstarts, hnames]

end Parts

section Made

theorem LabelEntry.made_toJson (entry : LabelEntry) : entry.toJson.Made := by
  rcases entry with ⟨kind, none | text⟩ | id
  · have hpayload : Made (.ofFields [("type", .ofNat kind.code.toNat)]) := .fields (by simp [Made.number])
    exact .fields (by simp [hpayload])
  · have hpayload : Made (.ofFields [("type", .ofNat kind.code.toNat), ("text", .ofText text)]) :=
      .fields (by simp [Made.number, Made.text])
    exact .fields (by simp [hpayload])
  · exact .fields (by simp [Made.number])

theorem Arc.made_toJson (arc : Arc) : arc.toJson.Made := .array (by simp [Made.number])

theorem StateEntry.made_toJson (state : StateEntry) : state.toJson.Made := by
  have harcs : Made (.array (state.arcs.map Arc.toJson)) := .array (List.forall_mem_map.2 fun arc _ => arc.made_toJson)
  exact .fields (by simp [harcs, Made.bool])

theorem SymbolEntry.made_toJson (symbol : SymbolEntry) : symbol.toJson.Made := by
  have hstates : Made (.array (symbol.states.toList.map StateEntry.toJson)) :=
    .array (List.forall_mem_map.2 fun state _ => state.made_toJson)
  have hfirst : Made (.array (symbol.first.map fun label => .ofNat label.code.toNat)) :=
    .array (List.forall_mem_map.2 fun label _ => .number _)
  exact .fields (by simp [Made.text, hstates, hfirst])

/-- The codes of kinds are texts like any other. -/
theorem TokenNames.toJson_eq_ofFields (names : TokenNames) :
    names.toJson = .ofFields (names.entries.map fun (kind, name) => (toString kind.code.toNat, .ofText name)) := by
  rw [toJson, Json.ofFields, List.map_map]
  refine congrArg Json.object (List.map_congr_left fun entry _ => ?_)
  exact Prod.ext (Json.ofList_encode_toString _).symm rfl

theorem TokenNames.made_toJson (names : TokenNames) : names.toJson.Made := by
  rw [toJson_eq_ofFields]
  exact .fields (List.forall_mem_map.2 fun entry _ => .text entry.2)

theorem StartMap.made_toJson (starts : StartMap String) : starts.toJson.Made :=
  .fields (List.forall_mem_map.2 fun entry _ => .text entry.2)

theorem Table.made_toJson (table : Table) : table.toJson.Made := by
  have hlabels : Made (.array (table.labels.toList.map LabelEntry.toJson)) :=
    .array (List.forall_mem_map.2 fun entry _ => entry.made_toJson)
  have hsymbols : Made (.array (table.symbols.toList.map SymbolEntry.toJson)) :=
    .array (List.forall_mem_map.2 fun symbol _ => symbol.made_toJson)
  have hstarts := table.starts.made_toJson
  have hnames := table.tokenNames.made_toJson
  apply Made.fields
  by_cases hempty : table.tokenNames.entries.isEmpty
  · simp [hempty, Made.number, hlabels, hsymbols, hstarts]
  · simp [hempty, Made.number, hlabels, hsymbols, hstarts, hnames]

end Made

/-- A table is what is read from its text. -/
theorem Table.ofText?_pretty (table : Table) : ofText? table.toJson.pretty = some table := by
  rw [ofText?, table.made_toJson.read?_pretty]
  exact table.ofJson?_toJson

theorem Table.ofText?_compact (table : Table) : ofText? table.toJson.compact = some table := by
  rw [ofText?, table.made_toJson.read?_compact]
  exact table.ofJson?_toJson

end Pushdown
