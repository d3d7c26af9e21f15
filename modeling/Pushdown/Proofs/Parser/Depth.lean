import Pushdown.Proofs.Parser.Progress

/-!
How deep the stack is. Each frame is a node of the final tree that is still open, so the stack is as deep as the last
token is nested.
-/

namespace Pushdown

namespace Tree

mutual

/-- The tokens of the leaves from left to right, each with the number of nodes above it, of which `above` are above
the tree. -/
def leavesUnder (above : Nat) : Tree → List (Token × Nat)
  | leaf token => [(token, above)]
  | node _ children => leavesUnderAll (above + 1) children

/-- The leaves of several trees below the same nodes. -/
def leavesUnderAll (above : Nat) : List Tree → List (Token × Nat)
  | [] => []
  | tree :: trees => tree.leavesUnder above ++ leavesUnderAll above trees

end

/-- The leaves from left to right, each with the number of nodes above it. -/
def nestedLeaves (tree : Tree) : List (Token × Nat) := tree.leavesUnder 0

theorem leavesUnderAll_append (above : Nat) (a b : List Tree) :
    leavesUnderAll above (a ++ b) = leavesUnderAll above a ++ leavesUnderAll above b := by
  induction a with
  | nil => rfl
  | cons tree rest ih => rw [List.cons_append, leavesUnderAll, ih, leavesUnderAll, List.append_assoc]

theorem leavesUnderAll_singleton (above : Nat) (tree : Tree) :
    leavesUnderAll above [tree] = tree.leavesUnder above := by
  rw [leavesUnderAll, leavesUnderAll, List.append_nil]

mutual

theorem leavesUnder_map_fst (above : Nat) (tree : Tree) : (tree.leavesUnder above).map Prod.fst = tree.leaves := by
  cases tree with
  | leaf token => rw [leavesUnder, leaves_leaf, List.map_singleton]
  | node symbol children => rw [leavesUnder, leavesUnderAll_map_fst, leaves_node]

theorem leavesUnderAll_map_fst (above : Nat) (trees : List Tree) :
    (leavesUnderAll above trees).map Prod.fst = trees.flatMap leaves := by
  cases trees with
  | nil => rfl
  | cons tree rest =>
    rw [leavesUnderAll, List.map_append, leavesUnder_map_fst, leavesUnderAll_map_fst, List.flatMap_cons]

end

/-- The leaves with their depths are the leaves. -/
theorem nestedLeaves_map_fst (tree : Tree) : tree.nestedLeaves.map Prod.fst = tree.leaves :=
  leavesUnder_map_fst 0 tree

end Tree

namespace Parser

variable {grammar : Grammar} {parser : Parser} {token : Token} {label : Label}

/-- The leaves in the frames, from the bottom up, each with the number of nodes that will be above it. -/
def nestedLeavesOf : List Frame → List (Token × Nat)
  | [] => []
  | frame :: below => nestedLeavesOf below ++ Tree.leavesUnderAll (below.length + 1) frame.children.reverse

section Stack

theorem nestedLeavesOf_close (top parent : Frame) (below : List Frame) :
    nestedLeavesOf (parent.close top :: below) = nestedLeavesOf (top :: parent :: below) := by
  have hchildren : (parent.close top).children.reverse = parent.children.reverse ++ [top.node] := by
    rw [Frame.close, Frame.add, List.reverse_cons]
  rw [nestedLeavesOf, hchildren, Tree.leavesUnderAll_append, Tree.leavesUnderAll_singleton, Frame.node,
    Tree.leavesUnder, nestedLeavesOf, nestedLeavesOf, List.length_cons, List.append_assoc]

theorem Closes.nestedLeavesOf_eq {ends : State → Prop} {stack rest : List Frame} (h : Closes ends stack rest) :
    nestedLeavesOf rest = nestedLeavesOf stack := by
  induction h with
  | refl stack => rfl
  | @close top parent below _ _ _ ih => rw [ih, nestedLeavesOf_close]

/-- The token becomes a leaf below all frames of the stack. -/
theorem Takes.nestedLeavesOf_eq {stack next : List Frame} (h : Takes grammar token label stack next) :
    nestedLeavesOf next = nestedLeavesOf stack ++ [(token, next.length)] := by
  induction h with
  | @leaf top below arc _ _ =>
    have hchildren : ({ top.add (.leaf token) with state := arc.target } : Frame).children.reverse =
        top.children.reverse ++ [.leaf token] := by
      rw [Frame.add, List.reverse_cons]
    rw [nestedLeavesOf, hchildren, Tree.leavesUnderAll_append, Tree.leavesUnderAll_singleton, Tree.leavesUnder,
      nestedLeavesOf, List.length_cons, List.append_assoc]
  | @through top below next arc automaton _ _ _ ih =>
    -- A frame that has just been opened has no leaves.
    have hstart : nestedLeavesOf (.start automaton arc.target :: top :: below) = nestedLeavesOf (top :: below) :=
      List.append_nil _
    rw [ih, hstart]

theorem nestedLeavesOf_root (root : Frame) : nestedLeavesOf [root] = root.node.nestedLeaves := rfl

end Stack

section Run

variable {next : Parser}

theorem InProgress.nestedLeavesOf_of_taken (hs : grammar.Sound) (h : InProgress grammar parser)
    (hpush : parser.pushToken token = (.ok false, next)) :
    nestedLeavesOf next.stack = nestedLeavesOf parser.stack ++ [(token, next.depth)] := by
  have hgrammar := h.grammar_eq hs
  rcases pushToken_adds hs hgrammar (hgrammar ▸ h.known hs) token with ⟨label, -, hadds⟩ | ⟨error, herror⟩
  · rw [hpush] at hadds
    cases hadds with
    | taken hcloses htakes _ => exact htakes.nestedLeavesOf_eq.trans (by rw [hcloses.nestedLeavesOf_eq]; rfl)
  · cases herror.symm.trans hpush

theorem InProgress.nestedLeavesOf_of_complete (hs : grammar.Sound) (h : InProgress grammar parser)
    (hpush : parser.pushToken token = (.ok true, next)) :
    token.kind.isEndMarker = true ∧ next.depth = 0 ∧
      ∃ tree, next.root = some tree ∧ nestedLeavesOf parser.stack <+: tree.nestedLeaves := by
  have hgrammar := h.grammar_eq hs
  rcases pushToken_adds hs hgrammar (hgrammar ▸ h.known hs) token with ⟨label, -, hadds⟩ | ⟨error, herror⟩
  · rw [hpush] at hadds
    cases hadds with
    | @ended stack next root hcloses htakes hkind _ hends =>
      refine ⟨hkind, rfl, root.node, rfl, ?_⟩
      rw [← nestedLeavesOf_root, hends.nestedLeavesOf_eq, htakes.nestedLeavesOf_eq, hcloses.nestedLeavesOf_eq]
      exact List.prefix_append _ _
    | @stopped root hkind _ hcloses =>
      refine ⟨hkind, rfl, root.node, rfl, ?_⟩
      rw [← nestedLeavesOf_root, hcloses.nestedLeavesOf_eq]
  · cases herror.symm.trans hpush

/-- Each token that is taken adds one leaf, in order. -/
theorem InProgress.nestedLeavesOf_feed (hs : grammar.Sound) (h : InProgress grammar parser) {tokens : List Token}
    (hgoes : parser.GoesOn tokens) :
    ∃ leaves, nestedLeavesOf (parser.feed tokens).stack = nestedLeavesOf parser.stack ++ leaves ∧
      leaves.map Prod.fst = tokens := by
  induction tokens generalizing parser with
  | nil => exact ⟨[], (List.append_nil _).symm, rfl⟩
  | cons token rest ih =>
    obtain ⟨htoken, hrest⟩ := (goesOn_cons_iff token rest).1 hgoes
    have hpush : parser.pushToken token = (.ok false, (parser.pushToken token).2) := Prod.ext htoken rfl
    obtain ⟨leaves, hleaves, hfst⟩ := ih (h.pushToken hs hpush) hrest
    refine ⟨(token, (parser.pushToken token).2.depth) :: leaves, ?_, congrArg (token :: ·) hfst⟩
    calc nestedLeavesOf (parser.feed (token :: rest)).stack
        = nestedLeavesOf (parser.pushToken token).2.stack ++ leaves := hleaves
      _ = nestedLeavesOf parser.stack ++ (token, (parser.pushToken token).2.depth) :: leaves := by
        rw [h.nestedLeavesOf_of_taken hs hpush, List.append_assoc, List.singleton_append]

/-- The leaf of a token stands behind those of the tokens before it. -/
theorem InProgress.nestedLeavesOf_feed_append_cons (hs : grammar.Sound) (h : InProgress grammar parser)
    {before after : List Token} (hgoes : parser.GoesOn (before ++ token :: after)) :
    ∃ leaves rest, leaves.length = before.length ∧
      nestedLeavesOf (parser.feed (before ++ token :: after)).stack = nestedLeavesOf parser.stack ++
        (leaves ++ (token, ((parser.feed before).pushToken token).2.depth) :: rest) := by
  obtain ⟨hbefore, htoken, hafter⟩ := hgoes.append_cons
  have hpush : (parser.feed before).pushToken token = (.ok false, ((parser.feed before).pushToken token).2) :=
    Prod.ext htoken rfl
  have hfed := h.feed hs hbefore
  obtain ⟨leaves, hleaves, hfst⟩ := h.nestedLeavesOf_feed hs hbefore
  obtain ⟨rest, hrest, -⟩ := (hfed.pushToken hs hpush).nestedLeavesOf_feed hs hafter
  have hfeed : parser.feed (before ++ token :: after) = ((parser.feed before).pushToken token).2.feed after :=
    List.foldl_append
  refine ⟨leaves, rest, by rw [← hfst, List.length_map], ?_⟩
  rw [hfeed, hrest, hfed.nestedLeavesOf_of_taken hs hpush, hleaves]
  simp only [List.append_assoc, List.singleton_append]

end Run

end Parser

/--
In a parse that gives a tree, every token but the last becomes the next leaf of the tree, and the stack is then as deep
as there are nodes above this leaf. The last token is an end marker, and it leaves the stack empty.
-/
theorem Grammar.parseTokens_depth_eq_nesting {grammar : Grammar} (hg : grammar.Compiled) {start : SymbolId}
    {parser : Parser} (hstart : (Parser.new grammar).setup start = .ok parser) {tokens unread : List Token}
    {tree : Tree} (hparse : grammar.parseTokens start tokens = .ok ⟨.ok tree, unread⟩) :
    ∃ before last, tokens = before ++ last :: unread ∧ parser.GoesOn before ∧
      (∀ earlier token later, before = earlier ++ token :: later →
        tree.leaves[earlier.length]? = some token ∧
        tree.nestedLeaves[earlier.length]? = some (token, ((parser.feed earlier).pushToken token).2.depth)) ∧
      last.kind.isEndMarker = true ∧ ((parser.feed before).pushToken last).1 = .ok true ∧
      ((parser.feed before).pushToken last).2.depth = 0 := by
  have hs := hg.sound
  have hprogress := Parser.InProgress.setup hstart
  have hempty : Parser.nestedLeavesOf parser.stack = [] := by
    obtain ⟨automaton, -, rfl⟩ := Parser.exists_of_setup hstart
    rfl
  rw [parseTokens_of_setup hstart] at hparse
  obtain ⟨before, last, done, rfl, hgoes, hpush, hroot⟩ :=
    hprogress.exists_complete_of_run hs (Except.ok.inj hparse)
  obtain ⟨hkind, hdepth, root, hroot', more, hmore⟩ := (hprogress.feed hs hgoes).nestedLeavesOf_of_complete hs hpush
  obtain rfl := Option.some.inj (hroot.symm.trans hroot')
  refine ⟨before, last, rfl, hgoes, ?_, hkind, by rw [hpush], by rw [hpush, hdepth]⟩
  rintro earlier token later rfl
  obtain ⟨leaves, rest, hlength, hfed⟩ := hprogress.nestedLeavesOf_feed_append_cons hs hgoes
  rw [hempty, List.nil_append] at hfed
  rw [hfed, List.append_assoc, List.cons_append] at hmore
  have hleaf : tree.nestedLeaves[earlier.length]? =
      some (token, ((parser.feed earlier).pushToken token).2.depth) := by
    rw [← hmore, ← hlength, List.getElem?_append_right (Nat.le_refl _), Nat.sub_self, List.getElem?_cons_zero]
  refine ⟨?_, hleaf⟩
  rw [← tree.nestedLeaves_map_fst, List.getElem?_map, hleaf, Option.map_some]

/-- The `c` of `acb` stands below two nodes, and the stack is two frames deep when it has been taken. -/
theorem Grammar.parseTokens_depth_eq_nesting_nested :
    ∃ tree, Grammar.nested.parseTokens (.ofIndex 0) (Parser.nestedTokens ++ [.endMarker 3]) = .ok ⟨.ok tree, []⟩ ∧
      tree.nestedLeaves[1]? = some (⟨.name, "c", .empty 1⟩, 2) := by
  have hparse : Grammar.nested.parseTokens (.ofIndex 0) (Parser.nestedTokens ++ [.endMarker 3]) =
      .ok ⟨.ok .nested, []⟩ := by cbv
  have hdepth : ((Parser.nested.feed [⟨.name, "a", .empty 0⟩]).pushToken ⟨.name, "c", .empty 1⟩).2.depth = 2 := by cbv
  obtain ⟨before, last, htokens, -, hdepths, -⟩ :=
    parseTokens_depth_eq_nesting (.ofTable .nested Table.ofTable_nested) Parser.setup_nested hparse
  obtain ⟨hbefore, -⟩ := List.append_inj' htokens rfl
  have hleaf := (hdepths [⟨.name, "a", .empty 0⟩] ⟨.name, "c", .empty 1⟩ [⟨.name, "b", .empty 2⟩] hbefore.symm).2
  rw [hdepth] at hleaf
  exact ⟨_, hparse, hleaf⟩

end Pushdown
